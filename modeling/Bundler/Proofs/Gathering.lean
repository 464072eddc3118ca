import Bundler.Proofs.Isolation
import Bundler.Proofs.Records
import Bundler.Proofs.Reproducible

/-!
# The record of a bundle in no order

Dependencies of a bundle are added, upgraded, held back and taken out again while its sub-modules
arrive one after the other. `Tracks` is what all of this keeps: the dependencies are what has been
mentioned, without what is embedded. So the record is told by sets (`Gathers`), in which no order
shows: `record_gathers`.
-/

namespace Bundler

namespace ModuleInfo

/-- The record mentions the dependency, under whichever spelling. -/
def Mentions (info : ModuleInfo) (name : String) : Prop :=
  ∃ d ∈ info.dependencies, Name.resourceName d = name

/-- The record mentions the dependency without a condition. -/
def Needs (info : ModuleInfo) (name : String) : Prop :=
  ∃ d ∈ info.dependencies, Name.resourceName d = name ∧ d ∉ info.conditional

/-- The dependencies are the names that have been mentioned, without the record's own and those of
its sub-modules; they are conditional unless they are needed. -/
structure Tracks (info : ModuleInfo) (mentioned needed : Set String) : Prop where
  dependencies : ∀ x, x ∈ info.dependencies ↔ x ∈ mentioned ∧ x ∉ info.subModules ∧ x ≠ info.name
  conditional : ∀ x, x ∈ info.conditional ↔ x ∈ info.dependencies ∧ x ∉ needed
  mentions : needed ⊆ mentioned

variable {info sub : ModuleInfo} {mentioned needed : Set String}

/-! ## Dependencies -/

theorem addDependency_eq (info : ModuleInfo) (d : String) (conditional : Bool) :
    ∃ dependencies conditional', info.addDependency d conditional =
      { info with dependencies, conditional := conditional' } := by
  unfold addDependency
  split
  · exact ⟨_, _, rfl⟩
  · exact ⟨_, _, rfl⟩

/-- A conditional mention is kept only where there has been none before. -/
theorem Tracks.addConditional (h : info.Tracks mentioned needed) (d : String) :
    (info.addDependency d true).Tracks (insert d mentioned) needed := by
  obtain ⟨dependencies, conditional, mentions⟩ := h
  have more : needed ⊆ insert d mentioned := mentions.trans (Set.subset_insert d mentioned)
  by_cases own : d = info.name ∨ d ∈ info.subModules
  · have same : info.addDependency d true = info := if_pos own
    rw [same]
    refine ⟨fun x => ?_, conditional, more⟩
    rw [dependencies, Set.mem_insert_iff]
    grind
  · have added : info.addDependency d true = _ := if_neg own
    rw [added]
    refine ⟨fun x => ?_, fun x => ?_, more⟩
    · rw [NameSet.mem_insert, dependencies, Set.mem_insert_iff]
      grind
    · have new : d ∉ info.dependencies → d ∉ needed := by
        rw [dependencies]
        grind
      rw [if_pos rfl, NameSet.mem_insert]
      split
      · grind
      · rw [NameSet.mem_insert]
        grind

/-- An unconditional mention wins over those before. -/
theorem Tracks.addUnconditional (h : info.Tracks mentioned needed) (d : String) :
    (info.addDependency d false).Tracks (insert d mentioned) (insert d needed) := by
  obtain ⟨dependencies, conditional, mentions⟩ := h
  have more : insert d needed ⊆ insert d mentioned := Set.insert_subset_insert mentions
  by_cases own : d = info.name ∨ d ∈ info.subModules
  · have same : info.addDependency d false = info := if_pos own
    have other : d ∉ info.dependencies := by
      rw [dependencies]
      grind
    rw [same]
    refine ⟨fun x => ?_, fun x => ?_, more⟩
    · rw [dependencies, Set.mem_insert_iff]
      grind
    · rw [conditional, Set.mem_insert_iff]
      grind
  · have added : info.addDependency d false = _ := if_neg own
    rw [added]
    refine ⟨fun x => ?_, fun x => ?_, more⟩
    · rw [NameSet.mem_insert, dependencies, Set.mem_insert_iff]
      grind
    · rw [if_neg Bool.false_ne_true, NameSet.mem_erase, NameSet.mem_insert, conditional,
        Set.mem_insert_iff]
      grind

/-- What is embedded is no dependency, whether or not it has been mentioned. -/
theorem Tracks.embed (h : info.Tracks mentioned needed) (name : String) :
    (info.embed name).Tracks mentioned needed := by
  obtain ⟨dependencies, conditional, mentions⟩ := h
  refine ⟨fun x => ?_, fun x => ?_, mentions⟩
  · simp only [ModuleInfo.embed, NameSet.mem_erase, dependencies, List.mem_append,
      List.mem_singleton]
    grind
  · simp only [ModuleInfo.embed, NameSet.mem_erase, conditional, and_assoc]

/-- The dependencies of a sub-module are taken over, under the names of resources. -/
def addDependencies (info sub : ModuleInfo) (names : List String) : ModuleInfo :=
  names.foldl (fun info d => info.addDependency (Name.resourceName d) (sub.isConditional d)) info

theorem addDependencies_eq (info sub : ModuleInfo) (names : List String) :
    ∃ dependencies conditional, info.addDependencies sub names =
      { info with dependencies, conditional } := by
  unfold addDependencies
  induction names generalizing info with
  | nil => exact ⟨_, _, rfl⟩
  | cons d rest ih =>
    obtain ⟨_, _, first⟩ := info.addDependency_eq (Name.resourceName d) (sub.isConditional d)
    obtain ⟨dependencies, conditional, later⟩ := ih _
    refine ⟨dependencies, conditional, ?_⟩
    rw [List.foldl_cons, later, first]

theorem Tracks.addDependencies (h : info.Tracks mentioned needed) (sub : ModuleInfo)
    (names : List String) :
    (info.addDependencies sub names).Tracks
      (mentioned ∪ {x | ∃ d ∈ names, Name.resourceName d = x})
      (needed ∪ {x | ∃ d ∈ names, Name.resourceName d = x ∧ d ∉ sub.conditional}) := by
  induction names using List.reverseRecOn with
  | nil => simpa [ModuleInfo.addDependencies] using h
  | append_singleton names d ih =>
    have last : info.addDependencies sub (names ++ [d]) =
        (info.addDependencies sub names).addDependency (Name.resourceName d)
          (sub.isConditional d) := List.foldl_append
    have mentions : mentioned ∪ {x | ∃ d' ∈ names ++ [d], Name.resourceName d' = x} =
        insert (Name.resourceName d) (mentioned ∪ {x | ∃ d ∈ names, Name.resourceName d = x}) := by
      ext x
      simp only [List.mem_append, List.mem_singleton, Set.mem_union, Set.mem_ofPred_eq,
        Set.mem_insert_iff]
      grind
    rw [last, mentions]
    by_cases condition : d ∈ sub.conditional
    · have conditional : sub.isConditional d = true := decide_eq_true condition
      rw [conditional]
      convert ih.addConditional (Name.resourceName d) using 2
      ext x
      simp only [List.mem_append, List.mem_singleton, Set.mem_ofPred_eq]
      grind
    · have unconditional : sub.isConditional d = false := decide_eq_false condition
      rw [unconditional]
      convert ih.addUnconditional (Name.resourceName d) using 1
      ext x
      simp only [List.mem_append, List.mem_singleton, Set.mem_union, Set.mem_ofPred_eq,
        Set.mem_insert_iff]
      grind

/-! ## Sub-modules -/

theorem addGlobals_eq (info : ModuleInfo) (names : List String) : ∃ globals,
    names.foldl addGlobal info = { info with exposedGlobals := globals } ∧
      (info.exposedGlobals.Nodup → globals.Nodup) ∧
      ∀ g, g ∈ globals ↔ g ∈ info.exposedGlobals ∨ g ∈ names := by
  induction names generalizing info with
  | nil => exact ⟨_, rfl, id, by simp⟩
  | cons name rest ih =>
    obtain ⟨globals, later, nodup, mem⟩ := ih (info.addGlobal name)
    by_cases held : name ∈ info.exposedGlobals
    · have same : info.addGlobal name = info := if_pos held
      rw [same] at later nodup mem
      refine ⟨globals, by rw [List.foldl_cons, same, later], nodup, fun g => ?_⟩
      rw [mem, List.mem_cons]
      grind
    · have added : info.addGlobal name =
          { info with exposedGlobals := info.exposedGlobals ++ [name] } := if_neg held
      rw [added] at later nodup mem
      refine ⟨globals, by rw [List.foldl_cons, added, later], fun distinct => nodup ?_, fun g => ?_⟩
      · exact List.nodup_append_comm.1 (List.nodup_cons.2 ⟨held, distinct⟩)
      · rw [mem, List.mem_append, List.mem_singleton, List.mem_cons, or_assoc]

/-- What a new sub-module adds to a record. -/
structure Merges (info sub info' : ModuleInfo) : Prop where
  name : info'.name = info.name
  subModules : info'.subModules = info.subModules ++ [Name.resourceName sub.name]
  nodup : info.exposedGlobals.Nodup → info'.exposedGlobals.Nodup
  exposedGlobals : ∀ g, g ∈ info'.exposedGlobals ↔ g ∈ info.exposedGlobals ∨ g ∈ sub.exposedGlobals
  requiresTopLevelScope :
    info'.requiresTopLevelScope = (info.requiresTopLevelScope || sub.requiresTopLevelScope)
  isRaw : info'.isRaw = info.isRaw
  tracks : ∀ mentioned needed, info.Tracks mentioned needed →
    info'.Tracks (mentioned ∪ {x | sub.Mentions x}) (needed ∪ {x | sub.Needs x})

theorem addSubModule_merges (new : Name.resourceName sub.name ∉ info.subModules) :
    info.Merges sub (info.addSubModule sub) := by
  have whole : info.addSubModule sub =
      let all := sub.exposedGlobals.foldl addGlobal
        ((info.embed (Name.resourceName sub.name)).addDependencies sub sub.dependencies.names)
      { all with
        requiresTopLevelScope := all.requiresTopLevelScope || sub.requiresTopLevelScope } :=
    if_neg new
  have tracked (mentioned needed) (h : info.Tracks mentioned needed) :=
    (h.embed (Name.resourceName sub.name)).addDependencies sub sub.dependencies.names
  obtain ⟨_, _, taken⟩ := addDependencies_eq (info.embed (Name.resourceName sub.name)) sub
    sub.dependencies.names
  rw [taken] at tracked
  obtain ⟨_, exposed, nodup, mem⟩ := addGlobals_eq
    ((info.embed (Name.resourceName sub.name)).addDependencies sub sub.dependencies.names)
    sub.exposedGlobals
  rw [taken] at exposed nodup mem
  rw [whole, taken, exposed]
  refine ⟨rfl, rfl, nodup, mem, rfl, rfl, fun mentioned needed h => ?_⟩
  obtain ⟨dependencies, conditional, mentions⟩ := tracked mentioned needed h
  exact ⟨dependencies, conditional, mentions⟩

end ModuleInfo

/-! ## What is gathered -/

/-- The records that the pool has of the modules. -/
def Pool.records (p : Pool) (modules : List String) : Set ModuleInfo :=
  {info | ∃ module ∈ modules, p.info module = .ok info}

/-- The record of a bundle that embeds some modules, in this order, and requires others. The names
that the records of the embedded modules mention and those that are required are its dependencies,
without its own name and what it embeds. A dependency is conditional unless one of the records
mentions it without a condition or it is required. -/
structure ModuleInfo.Gathers (info : ModuleInfo) (pool : Pool) (bundle : String)
    (embedded required : List String) : Prop where
  name : info.name = bundle
  subModules : info.subModules = embedded
  tracks : info.Tracks
    {x | (∃ sub ∈ pool.records embedded, sub.Mentions x) ∨ x ∈ required}
    {x | (∃ sub ∈ pool.records embedded, sub.Needs x) ∨ x ∈ required}
  nodup : info.exposedGlobals.Nodup
  exposedGlobals : ∀ g, g ∈ info.exposedGlobals ↔
    ∃ sub ∈ pool.records embedded, g ∈ sub.exposedGlobals
  requiresTopLevelScope : info.requiresTopLevelScope ↔
    ∃ sub ∈ pool.records embedded, sub.requiresTopLevelScope

namespace Resolved

variable {pool : Pool} {info info' sub : ModuleInfo} {bundle module : String}
  {embedded required modules : List String}

/-- Names apart, what is embedded of a module is its record, or an empty one. -/
theorem embeddedRecord_yields (h : (embeddedRecord pool module).Yields sub) :
    (∃ own name, pool.info module = .ok own ∧ sub = { own with name }) ∨
      (∃ cause, pool.info module = .error cause) ∧ sub = { name := module } := by
  unfold embeddedRecord at h
  split at h
  · rename_i own found
    refine .inl ⟨own, ?_⟩
    rw [Run.pure_yields] at h
    split at h
    · exact ⟨module, found, h.symm⟩
    · exact ⟨own.name, found, h.symm⟩
  · rename_i cause found
    rw [Run.log1_bind_yields] at h
    exact .inr ⟨⟨cause, found⟩, (Run.pure_yields.1 h).symm⟩

/-- What one of the records says, where that does not depend on its name. -/
theorem exists_records_append {Q : ModuleInfo → Prop} (modules : List String)
    (h : (embeddedRecord pool module).Yields sub)
    (unnamed : ∀ (info : ModuleInfo) name, Q { info with name } ↔ Q info)
    (silent : ¬Q { name := module }) :
    (∃ s ∈ pool.records (modules ++ [module]), Q s) ↔
      (∃ s ∈ pool.records modules, Q s) ∨ Q sub := by
  have parted : (∃ s ∈ pool.records (modules ++ [module]), Q s) ↔
      (∃ s ∈ pool.records modules, Q s) ∨ ∃ s, pool.info module = .ok s ∧ Q s := by
    simp only [Pool.records, List.mem_append, List.mem_singleton, Set.mem_ofPred_eq, or_and_right,
      exists_or, exists_eq_left]
  rw [parted]
  apply or_congr_right
  rcases embeddedRecord_yields h with ⟨own, name, found, rfl⟩ | ⟨⟨cause, missing⟩, rfl⟩
  · simp [found, unnamed]
  · simp [missing, silent]

theorem gathers_require (h : info.Gathers pool bundle embedded required) (module : String) :
    (info.addDependency module false).Gathers pool bundle embedded (required ++ [module]) := by
  have tracks := h.tracks.addUnconditional module
  obtain ⟨dependencies, conditional, added⟩ := info.addDependency_eq module false
  rw [added] at tracks ⊢
  refine ⟨h.name, h.subModules, ?_, h.nodup, h.exposedGlobals, h.requiresTopLevelScope⟩
  convert tracks using 1 <;>
  · ext x
    simp only [List.mem_append, List.mem_singleton, Set.mem_ofPred_eq, Set.mem_insert_iff]
    grind

theorem gathers_requires (h : info.Gathers pool bundle embedded required) (modules : List String) :
    (modules.foldl (fun info module => info.addDependency module false) info).Gathers pool bundle
      embedded (required ++ modules) := by
  induction modules using List.reverseRecOn with
  | nil => simpa using h
  | append_singleton modules module ih =>
    rw [List.foldl_append, ← List.append_assoc]
    exact gathers_require ih module

theorem gathers_embed (h : info.Gathers pool bundle embedded required) (new : module ∉ embedded)
    (dotted : '.' ∈ Name.file module) (named : pool.Names module)
    (record : (embeddedRecord pool module).Yields sub) :
    (info.addSubModule sub).Gathers pool bundle (embedded ++ [module]) required := by
  have own : Name.resourceName sub.name = module := by
    rw [embeddedRecord_named named record, Name.resourceName]
    simp [dotted]
  have merges : info.Merges sub (info.addSubModule sub) := by
    apply ModuleInfo.addSubModule_merges
    rwa [own, h.subModules]
  constructor
  case name => rw [merges.name, h.name]
  case subModules => rw [merges.subModules, own, h.subModules]
  case tracks =>
    have mentions (x : String) := exists_records_append (Q := (·.Mentions x)) embedded record
      (fun _ _ => Iff.rfl) (by rintro ⟨_, mem, _⟩; cases mem)
    have needs (x : String) := exists_records_append (Q := (·.Needs x)) embedded record
      (fun _ _ => Iff.rfl) (by rintro ⟨_, mem, _⟩; cases mem)
    convert merges.tracks _ _ h.tracks using 1
    · ext x
      simp only [mentions, Set.mem_ofPred_eq, Set.mem_union]
      exact or_right_comm
    · ext x
      simp only [needs, Set.mem_ofPred_eq, Set.mem_union]
      exact or_right_comm
  case nodup => exact merges.nodup h.nodup
  case exposedGlobals =>
    intro g
    rw [merges.exposedGlobals, h.exposedGlobals]
    exact (exists_records_append (Q := (g ∈ ·.exposedGlobals)) embedded record (fun _ _ => Iff.rfl)
      (by simp)).symm
  case requiresTopLevelScope =>
    rw [merges.requiresTopLevelScope, Bool.or_eq_true, h.requiresTopLevelScope]
    exact (exists_records_append (Q := (·.requiresTopLevelScope = true)) embedded record
      (fun _ _ => Iff.rfl) (by simp)).symm

theorem embedAll_gathers (h : info.Gathers pool bundle embedded required)
    (distinct : (embedded ++ modules).Nodup)
    (named : ∀ module ∈ modules, '.' ∈ Name.file module ∧ pool.Names module)
    (all : (embedAll pool info modules).Yields info') :
    info'.Gathers pool bundle (embedded ++ modules) required := by
  refine Run.foldlM_invariant (P := fun done mid => (embedded ++ done).Nodup →
    mid.Gathers pool bundle (embedded ++ done) required) ?step ?start all distinct
  case start => exact fun _ => by rwa [List.append_nil]
  case step =>
    intro done module hm before after gathers step distinct
    obtain ⟨sub, record, last⟩ := Run.bind_yields.1 step
    cases Run.pure_yields.1 last
    rw [← List.append_assoc] at distinct ⊢
    obtain ⟨distinct, _, disjoint⟩ := List.nodup_append.1 distinct
    have new : module ∉ embedded ++ done := fun mem => disjoint module mem module (by simp) rfl
    obtain ⟨dotted, named⟩ := named module hm
    exact gathers_embed (gathers distinct) new dotted named record

end Resolved

/-! ## Sections -/

namespace ResolvedSection

/-- The modules of the sections of some modes. -/
def modulesIn (modes : List Mode) (sections : List ResolvedSection) : List String :=
  (sections.filter (·.mode ∈ modes)).flatMap (·.modules)

variable {modes : List Mode} {sections sections' : List ResolvedSection}

theorem modulesIn_concat (modes : List Mode) (sections : List ResolvedSection)
    (s : ResolvedSection) : modulesIn modes (sections ++ [s]) =
      modulesIn modes sections ++ if s.mode ∈ modes then s.modules else [] := by
  rw [modulesIn, List.filter_append, List.flatMap_append, ← modulesIn]
  split
  · rename_i mem
    simp [mem]
  · rename_i other
    simp [other]

/-- The sections in another order, each with its modules in another order. -/
def Rearranged (sections sections' : List ResolvedSection) : Prop :=
  ∃ middle, sections.Perm middle ∧ List.Forall₂ Reordered middle sections'

theorem Rearranged.modulesIn (h : Rearranged sections sections') (modes : List Mode) :
    (modulesIn modes sections).Perm (modulesIn modes sections') := by
  obtain ⟨middle, perm, reordered⟩ := h
  apply ((perm.filter _).flatMap_right _).trans
  clear perm
  induction reordered with
  | nil => exact .refl _
  | @cons s s' _ _ first _ ih =>
    have mode : s.mode = s'.mode := congrArg Section.mode first.definition
    by_cases mem : s.mode ∈ modes
    · have mem' : s'.mode ∈ modes := mode ▸ mem
      simpa [ResolvedSection.modulesIn, mem, mem'] using first.modules.append ih
    · have other : s'.mode ∉ modes := mode ▸ mem
      simpa [ResolvedSection.modulesIn, mem, other] using ih

theorem modulesIn_eq_nil_iff :
    modulesIn modes sections = [] ↔ ∀ s ∈ sections, s.mode ∈ modes → s.modules = [] := by
  simp [modulesIn]

theorem modulesIn_nodup {d : Definition} {pool : Pool} {ignoreMissing : Bool} {r : Resolved}
    (h : (d.resolve pool ignoreMissing).Yields r) :
    (modulesIn [.raw, .preload] r.sections).Nodup := by
  have sublist : (r.sections.filter (·.mode ∈ [Mode.raw, .preload])).Sublist
      (distributed r.sections) := by
    apply List.monotone_filter_right
    intro s hs
    have mode : s.mode = .raw ∨ s.mode = .preload := by simpa using hs
    rcases mode with mode | mode <;> simp [mode]
  exact (Definition.distributed_nodup h).sublist (sublist.flatMap _)

end ResolvedSection

open ResolvedSection (modulesIn)

namespace Resolved

variable {pool : Pool} {info info' : ModuleInfo} {bundle : String}
  {sections : List ResolvedSection} {s : ResolvedSection}

theorem recordSection_gathers
    (h : info.Gathers pool bundle (modulesIn [.raw, .preload] sections)
      (modulesIn [.require] sections))
    (distinct : (modulesIn [.raw, .preload] (sections ++ [s])).Nodup)
    (named : s.mode = .raw ∨ s.mode = .preload → ∀ module ∈ s.modules,
      '.' ∈ Name.file module ∧ pool.Names module)
    (recorded : (recordSection pool info s).Yields info') :
    info'.Gathers pool bundle (modulesIn [.raw, .preload] (sections ++ [s]))
      (modulesIn [.require] (sections ++ [s])) := by
  rw [ResolvedSection.modulesIn_concat] at distinct ⊢
  rw [ResolvedSection.modulesIn_concat]
  unfold recordSection at recorded
  cases mode : s.mode <;> rw [mode] at recorded named distinct <;> dsimp only at recorded
  case provided | bundleInfo =>
    cases Run.pure_yields.1 recorded
    simpa using h
  case require =>
    cases Run.pure_yields.1 recorded
    simpa using gathers_requires h s.modules
  case raw =>
    have marked : ModuleInfo.Gathers { info with isRaw := info.isRaw || !s.modules.isEmpty } pool
        bundle (modulesIn [.raw, .preload] sections) (modulesIn [.require] sections) :=
      ⟨h.name, h.subModules, ⟨h.tracks.dependencies, h.tracks.conditional, h.tracks.mentions⟩,
        h.nodup, h.exposedGlobals, h.requiresTopLevelScope⟩
    simpa using embedAll_gathers marked (by simpa using distinct) (named (.inl rfl)) recorded
  case preload =>
    simpa using embedAll_gathers h (by simpa using distinct) (named (.inr rfl)) recorded

theorem record_gathered {r : Resolved} (h : (r.record pool).Yields info)
    (distinct : (modulesIn [.raw, .preload] r.sections).Nodup)
    (named : ∀ module ∈ modulesIn [.raw, .preload] r.sections,
      '.' ∈ Name.file module ∧ pool.Names module) :
    info.Gathers pool r.definition.name (modulesIn [.raw, .preload] r.sections)
      (modulesIn [.require] r.sections) := by
  refine Run.foldlM_invariant (P := fun done mid => (modulesIn [.raw, .preload] done).Nodup →
    mid.Gathers pool r.definition.name (modulesIn [.raw, .preload] done)
      (modulesIn [.require] done)) ?step ?start h distinct
  case start =>
    intro _
    refine ⟨rfl, rfl, ⟨?_, ?_, ?_⟩, List.nodup_nil, ?_, ?_⟩ <;>
      simp [Pool.records, modulesIn]
  case step =>
    intro done s hs before after gathers step distinct
    have earlier : (modulesIn [.raw, .preload] done).Nodup := by
      rw [ResolvedSection.modulesIn_concat] at distinct
      exact distinct.of_append_left
    refine recordSection_gathers (gathers earlier) distinct (fun mode module hm => ?_) step
    apply named module
    exact List.mem_flatMap.2 ⟨s, List.mem_filter.2 ⟨hs, by simpa using mode⟩, hm⟩

/-! ## Raw bundles -/

theorem embedAll_isRaw {modules : List String} (h : (embedAll pool info modules).Yields info') :
    info'.isRaw = info.isRaw := by
  refine Run.foldlM_invariant (P := fun _ mid => mid.isRaw = info.isRaw) ?step rfl h
  intro _ module _ before after same step
  obtain ⟨sub, _, last⟩ := Run.bind_yields.1 step
  cases Run.pure_yields.1 last
  by_cases held : Name.resourceName sub.name ∈ before.subModules
  · have kept : before.addSubModule sub = before := if_pos held
    rw [kept, same]
  · rw [(ModuleInfo.addSubModule_merges held).isRaw, same]

theorem recordSection_isRaw (recorded : (recordSection pool info s).Yields info') :
    info'.isRaw ↔ info.isRaw ∨ s.mode = .raw ∧ s.modules ≠ [] := by
  unfold recordSection at recorded
  cases mode : s.mode <;> rw [mode] at recorded <;> dsimp only at recorded
  case provided | bundleInfo =>
    cases Run.pure_yields.1 recorded
    simp
  case require =>
    cases Run.pure_yields.1 recorded
    have each (info : ModuleInfo) (module : String) :
        (info.addDependency module false).isRaw = info.isRaw := by
      obtain ⟨_, _, added⟩ := info.addDependency_eq module false
      rw [added]
    have kept := ModuleInfo.foldl_keeps (·.isRaw) each info s.modules
    rw [kept]
    simp
  case raw =>
    rw [embedAll_isRaw recorded]
    simp
  case preload =>
    rw [embedAll_isRaw recorded]
    simp

theorem record_isRaw {r : Resolved} (h : (r.record pool).Yields info) :
    info.isRaw ↔ ∃ s ∈ r.sections, s.mode = .raw ∧ s.modules ≠ [] := by
  refine Run.foldlM_invariant (P := fun done mid =>
    mid.isRaw ↔ ∃ s ∈ done, s.mode = .raw ∧ s.modules ≠ []) ?step ?start h
  case start => simp
  case step =>
    intro done s _ before after raw step
    rw [recordSection_isRaw step, raw]
    simp only [List.mem_append, List.mem_singleton, or_and_right, exists_or, exists_eq_left]

end Resolved

/-! ## Main statement -/

namespace ModuleInfo

/-- The records say the same, in whatever order. -/
structure SameSets (info info' : ModuleInfo) : Prop where
  subModules : info.subModules.Perm info'.subModules
  dependencies : ∀ x, x ∈ info.dependencies ↔ x ∈ info'.dependencies
  conditional : ∀ x, x ∈ info.conditional ↔ x ∈ info'.conditional
  exposedGlobals : info.exposedGlobals.Perm info'.exposedGlobals
  requiresTopLevelScope : info.requiresTopLevelScope = info'.requiresTopLevelScope
  isRaw : info.isRaw = info'.isRaw

theorem Gathers.sameSets {info info' : ModuleInfo} {pool : Pool} {bundle : String}
    {embedded embedded' required required' : List String}
    (h : info.Gathers pool bundle embedded required)
    (h' : info'.Gathers pool bundle embedded' required') (perm : embedded.Perm embedded')
    (perm' : required.Perm required') (isRaw : info.isRaw = info'.isRaw) :
    info.SameSets info' := by
  have records : pool.records embedded = pool.records embedded' := by
    ext sub
    simp only [Pool.records, Set.mem_ofPred_eq, perm.mem_iff]
  have subModules : info.subModules.Perm info'.subModules := by
    rw [h.subModules, h'.subModules]
    exact perm
  have dependencies (x : String) : x ∈ info.dependencies ↔ x ∈ info'.dependencies := by
    rw [h.tracks.dependencies, h'.tracks.dependencies, subModules.mem_iff, h.name, h'.name, records]
    simp only [Set.mem_ofPred_eq, perm'.mem_iff]
  refine ⟨subModules, dependencies, fun x => ?_, ?_, ?_, isRaw⟩
  · rw [h.tracks.conditional, h'.tracks.conditional, dependencies, records]
    simp only [Set.mem_ofPred_eq, perm'.mem_iff]
  · refine (List.perm_ext_iff_of_nodup h.nodup h'.nodup).2 fun g => ?_
    rw [h.exposedGlobals, h'.exposedGlobals, records]
  · rw [Bool.eq_iff_iff, h.requiresTopLevelScope, h'.requiresTopLevelScope, records]

end ModuleInfo

namespace Resolved

/-- **The record of a bundle is gathered in no order.** Let each raw or preloaded module of a
resolved bundle have a dot in its last segment, and a record of its own name or of none. Then the
record of the bundle lists these modules in their order, its dependencies are what their records
mention and what is required, without itself and what it embeds, and a dependency is conditional
unless it is needed. It exposes what they expose, needs the global scope if one of them does, and is
raw if there is a raw module. So no order of sections and modules shows but in the order of what it
lists. -/
theorem record_gathers {d : Definition} {origin pool : Pool} {ignoreMissing : Bool} {r : Resolved}
    (resolved : (d.resolve origin ignoreMissing).Yields r)
    (named : ∀ module ∈ modulesIn [.raw, .preload] r.sections,
      '.' ∈ Name.file module ∧ pool.Names module) :
    ∃ info, (r.record pool).Yields info ∧
      info.Gathers pool r.definition.name (modulesIn [.raw, .preload] r.sections)
        (modulesIn [.require] r.sections) ∧
      (info.isRaw ↔ ∃ s ∈ r.sections, s.mode = .raw ∧ s.modules ≠ []) ∧
      ∀ r' : Resolved, r'.definition.name = r.definition.name →
        ResolvedSection.Rearranged r.sections r'.sections →
          ∃ info', (r'.record pool).Yields info' ∧ info.SameSets info' := by
  have distinct := ResolvedSection.modulesIn_nodup resolved
  obtain ⟨info, recorded⟩ := r.record_progress pool
  have gathers := record_gathered recorded distinct named
  have raw := record_isRaw recorded
  refine ⟨info, recorded, gathers, raw, fun r' same rearranged => ?_⟩
  have embedded := rearranged.modulesIn [.raw, .preload]
  obtain ⟨info', recorded'⟩ := r'.record_progress pool
  have gathers' := record_gathered recorded' (embedded.nodup_iff.1 distinct)
    fun module hm => named module (embedded.mem_iff.2 hm)
  rw [same] at gathers'
  refine ⟨info', recorded', gathers.sameSets gathers' embedded (rearranged.modulesIn _) ?_⟩
  have both : modulesIn [.raw] r.sections = [] ↔ modulesIn [.raw] r'.sections = [] := by
    rw [← List.perm_nil, ← List.perm_nil]
    exact ⟨(rearranged.modulesIn _).symm.trans, (rearranged.modulesIn _).trans⟩
  simp only [ResolvedSection.modulesIn_eq_nil_iff, List.mem_singleton] at both
  rw [Bool.eq_iff_iff, raw, record_isRaw recorded']
  simpa using not_congr both

end Resolved

/-! ### Modules that are required and embedded -/

namespace Vendored

theorem mem_both {module : String} (h : module ∈ modulesIn [.raw, .preload] bothResolved.sections) :
    module = "lib/mod2.js" ∧ pool.info module = .ok mod2 ∨
      module = "lib/mod4.js" ∧ pool.info module = .ok mod4 := by
  have modules : modulesIn [.raw, .preload] bothResolved.sections =
      ["lib/mod2.js", "lib/mod4.js"] := rfl
  rw [modules] at h
  rcases List.mem_cons.1 h with rfl | h
  · exact .inl ⟨rfl, rfl⟩
  · cases List.mem_singleton.1 h
    exact .inr ⟨rfl, rfl⟩

theorem both_named : ∀ module ∈ modulesIn [.raw, .preload] bothResolved.sections,
    '.' ∈ Name.file module ∧ pool.Names module := by
  intro module hm
  rcases mem_both hm with ⟨rfl, own⟩ | ⟨rfl, own⟩
  all_goals
    refine ⟨by decide +kernel, fun info found => .inl ?_⟩
    cases own.symm.trans found
    rfl

/-- What is embedded is no dependency, though it is required and both mention one another. -/
theorem both_gathered : ∃ info, (both.resolve pool true).Yields bothResolved ∧
    (∀ module ∈ modulesIn [.raw, .preload] bothResolved.sections,
      '.' ∈ Name.file module ∧ pool.Names module) ∧
    (bothResolved.record pool).Yields info ∧ info.subModules = ["lib/mod2.js", "lib/mod4.js"] ∧
    ∀ x ∈ info.dependencies, x = "lib/absent.js" := by
  obtain ⟨info, recorded, gathers, _⟩ := Resolved.record_gathers both_resolves both_named
  refine ⟨info, both_resolves, both_named, recorded, gathers.subModules, fun x hx => ?_⟩
  have mentioned2 : ∀ d ∈ mod2.dependencies.names, Name.resourceName d = "lib/mod4.js" := by
    decide +kernel
  have mentioned4 : ∀ d ∈ mod4.dependencies.names,
      Name.resourceName d = "lib/mod2.js" ∨ Name.resourceName d = "lib/absent.js" := by
    decide +kernel
  obtain ⟨mentions, other, _⟩ := (gathers.tracks.dependencies x).1 hx
  rw [gathers.subModules] at other
  have other : x ∉ ["lib/mod2.js", "lib/mod4.js"] := other
  rcases mentions with ⟨sub, ⟨module, hm, found⟩, d, hd, rfl⟩ | required
  · rcases mem_both hm with ⟨rfl, own⟩ | ⟨rfl, own⟩
    · cases own.symm.trans found
      simp [mentioned2 d hd] at other
    · cases own.symm.trans found
      rcases mentioned4 d hd with name | name
      · simp [name] at other
      · exact name
  · exact absurd required other

end Vendored

end Bundler
