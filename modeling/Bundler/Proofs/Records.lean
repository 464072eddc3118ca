import Bundler.Proofs.Accounting

/-!
# What the record of a bundle lists

The record of a bundle is gathered from the resolved sections, while its segments come from what is
embedded. `create_records` says how the two differ: the record lists the modules that have segments,
by their resource names, and the preloaded modules that could not be embedded.
-/

namespace Bundler

namespace ModuleInfo

variable {info sub : ModuleInfo} {name : String}

theorem addDependency_subModules (info : ModuleInfo) (dependency : String) (conditional : Bool) :
    (info.addDependency dependency conditional).subModules = info.subModules := by
  unfold addDependency
  split <;> rfl

theorem addGlobal_subModules (info : ModuleInfo) (name : String) :
    (info.addGlobal name).subModules = info.subModules := by
  unfold addGlobal
  split <;> rfl

theorem foldl_keeps {α β : Type} (field : ModuleInfo → β) {f : ModuleInfo → α → ModuleInfo}
    (each : ∀ info a, field (f info a) = field info) (info : ModuleInfo) (as : List α) :
    field (as.foldl f info) = field info := by
  induction as generalizing info with
  | nil => rfl
  | cons a rest ih => rw [List.foldl_cons, ih, each]

/-- What a sub-module depends on and exposes leaves the list alone. -/
theorem addSubModule_subModules (info sub : ModuleInfo) :
    (info.addSubModule sub).subModules =
      if Name.resourceName sub.name ∈ info.subModules then info.subModules
      else info.subModules ++ [Name.resourceName sub.name] := by
  unfold addSubModule
  dsimp only
  split
  · rfl
  · rw [foldl_keeps (·.subModules) addGlobal_subModules, foldl_keeps (·.subModules)]
    · rfl
    · intro info d
      exact addDependency_subModules info _ _

theorem mem_addSubModule : name ∈ (info.addSubModule sub).subModules ↔
    name ∈ info.subModules ∨ Name.resourceName sub.name = name := by
  rw [addSubModule_subModules]
  split
  · rename_i held
    simp only [iff_self_or]
    rintro rfl
    exact held
  · simp [eq_comm]

end ModuleInfo

/-! ## The record -/

/-- The record has the name of its module, or none. -/
def Pool.Names (p : Pool) (module : String) : Prop :=
  ∀ info, p.info module = .ok info → info.name = module ∨ info.name = ""

/-- The records of a pool carry the names of their modules. -/
def Pool.Named (p : Pool) : Prop := ∀ module info, p.info module = .ok info → info.name = module

/-- The record of a resource carries its name. -/
def MemoryPool.Named (p : MemoryPool) : Prop :=
  ∀ r ∈ p.resources, ∀ info, r.info = some info → info.name = r.name

theorem MemoryPool.Named.toPool {p : MemoryPool} (named : p.Named) : p.toPool.Named := by
  intro module info h
  change Pool.recordOf module (Pool.describe module (Pool.findIn p.resources module)) = _ at h
  unfold Pool.findIn at h
  split at h
  · rename_i r found
    have name : r.name = module := by simpa using List.find?_some found
    cases record : r.info with
    | none =>
      simp only [Pool.recordOf, Pool.describe, Except.map, record] at h
      cases h
      rfl
    | some own =>
      simp only [Pool.recordOf, Pool.describe, Except.map, record] at h
      cases h
      exact (named r (List.mem_of_find?_eq_some found) _ record).trans name
  · cases h

namespace Resolved

variable {pool : Pool} {info info' : ModuleInfo} {name : String}

theorem embeddedRecord_named {module : String} (named : pool.Names module)
    (h : (embeddedRecord pool module).Yields info) : info.name = module := by
  unfold embeddedRecord at h
  split at h
  · rename_i own found
    rw [Run.pure_yields] at h
    subst h
    split
    · rfl
    · rename_i filled
      exact (named own found).resolve_right fun empty => filled (by rw [empty]; rfl)
  · rw [Run.log1_bind_yields] at h
    cases Run.pure_yields.1 h
    rfl

theorem embedAll_subModules (named : pool.Named) {modules : List String}
    (h : (embedAll pool info modules).Yields info') :
    name ∈ info'.subModules ↔
      name ∈ info.subModules ∨ ∃ module ∈ modules, Name.resourceName module = name := by
  refine Run.foldlM_invariant (P := fun done mid => name ∈ mid.subModules ↔
    name ∈ info.subModules ∨ ∃ module ∈ done, Name.resourceName module = name) ?step ?start h
  case start => simp
  case step =>
    intro done module _ before after mem step
    obtain ⟨sub, record, last⟩ := Run.bind_yields.1 step
    cases Run.pure_yields.1 last
    have own := embeddedRecord_named (fun own found => .inl (named module own found)) record
    rw [ModuleInfo.mem_addSubModule, mem, own]
    simp only [List.mem_append, List.mem_singleton, or_and_right, exists_or, exists_eq_left,
      or_assoc]

/-- A section whose modules are to be embedded adds all of them. -/
theorem recordSection_subModules (named : pool.Named) {s : ResolvedSection}
    (h : (recordSection pool info s).Yields info') :
    name ∈ info'.subModules ↔ name ∈ info.subModules ∨
      (s.mode = .raw ∨ s.mode = .preload) ∧ ∃ module ∈ s.modules, Name.resourceName module = name
    := by
  unfold recordSection at h
  cases mode : s.mode <;> rw [mode] at h <;> dsimp only at h
  case provided | bundleInfo =>
    cases Run.pure_yields.1 h
    simp
  case require =>
    cases Run.pure_yields.1 h
    have kept := ModuleInfo.foldl_keeps (·.subModules)
      (fun info module => info.addDependency_subModules module false) info s.modules
    rw [kept]
    simp
  case raw =>
    have added := @embedAll_subModules _ _ _ name named _ h
    simpa using added
  case preload =>
    have added := @embedAll_subModules _ _ _ name named _ h
    simpa using added

theorem record_subModules {r : Resolved} (named : pool.Named) (h : (r.record pool).Yields info) :
    name ∈ info.subModules ↔ ∃ s ∈ r.sections, (s.mode = .raw ∨ s.mode = .preload) ∧
      ∃ module ∈ s.modules, Name.resourceName module = name := by
  refine Run.foldlM_invariant (P := fun done mid => name ∈ mid.subModules ↔
    ∃ s ∈ done, (s.mode = .raw ∨ s.mode = .preload) ∧
      ∃ module ∈ s.modules, Name.resourceName module = name) ?step ?start h
  case start => simp
  case step =>
    intro done s _ before after mem step
    rw [recordSection_subModules named step, mem]
    simp only [List.mem_append, List.mem_singleton, or_and_right, exists_or, exists_eq_left]

end Resolved

/-! ## The record beside the segments -/

theorem ResourceKind.dotted {name : String} (known : ofName name ≠ .unknown) :
    '.' ∈ Name.file name := by
  by_contra plain
  apply known
  unfold ofName
  simp [plain]

namespace ResolvedSection

/-- A preloaded module of an unknown kind is left out. -/
structure Skips (s : ResolvedSection) (module : String) : Prop where
  preload : s.mode = .preload
  mem : module ∈ s.modules
  unknown : ResourceKind.ofName module = .unknown

theorem embedded_or_skips {s : ResolvedSection} {module : String} :
    module ∈ s.embedded ∨ s.Skips module ↔
      (s.mode = .raw ∨ s.mode = .preload) ∧ module ∈ s.modules := by
  rw [mem_embedded]
  constructor
  · rintro (⟨hm, mode⟩ | skips)
    · exact ⟨mode.imp_right And.left, hm⟩
    · exact ⟨.inr skips.preload, skips.mem⟩
  · rintro ⟨raw | preload, hm⟩
    · exact .inl ⟨hm, .inl raw⟩
    · by_cases unknown : ResourceKind.ofName module = .unknown
      · exact .inr ⟨preload, hm, unknown⟩
      · exact .inl ⟨hm, .inr ⟨preload, unknown⟩⟩

end ResolvedSection

namespace Builder

variable {b : Builder} {options : Options} {d : Definition}

/-- **The record of a bundle lists what the bundle has.** If a definition is built in one bundle
from a pool in memory whose records carry the names of their resources, the record lists the
resource names of the modules that have segments, and those of the preloaded modules that are left
out because their kind is unknown. So where none is left out and every raw module has a dot in its
last segment, it lists just the modules that have segments. -/
theorem create_records {p : MemoryPool} {bundles : List Bundle} (memory : b.pool = p.toPool)
    (named : p.Named) (one : options.numberOfParts ≤ 1)
    (h : (b.create options d).Yields bundles) :
    ∃ bundle r, bundles = [bundle] ∧ (d.resolve b.pool options.ignoreMissing).Yields r ∧
      (∀ name, name ∈ bundle.record.subModules ↔ ∃ module, Name.resourceName module = name ∧
        (module ∈ bundle.modules ∨ ∃ t ∈ r.sections, t.Skips module)) ∧
      ((∀ t ∈ r.sections, (∀ module, ¬t.Skips module) ∧
          (t.mode = .raw → ∀ module ∈ t.modules, '.' ∈ Name.file module)) →
        ∀ name, name ∈ bundle.record.subModules ↔ name ∈ bundle.modules) := by
  obtain ⟨bundle, built, rfl⟩ := create_yields_one one h
  obtain ⟨r, resolved, _, _, w, _, info, recorded, same⟩ := build_yields.1 built
  have segments := build_modules memory built resolved
  have named : b.pool.Named := memory ▸ named.toPool
  have lists (name : String) : name ∈ bundle.record.subModules ↔
      ∃ s ∈ r.sections, (s.mode = .raw ∨ s.mode = .preload) ∧
        ∃ module ∈ s.modules, Name.resourceName module = name := by
    rw [same]
    change name ∈ info.subModules ↔ _
    exact Resolved.record_subModules named recorded
  have exactly (name : String) : name ∈ bundle.record.subModules ↔
      ∃ module, Name.resourceName module = name ∧
        (module ∈ bundle.modules ∨ ∃ t ∈ r.sections, t.Skips module) := by
    rw [lists]
    constructor
    · rintro ⟨s, hs, mode, module, hm, rfl⟩
      refine ⟨module, rfl, ?_⟩
      rw [segments]
      rcases ResolvedSection.embedded_or_skips.2 ⟨mode, hm⟩ with embedded | skips
      · exact .inl ⟨s, hs, embedded⟩
      · exact .inr ⟨s, hs, skips⟩
    · rintro ⟨module, rfl, has⟩
      rw [segments, ← exists_or] at has
      obtain ⟨s, has⟩ := has
      rw [← and_or_left, ResolvedSection.embedded_or_skips] at has
      obtain ⟨hs, mode, hm⟩ := has
      exact ⟨s, hs, mode, module, hm, rfl⟩
  refine ⟨bundle, r, rfl, resolved, exactly, ?_⟩
  intro clear name
  have own : ∀ module ∈ bundle.modules, Name.resourceName module = module := by
    intro module hm
    obtain ⟨t, ht, embedded⟩ := (segments module).1 hm
    obtain ⟨hm, mode⟩ := ResolvedSection.mem_embedded.1 embedded
    have dotted : '.' ∈ Name.file module := by
      rcases mode with raw | ⟨_, known⟩
      · exact (clear t ht).2 raw module hm
      · exact ResourceKind.dotted known
    simp [Name.resourceName, dotted]
  rw [exactly]
  constructor
  · rintro ⟨module, rfl, hm | ⟨t, ht, skips⟩⟩
    · rwa [own module hm]
    · exact absurd skips ((clear t ht).1 module)
  · intro hm
    exact ⟨name, own name hm, .inl hm⟩

end Builder

namespace Pictured

theorem memory_named : memory.Named := by
  intro r hr info record
  have names : ∀ r ∈ memory.resources, r.info.map (·.name) = some r.name := by decide +kernel
  have name := names r hr
  rw [record] at name
  exact Option.some.inj name

theorem skips_iff {module : String} :
    (∃ t ∈ resolved.sections, t.Skips module) ↔ module = "lib/logo.png" := by
  constructor
  · rintro ⟨t, ht, preload, hm, unknown⟩
    have only : ∀ t ∈ resolved.sections, t.mode = .preload → ∀ module ∈ t.modules,
        ResourceKind.ofName module = .unknown → module = "lib/logo.png" := by
      decide +kernel
    exact only t ht preload module hm unknown
  · rintro rfl
    exact ⟨⟨views, ["lib/view.xml", "lib/logo.png"]⟩, by decide, rfl, by decide, by decide +kernel⟩

theorem picture_records : memory.Named ∧ ∃ bundle,
    (builder.create {} definition).Yields [bundle] ∧
    ∀ name, name ∈ bundle.record.subModules ↔ ∃ module, Name.resourceName module = name ∧
      (module ∈ bundle.modules ∨ module = "lib/logo.png") := by
  obtain ⟨bundles, h⟩ := creates
  obtain ⟨bundle, r, rfl, again, lists, _⟩ :=
    Builder.create_records (p := memory) rfl memory_named (Nat.le_refl 1) h
  cases resolves.unique again
  simp only [skips_iff] at lists
  exact ⟨memory_named, bundle, h, lists⟩

/-- The bundle announces the picture, which it does not have. -/
theorem picture_announced : memory.Named ∧ ∃ bundle,
    (Builder.ofPool memory.toPool none >>= fun b => b.create {} definition).Yields [bundle] ∧
    "lib/logo.png" ∈ bundle.record.subModules ∧ "lib/logo.png" ∉ bundle.modules := by
  obtain ⟨bundles, h⟩ := creates
  obtain ⟨bundle, built, rfl⟩ := Builder.create_yields_one (Nat.le_refl 1) h
  obtain ⟨r, again, _, _, _, _, info, recorded, same⟩ := Builder.build_yields.1 built
  cases resolves.unique again
  refine ⟨memory_named, bundle, ?created, ?listed, ?absent⟩
  case created => exact Run.bind_yields.2 ⟨builder, rfl, h⟩
  case listed =>
    rw [same]
    change _ ∈ info.subModules
    rw [Resolved.record_subModules memory_named.toPool recorded]
    exact ⟨⟨views, ["lib/view.xml", "lib/logo.png"]⟩, by decide, .inr rfl, "lib/logo.png",
      by decide, by decide +kernel⟩
  case absent =>
    rw [Builder.build_modules rfl built resolves]
    decide +kernel

end Pictured

end Bundler
