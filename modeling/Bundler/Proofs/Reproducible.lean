import Bundler.Proofs.Lenient
import Bundler.Proofs.PartBundles
import Mathlib.Data.List.Sort

/-!
# Bundles that can be reproduced

A pool that lists its resources in another order is searched in another order. Preload sections are
sorted before they are emitted, so that the order leaves no trace in a bundle that has nothing else:
`create_reproducible`.
-/

namespace Bundler

/-! ## The order of a pool -/

/-- The pools find the same, but may list it in another order. -/
structure Pool.Agrees (p p' : Pool) : Prop where
  names : ∀ name, name ∈ p.names ↔ name ∈ p'.names
  find : p.find = p'.find
  findWithInfo : p.findWithInfo = p'.findWithInfo
  contains : p.contains = p'.contains

theorem Pool.Agrees.sameModules {p p' : Pool} (agree : p.Agrees p') : p.SameModules p' := by
  constructor
  case names => exact agree.names
  case contains => simp [agree.contains]
  case records =>
    intro name
    unfold record?
    rw [agree.findWithInfo]
    split
    · exact .some ⟨fun _ => Iff.rfl, fun _ => Iff.rfl, fun _ => Iff.rfl⟩
    · exact .none

namespace Pool

variable {resources resources' : List Resource}

theorem find?_eq_some_iff_mem (distinct : (resources.map (·.name)).Nodup) {name : String}
    {r : Resource} :
    resources.find? (fun r => r.name = name) = some r ↔ r ∈ resources ∧ r.name = name := by
  constructor
  · intro found
    exact ⟨List.mem_of_find?_eq_some found, by simpa using List.find?_some found⟩
  · rintro ⟨hr, rfl⟩
    induction resources with
    | nil => cases hr
    | cons first rest ih =>
      rw [List.map_cons, List.nodup_cons] at distinct
      obtain ⟨fresh, distinct⟩ := distinct
      rcases List.mem_cons.1 hr with rfl | hr
      · exact List.find?_cons_of_pos (by simp)
      · have other : first.name ≠ r.name := by
          intro same
          exact fresh (same ▸ List.mem_map_of_mem hr)
        rw [List.find?_cons_of_neg (by simpa using other)]
        exact ih distinct hr

theorem findIn_perm (perm : resources.Perm resources')
    (distinct : (resources.map (·.name)).Nodup) : findIn resources = findIn resources' := by
  have distinct' : (resources'.map (·.name)).Nodup := (perm.map _).nodup_iff.1 distinct
  funext name
  have found : resources.find? (fun r => r.name = name) =
      resources'.find? fun r => r.name = name := by
    ext r
    rw [find?_eq_some_iff_mem distinct, find?_eq_some_iff_mem distinct', perm.mem_iff]
  unfold findIn
  rw [found]

theorem ofResources_agrees (perm : resources.Perm resources')
    (distinct : (resources.map (·.name)).Nodup) :
    (ofResources resources).Agrees (ofResources resources') := by
  have found := findIn_perm perm distinct
  constructor
  case names => exact fun name => (perm.map _).mem_iff
  case find => exact found
  case findWithInfo => exact congrArg (fun find name => describe name (find name)) found
  case contains => exact congrArg (fun find name => (find name).isOk) found

end Pool

namespace MemoryPool

/-- The resource as a pool in memory keeps it. -/
def recorded (r : Resource) : Resource := { r with info := some (r.info.getD { name := r.name }) }

theorem replaceOrAppend_of_new {r : Resource} {resources : List Resource}
    (new : r.name ∉ resources.map (·.name)) : replaceOrAppend r resources = resources ++ [r] := by
  induction resources with
  | nil => rfl
  | cons s rest ih =>
    simp only [List.map_cons, List.mem_cons, not_or] at new
    rw [replaceOrAppend, if_neg (Ne.symm new.1), ih new.2]
    rfl

/-- Without two of a name, nothing is ever replaced. -/
theorem ofResources_distinct {resources : List Resource}
    (distinct : (resources.map (·.name)).Nodup) :
    (ofResources resources).resources = resources.map recorded := by
  induction resources using List.reverseRecOn with
  | nil => rfl
  | append_singleton before r ih =>
    rw [List.map_append, List.nodup_append] at distinct
    obtain ⟨distinct, _, disjoint⟩ := distinct
    have new : (recorded r).name ∉ (before.map recorded).map (·.name) := by
      rw [List.map_map]
      intro mem
      exact disjoint _ mem r.name (by simp) rfl
    have added : (ofResources (before ++ [r])).resources =
        replaceOrAppend (recorded r) (ofResources before).resources := by
      unfold ofResources
      rw [List.foldl_append]
      rfl
    rw [added, ih distinct, replaceOrAppend_of_new new, List.map_append]
    rfl

theorem toPool_agrees {resources resources' : List Resource} (perm : resources.Perm resources')
    (distinct : (resources.map (·.name)).Nodup) :
    (ofResources resources).toPool.Agrees (ofResources resources').toPool := by
  have distinct' : (resources'.map (·.name)).Nodup := (perm.map _).nodup_iff.1 distinct
  unfold toPool
  rw [ofResources_distinct distinct, ofResources_distinct distinct']
  apply Pool.ofResources_agrees (perm.map _)
  rwa [List.map_map]

end MemoryPool

/-! ## What is resolved in another order -/

/-- The same section with its modules in another order. -/
structure ResolvedSection.Reordered (s s' : ResolvedSection) : Prop where
  definition : s.definition = s'.definition
  modules : s.modules.Perm s'.modules

/-- The same definition with the modules of each section in another order. -/
structure Resolved.Reordered (r r' : Resolved) : Prop where
  definition : r.definition = r'.definition
  sections : List.Forall₂ ResolvedSection.Reordered r.sections r'.sections

theorem ResolvedSection.reordered {all all' : List ResolvedSection}
    (definitions : all.map (·.definition) = all'.map (·.definition))
    (modules : List.Forall₂ (fun s s' => s.modules.Perm s'.modules) all all') :
    List.Forall₂ Reordered all all' := by
  induction modules with
  | nil => exact .nil
  | cons perm _ ih =>
    simp only [List.map_cons, List.cons.injEq] at definitions
    exact .cons ⟨definitions.1, perm⟩ (ih definitions.2)

/-- Which patterns are none does not depend on the pool, and neither does what is selected. -/
theorem Definition.resolve_alike {pool pool' : Pool} (readable : pool.Readable)
    (readable' : pool'.Readable) (same : pool.SameModules pool') (d : Definition) :
    Run.Alike (fun r r' => r.sections.map (·.definition) = d.sections ∧ r.Reordered r')
      (d.resolve pool true) (d.resolve pool' true) := by
  apply Run.Alike.of_outcomes
  · intro fault
    rw [resolve_lenient_fails readable, resolve_lenient_fails readable']
  · intro r r' resolved resolved'
    obtain ⟨definition, w, all⟩ := resolve_yields.1 resolved
    obtain ⟨definition', w', all'⟩ := resolve_yields.1 resolved'
    have definitions := resolve_definitions resolved
    have definitions' := resolve_definitions resolved'
    have relisted : List.Forall₂ Section.Relisted d.sections d.sections :=
      List.forall₂_same.2 fun _ _ => .same
    have modules := ResolvedSection.ofSections_sameModules Walk.sound_empty Walk.sound_empty rfl
      same relisted all all'
    refine ⟨definitions, definition.trans definition'.symm, ?_⟩
    exact ResolvedSection.reordered (definitions.trans definitions'.symm) modules

namespace Resolved.Reordered

variable {r r' : Resolved}

theorem executes (h : r.Reordered r') : r.executes = r'.executes := by
  obtain ⟨_, sections⟩ := h
  funext module
  unfold Resolved.executes
  generalize r.sections = all at sections
  generalize r'.sections = all' at sections
  induction sections with
  | nil => rfl
  | @cons s s' _ _ first _ ih =>
    have mode : s.mode = s'.mode := congrArg Section.mode first.definition
    have executes : s.executes = s'.executes := by
      unfold ResolvedSection.executes
      rw [mode]
    rw [List.any_cons, List.any_cons, ih, executes, first.modules.contains_eq]

theorem decoration (h : r.Reordered r') (format : Format) (options : Options) :
    r.decoration format options = r'.decoration format options := by
  simp only [Resolved.decoration, boots, h.executes]

theorem opening (h : r.Reordered r') (d : Decoration) : r.opening d = r'.opening d := by
  simp only [Resolved.opening, h.definition]

theorem closing (h : r.Reordered r') (d : Decoration) : r.closing d = r'.closing d := by
  unfold Resolved.closing containsCore
  rw [h.executes]

end Resolved.Reordered

/-! ## What is planned from another pool -/

namespace Embedder

variable {e : Embedder} {pool : Pool}

/-- The same embedder over another pool. -/
def withPool (e : Embedder) (pool : Pool) : Embedder := { e with source := { e.source with pool } }

theorem predefine?_withPool (agree : e.source.pool.Agrees pool) :
    (e.withPool pool).predefine? = e.predefine? := by
  have found : (e.withPool pool).source.pool.find = e.source.pool.find := agree.find.symm
  funext module
  unfold predefine?
  rw [found]
  rfl

theorem entry?_withPool (agree : e.source.pool.Agrees pool) :
    Embedder.entry? (e.withPool pool) = e.entry? := by
  have found : (e.withPool pool).source.pool.findWithInfo = e.source.pool.findWithInfo :=
    agree.findWithInfo.symm
  funext module
  unfold entry?
  rw [found]
  rfl

end Embedder

/-- Names are sorted in one way. -/
theorem mergeSort_eq_of_perm {names names' : List String} (perm : names.Perm names') :
    names.mergeSort (fun a b => a ≤ b) = names'.mergeSort fun a b => a ≤ b := by
  have sorted (names : List String) : (names.mergeSort fun a b => a ≤ b).Pairwise (· ≤ ·) :=
    List.pairwise_mergeSort' (· ≤ ·) names
  apply List.Perm.eq_of_pairwise' (sorted names) (sorted names')
  exact ((List.mergeSort_perm ..).trans perm).trans (List.mergeSort_perm ..).symm

/-- The section is emitted sorted, if it is emitted at all. -/
def Mode.IsSorted (mode : Mode) : Prop := mode = .provided ∨ mode = .preload

namespace Plan

variable {e : Embedder} {pool : Pool} {s s' : ResolvedSection}

theorem preload_withPool (agree : e.source.pool.Agrees pool) (same : s.Reordered s') (p : Plan) :
    p.preload (e.withPool pool) s' = p.preload e s := by
  have sorted := mergeSort_eq_of_perm same.modules
  have name : s.name = s'.name := congrArg Section.name same.definition
  unfold preload
  rw [← sorted, ← name, Embedder.predefine?_withPool agree, Embedder.entry?_withPool agree]

theorem addSection_withPool (agree : e.source.pool.Agrees pool) (same : s.Reordered s')
    (sorted : s.mode.IsSorted) (p : Plan) :
    addSection (e.withPool pool) p s' = addSection e p s := by
  have mode : s.mode = s'.mode := congrArg Section.mode same.definition
  unfold addSection
  rw [← mode]
  rcases sorted with provided | preload
  · rw [provided]
  · rw [preload]
    exact preload_withPool agree same p

end Plan

theorem Resolved.Reordered.pieces {r r' : Resolved} {e : Embedder} {pool : Pool}
    (h : r.Reordered r') (agree : e.source.pool.Agrees pool)
    (sorted : ∀ s ∈ r.sections, s.mode.IsSorted) (d : Decoration) :
    r'.pieces (e.withPool pool) d = r.pieces e d := by
  have planned (p : Plan) : r'.sections.foldlM (Plan.addSection (e.withPool pool)) p =
      r.sections.foldlM (Plan.addSection e) p := by
    obtain ⟨_, sections⟩ := h
    generalize r.sections = all at sections sorted
    generalize r'.sections = all' at sections
    induction sections generalizing p with
    | nil => rfl
    | cons first _ ih =>
      have sorted := List.forall_mem_cons.1 sorted
      rw [List.foldlM_cons, List.foldlM_cons, Plan.addSection_withPool agree first sorted.1]
      exact bind_congr fun p => ih p sorted.2
  unfold Resolved.pieces
  rw [planned, h.opening, h.closing]

/-! ## Bundles -/

/-- The text of the bundles is the same, and so are the segments. Their records may differ. -/
structure Bundle.SameText (b b' : Bundle) : Prop where
  content : b.content = b'.content
  segments : b.segments = b'.segments

namespace Builder

variable {b : Builder} {options : Options} {d : Definition} {pool : Pool}

/-- A build ends alike from a pool that finds the same. -/
theorem build_alike (readable : b.pool.Readable) (readable' : pool.Readable)
    (agree : b.pool.Agrees pool) (lenient : options.ignoreMissing)
    (sorted : ∀ s ∈ d.sections, s.mode.IsSorted) :
    Run.Alike Bundle.SameText (b.build options d) ({ b with pool }.build options d) := by
  have resolves := d.resolve_alike readable readable' agree.sameModules
  unfold build
  rw [lenient]
  apply resolves.bind
  rintro r r' ⟨definitions, reordered⟩
  have sorted : ∀ s ∈ r.sections, s.mode.IsSorted := by
    intro s hs
    exact sorted s.definition (definitions ▸ List.mem_map_of_mem hs)
  have pieces := reordered.pieces (e := b.embedder options) agree sorted
  rw [← reordered.decoration]
  show Run.Alike _ _ (r'.pieces ((b.embedder options).withPool pool) _ >>= _)
  rw [pieces]
  apply (Run.Alike.refl _).bind
  rintro pieces _ rfl
  apply (Run.Alike.refl _).bind
  rintro w _ rfl
  have recorded : Run.Alike (fun _ _ => True) (r.record b.pool) (r'.record pool) := by
    obtain ⟨_, first⟩ := r.record_progress b.pool
    obtain ⟨_, second⟩ := r'.record_progress pool
    apply Run.Alike.of_outcomes
    · intro fault
      exact iff_of_false (first.not_fails fault) (second.not_fails fault)
    · exact fun _ _ _ _ => trivial
  apply recorded.bind
  intro _ _ _
  apply (Run.Alike.log1 _ _).bind
  intro _ _ _
  exact .value ⟨rfl, rfl⟩

theorem create_alike (readable : b.pool.Readable) (readable' : pool.Readable)
    (agree : b.pool.Agrees pool) (one : options.numberOfParts ≤ 1) (lenient : options.ignoreMissing)
    (sorted : ∀ s ∈ d.sections, s.mode.IsSorted) :
    Run.Alike (List.Forall₂ Bundle.SameText)
      (b.create options d) ({ b with pool }.create options d) := by
  unfold create
  rw [if_pos one, if_pos one]
  apply (build_alike readable readable' agree lenient sorted).bind
  intro bundle bundle' same
  exact .value (.cons same .nil)

/-- **Preload bundles can be reproduced.** If all sections of a definition are provided or preloaded
and the missing is ignored, the order in which resources of distinct names are added to a pool in
memory does not matter to a build in one bundle: it fails with the same fault, or the bundle has the
same text and the same segments. -/
theorem create_reproducible {resources resources' : List Resource}
    (perm : resources.Perm resources') (distinct : (resources.map (·.name)).Nodup)
    (sorted : ∀ s ∈ d.sections, s.mode = .provided ∨ s.mode = .preload)
    (one : options.numberOfParts ≤ 1) (lenient : options.ignoreMissing)
    (minifier : Option Minifier) :
    Run.Alike (List.Forall₂ Bundle.SameText)
      (ofPool (MemoryPool.ofResources resources).toPool minifier >>= (·.create options d))
      (ofPool (MemoryPool.ofResources resources').toPool minifier >>= (·.create options d)) := by
  have agree := MemoryPool.toPool_agrees perm distinct
  have readable := (MemoryPool.ofResources resources).readable
  have readable' := (MemoryPool.ofResources resources').readable
  generalize (MemoryPool.ofResources resources).toPool = pool at agree readable ⊢
  generalize (MemoryPool.ofResources resources').toPool = pool' at agree readable' ⊢
  have format : Format.ofPool pool' = .ofPool pool := by
    unfold Format.ofPool
    rw [agree.contains]
  simp only [ofPool, bind_assoc, pure_bind]
  apply (Run.Alike.log1 _ _).bind
  intro _ _ _
  rw [format]
  exact create_alike (b := ⟨pool, minifier, .ofPool pool⟩) readable readable' agree one lenient
    sorted

end Builder

/-! ### A page and its view in either order -/

namespace Viewed

def list : Resource := { name := "lib/List.view.xml", content := [60, 97, 47, 62] }

def page : Resource :=
  { name := "lib/Page.js", content := [59],
    info := some { name := "lib/Page.js", dependencies := .ofList ["lib/List.view.xml"] } }

def memory : MemoryPool := .ofResources [list, page]

def views : Section := { filters := ["lib/"], resolve := true }

def definition : Definition := { sections := [views] }

def search : Search := ⟨memory.toPool, true, views, [⟨true, .directory "lib/"⟩]⟩

def resolved : Resolved := ⟨definition, [⟨views, ["lib/List.view.xml", "lib/Page.js"]⟩]⟩

def builder : Builder := { pool := memory.toPool, format := .ofPool memory.toPool }

theorem walks : ∃ reached, search.Walks {} search.roots reached ∧
    reached.selected.names = ["lib/List.view.xml", "lib/Page.js"] := by
  have roots : search.roots = [⟨"lib/List.view.xml", [], false⟩, ⟨"lib/Page.js", [], false⟩] := by
    decide +kernel
  refine ⟨?reached, ?walk, ?selected⟩
  case walk =>
    rw [roots]
    have found : search.pool.record? "lib/List.view.xml" =
        some { name := "lib/List.view.xml" } := rfl
    refine .selected (by decide) (by decide +kernel) found (by decide +kernel) ?_
    refine .selected (by decide) (by decide +kernel) rfl (by decide +kernel) ?_
    refine .repeated (by decide) ?_
    exact .done
  case selected => rfl

theorem resolves : (definition.resolve memory.toPool true).Yields resolved := by
  obtain ⟨reached, walks, selected⟩ := walks
  have searched : views.search memory.toPool true = .ok search := rfl
  exact Definition.resolve_of_walks rfl searched (by decide) rfl walks selected

theorem creates : ∃ bundle, (builder.create {} definition).Yields [bundle] ∧
    bundle.modules.Perm ["lib/List.view.xml", "lib/Page.js"] := by
  obtain ⟨bundles, h⟩ : (builder.create {} definition).Succeeds :=
    Builder.create_progress (Nat.le_refl 1) (Builder.build_plain resolves rfl (by decide))
  obtain ⟨bundle, built, rfl⟩ := Builder.create_yields_one (Nat.le_refl 1) h
  have names : (resolved.sections.flatMap (builder.embedder {}).sectionTexts).map (·.1) =
      ["lib/List.view.xml", "lib/Page.js"] := by
    decide +kernel
  exact ⟨bundle, h, names ▸ Builder.build_names built resolves⟩

/-- A bundle of both modules is built, whichever of them comes first. -/
theorem reproduced :
    Run.Alike (List.Forall₂ Bundle.SameText)
      (Builder.ofPool (MemoryPool.ofResources [list, page]).toPool none >>=
        (·.create {} definition))
      (Builder.ofPool (MemoryPool.ofResources [page, list]).toPool none >>=
        (·.create {} definition)) ∧
    ∃ bundle, (Builder.ofPool (MemoryPool.ofResources [list, page]).toPool none >>=
        (·.create {} definition)).Yields [bundle] ∧
      bundle.modules.Perm ["lib/List.view.xml", "lib/Page.js"] := by
  have distinct : ([list, page].map (·.name)).Nodup := by decide
  have sorted : ∀ s ∈ definition.sections, s.mode = .provided ∨ s.mode = .preload := by decide
  refine ⟨?alike, ?built⟩
  case alike =>
    exact Builder.create_reproducible (.swap page list []) distinct sorted (Nat.le_refl 1) rfl none
  case built =>
    obtain ⟨bundle, created, modules⟩ := creates
    exact ⟨bundle, Run.bind_yields.2 ⟨builder, rfl, created⟩, modules⟩

end Viewed

end Bundler
