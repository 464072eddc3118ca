import Bundler.Proofs.Runs
import Bundler.Graph
import Mathlib.Data.List.Nodup
import Mathlib.Tactic.Tauto

/-!
# Load order

`ModuleGraph.Lays` says what a layout is without counting anything: each sorted module depends on
nothing that comes with or after it, and each one left over depends on another one left over.

* `layoutOf_lays`: taking out the first free module again and again gives such a layout, because the
  counts always tell how many dependencies are still pending (`Consistent`);
* `layoutOf_eq_of_lays`: a list that is such a layout already comes out as it is;
* `loadOrder_idempotent`: so putting modules into load order twice is the same as once.
-/

namespace Bundler.ModuleGraph

def DependsOn (g : ModuleGraph) (dependent dependency : String) : Prop :=
  ⟨dependent, dependency⟩ ∈ g.dependencies

/-- What is sorted depends on nothing that comes with or after it. What is left over depends on
something that is left over too. -/
inductive Lays (g : ModuleGraph) : Layout → Prop
  | stuck {cyclic : List String} (blocked : ∀ a ∈ cyclic, ∃ b ∈ cyclic, g.DependsOn a b) :
      Lays g ⟨[], cyclic⟩
  | next {a : String} {l : Layout} (free : ∀ b ∈ a :: l.modules, ¬g.DependsOn a b)
      (rest : Lays g l) : Lays g ⟨a :: l.sorted, l.cyclic⟩

theorem Lays.congr {g g' : ModuleGraph} (same : ∀ a b, g.DependsOn a b ↔ g'.DependsOn a b)
    {l : Layout} (h : g.Lays l) : g'.Lays l := by
  induction h with
  | stuck blocked =>
    refine .stuck fun a ha => ?_
    obtain ⟨b, hb, hab⟩ := blocked a ha
    exact ⟨b, hb, (same a b).1 hab⟩
  | next free _ ih => exact .next (fun b hb hab => free b hb ((same _ b).2 hab)) ih

/-! ## Counting what is pending -/

/-- The number beside each pending module is that of its pending dependencies. -/
structure Consistent (g : ModuleGraph) (ps : List Pending) : Prop where
  nodup : (ps.map (·.module)).Nodup
  count : ∀ p ∈ ps, p.missing =
    g.dependencies.countP fun d => d.dependent = p.module ∧ d.dependency ∈ ps.map (·.module)

@[simp]
theorem Pending.settle_module (ds : List String) (p : Pending) :
    (p.settle ds).module = p.module := by
  unfold settle
  split <;> rfl

theorem map_settle_module (ds : List String) (ps : List Pending) :
    (ps.map (Pending.settle ds)).map (·.module) = ps.map (·.module) := by
  rw [List.map_map]
  exact List.map_congr_left fun p _ => p.settle_module ds

theorem mem_dependents {g : ModuleGraph} {a b : String} :
    a ∈ g.dependents b ↔ g.DependsOn a b := by
  simp only [dependents, List.mem_filterMap, DependsOn]
  constructor
  · rintro ⟨⟨dependent, dependency⟩, hd, h⟩
    split at h
    · rename_i same
      cases h
      cases same
      exact hd
    · cases h
  · intro h
    exact ⟨_, h, by simp⟩

theorem pending_modules (g : ModuleGraph) : g.pending.map (·.module) = g.modules.names := by
  simp [pending, Function.comp_def]

theorem pending_consistent (g : ModuleGraph) : g.Consistent g.pending := by
  refine ⟨g.pending_modules ▸ g.modules.nodup, fun p hp => ?_⟩
  obtain ⟨name, _, rfl⟩ := List.mem_map.1 hp
  rw [pending_modules]
  apply List.countP_congr
  intro d hd
  have known : d.dependency ∈ g.modules.names := (g.known d hd).2
  simp [known]

/-- A module is free when none of its dependencies is pending. -/
theorem Consistent.isFree_iff {g : ModuleGraph} {ps : List Pending} (h : g.Consistent ps)
    {p : Pending} (hp : p ∈ ps) :
    p.isFree ↔ ∀ b ∈ ps.map (·.module), ¬g.DependsOn p.module b := by
  simp only [Pending.isFree, beq_iff_eq, h.count p hp, List.countP_eq_zero, decide_eq_true_eq,
    not_and]
  constructor
  · intro none b hb hab
    exact none _ hab rfl hb
  · rintro free ⟨_, b⟩ hd rfl hb
    exact free b hb hd

theorem countP_taken (ds : List Dependency) (a b : String) {names : List String} (hb : b ∉ names) :
    (ds.countP fun d => d.dependent = a ∧ d.dependency ∈ b :: names) =
      (ds.countP fun d => d.dependent = a ∧ d.dependency ∈ names) + ds.count ⟨a, b⟩ := by
  induction ds with
  | nil => rfl
  | cons d rest ih =>
    obtain ⟨dependent, dependency⟩ := d
    rw [List.countP_cons, List.countP_cons, List.count_cons, ih]
    by_cases same : dependency = b
    · subst same
      by_cases of : dependent = a <;> simp [of, hb]
      omega
    · simp [same]
      omega

theorem perm_taken (before after : List Pending) (p : Pending) :
    ((before ++ p :: after).map (·.module)).Perm
      (p.module :: (before ++ after).map (·.module)) := by
  rw [List.map_append, List.map_append, List.map_cons]
  exact List.perm_middle

/-- Taking a free module out keeps the counts right. -/
theorem Consistent.settle {g : ModuleGraph} {before after : List Pending} {p : Pending}
    (h : g.Consistent (before ++ p :: after)) :
    g.Consistent ((before ++ after).map (Pending.settle (g.dependents p.module))) := by
  have perm := perm_taken before after p
  obtain ⟨taken, nodup⟩ := List.nodup_cons.1 (perm.nodup_iff.1 h.nodup)
  refine ⟨by rwa [map_settle_module], fun q hq => ?_⟩
  rw [map_settle_module]
  obtain ⟨q, hq, rfl⟩ := List.mem_map.1 hq
  have hq' : q ∈ before ++ p :: after := by
    rw [List.mem_append, List.mem_cons] at *
    tauto
  have count : q.missing = (g.dependencies.countP fun d => d.dependent = q.module ∧
      d.dependency ∈ (before ++ after).map (·.module)) +
        g.dependencies.count ⟨q.module, p.module⟩ := by
    rw [h.count q hq', ← countP_taken _ _ _ taken]
    exact List.countP_congr fun d _ => by simp only [perm.mem_iff]
  have once : g.dependencies.count ⟨q.module, p.module⟩ =
      if q.module ∈ g.dependents p.module then 1 else 0 := by
    split
    · rename_i depends
      exact List.count_eq_one_of_mem g.nodup (mem_dependents.1 depends)
    · rename_i independent
      exact List.count_eq_zero.2 fun depends => independent (mem_dependents.2 depends)
  rw [Pending.settle_module, Pending.settle]
  split
  · rename_i depends
    rw [if_pos depends] at once
    dsimp only
    omega
  · rename_i independent
    rw [if_neg independent] at once
    omega

/-! ## Layouts -/

theorem layoutOf_none {g : ModuleGraph} {ps : List Pending}
    (h : ∀ p ∈ ps, ¬p.isFree) : g.layoutOf ps = ⟨[], ps.map (·.module)⟩ := by
  rw [layoutOf]
  split
  · rfl
  · rename_i p found
    exact absurd (List.find?_some found) (h p (List.mem_of_find?_eq_some found))

theorem layoutOf_some {g : ModuleGraph} {before after : List Pending} {p : Pending}
    (blocked : ∀ q ∈ before, ¬q.isFree) (free : p.isFree) :
    g.layoutOf (before ++ p :: after) =
      let rest := g.layoutOf ((before ++ after).map (Pending.settle (g.dependents p.module)))
      ⟨p.module :: rest.sorted, rest.cyclic⟩ := by
  have found : (before ++ p :: after).find? Pending.isFree = some p :=
    List.find?_eq_some_iff_append.2 ⟨free, before, after, rfl, by simpa using blocked⟩
  rw [layoutOf]
  split
  · rename_i none
    cases none.symm.trans found
  · rename_i q some
    cases some.symm.trans found
    have erased : (before ++ p :: after).eraseP Pending.isFree = before ++ after := by
      rw [List.eraseP_append_right _ (by simpa using blocked), List.eraseP_cons_of_pos free]
    simp only [erased]

/-- Induction over the rounds of a layout: either no module is free, or the first free one is taken
out. -/
theorem layout_induction (g : ModuleGraph) {motive : List Pending → Prop}
    (stuck : ∀ ps, (∀ p ∈ ps, ¬p.isFree) → motive ps)
    (next : ∀ before p after, (∀ q ∈ before, ¬q.isFree) → p.isFree →
      motive ((before ++ after).map (Pending.settle (g.dependents p.module))) →
      motive (before ++ p :: after)) (ps : List Pending) : motive ps := by
  generalize length : ps.length = n
  induction n using Nat.strongRecOn generalizing ps with
  | ind n ih =>
    cases found : ps.find? Pending.isFree with
    | none => exact stuck ps fun p hp => List.find?_eq_none.1 found p hp
    | some p =>
      obtain ⟨free, before, after, rfl, blocked⟩ := List.find?_eq_some_iff_append.1 found
      refine next before p after (by simpa using blocked) free (ih _ ?_ _ rfl)
      simp only [List.length_append, List.length_cons, List.length_map] at length ⊢
      omega

theorem layoutOf_perm (g : ModuleGraph) (ps : List Pending) :
    (g.layoutOf ps).modules.Perm (ps.map (·.module)) := by
  induction ps using g.layout_induction with
  | stuck ps blocked =>
    rw [layoutOf_none blocked]
    exact .refl _
  | next before p after blocked free ih =>
    rw [layoutOf_some blocked free]
    rw [map_settle_module] at ih
    exact (ih.cons p.module).trans (perm_taken before after p).symm

theorem layoutOf_lays {g : ModuleGraph} {ps : List Pending} (h : g.Consistent ps) :
    g.Lays (g.layoutOf ps) := by
  induction ps using g.layout_induction with
  | stuck ps blocked =>
    rw [layoutOf_none blocked]
    refine .stuck fun a ha => ?_
    obtain ⟨p, hp, rfl⟩ := List.mem_map.1 ha
    by_contra independent
    exact blocked p hp ((h.isFree_iff hp).2 fun b hb depends => independent ⟨b, hb, depends⟩)
  | next before p after blocked free ih =>
    rw [layoutOf_some blocked free]
    refine .next (fun b hb => ?_) (ih h.settle)
    have hp : p ∈ before ++ p :: after := List.mem_append_right _ List.mem_cons_self
    refine (h.isFree_iff hp).1 free b ((perm_taken before after p).mem_iff.2 ?_)
    rw [← map_settle_module (g.dependents p.module)]
    exact ((layoutOf_perm g _).cons p.module).mem_iff.1 hb

theorem layoutOf_eq_of_lays {g : ModuleGraph} {l : Layout} (lays : g.Lays l) {ps : List Pending}
    (h : g.Consistent ps) (modules : ps.map (·.module) = l.modules) : g.layoutOf ps = l := by
  induction lays generalizing ps with
  | @stuck cyclic blocked =>
    change _ = cyclic at modules
    rw [layoutOf_none, modules]
    intro p hp free
    obtain ⟨b, hb, depends⟩ := blocked p.module (modules ▸ List.mem_map_of_mem hp)
    exact (h.isFree_iff hp).1 free b (modules ▸ hb) depends
  | @next a l free rest ih =>
    change _ = a :: l.modules at modules
    obtain ⟨p, ps, rfl, rfl, tail⟩ := List.map_eq_cons_iff.1 modules
    have isFree : p.isFree := (h.isFree_iff List.mem_cons_self).2 (modules ▸ free)
    have start : g.Consistent ([] ++ p :: ps) := h
    have taken : g.layoutOf ([] ++ p :: ps) = _ := layoutOf_some (by simp) isFree
    rw [ih start.settle (by rwa [map_settle_module])] at taken
    exact taken

theorem layout_perm (g : ModuleGraph) : g.layout.modules.Perm g.modules.names :=
  g.pending_modules ▸ layoutOf_perm g g.pending

theorem loadOrder_yields {g : ModuleGraph} {order : List String} :
    g.loadOrder.Yields order ↔ g.layout.modules = order := by
  unfold loadOrder
  split
  · rw [Run.log1_bind_yields, Run.pure_yields]
  · exact Run.pure_yields

/-! ## Graphs over a pool -/

theorem addDependency_modules (g : ModuleGraph) (a b : String) :
    (g.addDependency a b).modules = g.modules := by
  unfold addDependency
  split <;> rfl

theorem addDependency_dependsOn {g : ModuleGraph} {a b x y : String} :
    (g.addDependency a b).DependsOn x y ↔
      g.DependsOn x y ∨ (x = a ∧ y = b) ∧ a ≠ b ∧ a ∈ g.modules ∧ b ∈ g.modules := by
  unfold addDependency
  split
  · rename_i admits
    have cons : (g.insert ⟨a, b⟩ admits).DependsOn x y ↔
        (⟨x, y⟩ : Dependency) = ⟨a, b⟩ ∨ g.DependsOn x y := List.mem_cons
    obtain ⟨differ, ha, hb, _⟩ := admits
    rw [cons, Dependency.mk.injEq, or_comm]
    tauto
  · rename_i refused
    constructor
    · exact .inl
    · rintro (h | ⟨⟨rfl, rfl⟩, differ, hx, hy⟩)
      · exact h
      · by_contra new
        exact refused ⟨differ, hx, hy, new⟩

/-- What a module is recorded to depend on, as a resource. -/
def Recorded (pool : Pool) (a b : String) : Prop :=
  ∃ info, pool.info a = .ok info ∧ ∃ d ∈ info.dependencies.names, Name.resourceName d = b

/-- The record of a module can be had, or there is none. -/
def Describable (pool : Pool) (name : String) : Prop :=
  ∀ e, pool.info name = .error e → ∃ missing, e = .notFound missing

/-- The graph with what a module is recorded to depend on; nothing is added for one without a
record. -/
def described (pool : Pool) (g : ModuleGraph) (name : String) : ModuleGraph :=
  match pool.info name with
  | .ok info => info.dependencies.names.foldl
      (fun g d => g.addDependency name (Name.resourceName d)) g
  | .error _ => g

theorem addRecorded_yields {pool : Pool} {g g' : ModuleGraph} {name : String} :
    (addRecorded pool g name).Yields g' ↔ Describable pool name ∧ described pool g name = g' := by
  unfold addRecorded Describable described
  cases found : pool.info name with
  | ok info => simp
  | error e =>
    cases e with
    | notFound missing => simp [Run.map_yields]
    | unreadable missing path => simp

theorem foldlM_addRecorded {pool : Pool} {names : List String} {g g' : ModuleGraph} :
    (names.foldlM (addRecorded pool) g).Yields g' ↔
      (∀ name ∈ names, Describable pool name) ∧ names.foldl (described pool) g = g' := by
  induction names generalizing g with
  | nil => simp
  | cons name rest ih =>
    rw [List.foldlM_cons, Run.bind_yields, List.forall_mem_cons, List.foldl_cons, and_assoc]
    constructor
    · rintro ⟨_, first, others⟩
      obtain ⟨describable, rfl⟩ := addRecorded_yields.1 first
      exact ⟨describable, ih.1 others⟩
    · rintro ⟨describable, others⟩
      exact ⟨_, addRecorded_yields.2 ⟨describable, rfl⟩, ih.2 others⟩

/-- The graph of some modules can be had if each of their records can. -/
theorem ofPool_yields {pool : Pool} {names : List String} {g : ModuleGraph} :
    (ofPool pool names).Yields g ↔ (∀ name ∈ names, Describable pool name) ∧
      names.foldl (described pool) (names.foldl addModule empty) = g :=
  foldlM_addRecorded

/-! ### Which dependencies are recorded -/

theorem foldl_addModule {names : List String} {g : ModuleGraph}
    (nodup : (g.modules.names ++ names).Nodup) :
    (names.foldl addModule g).modules.names = g.modules.names ++ names ∧
      (names.foldl addModule g).dependencies = g.dependencies := by
  induction names generalizing g with
  | nil => exact ⟨(List.append_nil _).symm, rfl⟩
  | cons name rest ih =>
    have fresh : name ∉ g.modules.names := fun h =>
      (List.nodup_append.1 nodup).2.2 name h name List.mem_cons_self rfl
    have added : (g.addModule name).modules.names = g.modules.names ++ [name] := by
      simp [addModule, NameSet.insert, fresh]
    rw [List.append_cons, ← added] at nodup
    obtain ⟨modules, dependencies⟩ := ih nodup
    refine ⟨?_, dependencies⟩
    rw [List.foldl_cons, modules, added, List.append_assoc]
    rfl

theorem foldl_addDependency (g : ModuleGraph) (a : String) (ds : List String) :
    (ds.foldl (fun g d => g.addDependency a (Name.resourceName d)) g).modules = g.modules ∧
      ∀ x y, (ds.foldl (fun g d => g.addDependency a (Name.resourceName d)) g).DependsOn x y ↔
        g.DependsOn x y ∨ x = a ∧ a ≠ y ∧ a ∈ g.modules ∧ y ∈ g.modules ∧
          ∃ d ∈ ds, Name.resourceName d = y := by
  induction ds generalizing g with
  | nil => simp
  | cons d rest ih =>
    obtain ⟨modules, dependsOn⟩ := ih (g.addDependency a (Name.resourceName d))
    rw [addDependency_modules] at modules dependsOn
    refine ⟨modules, fun x y => ?_⟩
    rw [List.foldl_cons, dependsOn, addDependency_dependsOn]
    constructor
    · rintro ((h | ⟨⟨rfl, rfl⟩, differ, hx, hy⟩) | ⟨rfl, differ, hx, hy, d', hd', rfl⟩)
      · exact .inl h
      · exact .inr ⟨rfl, differ, hx, hy, d, List.mem_cons_self, rfl⟩
      · exact .inr ⟨rfl, differ, hx, hy, d', List.mem_cons_of_mem _ hd', rfl⟩
    · rintro (h | ⟨rfl, differ, hx, hy, d', hd', rfl⟩)
      · exact .inl (.inl h)
      · rcases List.mem_cons.1 hd' with rfl | hd'
        · exact .inl (.inr ⟨⟨rfl, rfl⟩, differ, hx, hy⟩)
        · exact .inr ⟨rfl, differ, hx, hy, d', hd', rfl⟩

theorem described_spec (pool : Pool) (g : ModuleGraph) (name : String) :
    (described pool g name).modules = g.modules ∧
      ∀ x y, (described pool g name).DependsOn x y ↔
        g.DependsOn x y ∨ x = name ∧ x ≠ y ∧ x ∈ g.modules ∧ y ∈ g.modules ∧ Recorded pool x y := by
  unfold described
  cases found : pool.info name with
  | ok info =>
    obtain ⟨modules, dependsOn⟩ := foldl_addDependency g name info.dependencies.names
    refine ⟨modules, fun x y => (dependsOn x y).trans (or_congr_right ?_)⟩
    apply and_congr_right
    rintro rfl
    simp [Recorded, found]
  | error e =>
    refine ⟨rfl, fun x y => (or_iff_left ?_).symm⟩
    rintro ⟨rfl, _, _, _, info, found', _⟩
    cases found.symm.trans found'

theorem foldl_described (pool : Pool) (g : ModuleGraph) (names : List String) :
    (names.foldl (described pool) g).modules = g.modules ∧
      ∀ x y, (names.foldl (described pool) g).DependsOn x y ↔
        g.DependsOn x y ∨
          x ∈ names ∧ x ≠ y ∧ x ∈ g.modules ∧ y ∈ g.modules ∧ Recorded pool x y := by
  induction names generalizing g with
  | nil => simp
  | cons name rest ih =>
    obtain ⟨modules, dependsOn⟩ := described_spec pool g name
    obtain ⟨modules', dependsOn'⟩ := ih (described pool g name)
    rw [modules] at modules' dependsOn'
    refine ⟨modules', fun x y => ?_⟩
    rw [List.foldl_cons, dependsOn', dependsOn, List.mem_cons]
    tauto

/-- The graph of some modules has these in their order, with the dependencies that the pool records
between two of them. -/
theorem ofPool_spec {pool : Pool} {names : List String} {g : ModuleGraph} (nodup : names.Nodup)
    (h : (ofPool pool names).Yields g) :
    g.modules.names = names ∧
      ∀ x y, g.DependsOn x y ↔ x ≠ y ∧ x ∈ names ∧ y ∈ names ∧ Recorded pool x y := by
  obtain ⟨_, rfl⟩ := ofPool_yields.1 h
  have start : (empty.modules.names ++ names).Nodup := nodup
  obtain ⟨modules, dependencies⟩ := foldl_addModule start
  obtain ⟨modules', dependsOn⟩ := foldl_described pool (names.foldl addModule empty) names
  have known (x : String) : x ∈ (names.foldl addModule empty).modules ↔ x ∈ names := by
    rw [← NameSet.mem_names, modules]
    exact Iff.rfl
  have none (x y : String) : ¬(names.foldl addModule empty).DependsOn x y := by
    rw [DependsOn, dependencies]
    exact List.not_mem_nil
  refine ⟨by rw [modules', modules]; rfl, fun x y => ?_⟩
  rw [dependsOn, known, known]
  have := none x y
  tauto

/-! ## The order of a pool's modules -/

/-- Putting modules into load order moves them and does nothing else. -/
theorem ofPool_order_perm {pool : Pool} {names : List String} {g : ModuleGraph}
    (nodup : names.Nodup) (h : (ofPool pool names).Yields g) : g.layout.modules.Perm names :=
  (ofPool_spec nodup h).1 ▸ g.layout_perm

/-- Modules that are in load order already stay as they are, those on cycles too. -/
theorem loadOrder_idempotent {pool : Pool} {names : List String} {g : ModuleGraph}
    (nodup : names.Nodup) (h : (ofPool pool names).Yields g) :
    ∃ g', (ofPool pool g.layout.modules).Yields g' ∧ g'.layout = g.layout := by
  have perm := ofPool_order_perm nodup h
  obtain ⟨_, dependsOn⟩ := ofPool_spec nodup h
  have describable : ∀ name ∈ g.layout.modules, Describable pool name :=
    fun name hn => (ofPool_yields.1 h).1 name (perm.mem_iff.1 hn)
  have again := ofPool_yields.2 ⟨describable, rfl⟩
  obtain ⟨modules', dependsOn'⟩ := ofPool_spec (perm.nodup_iff.2 nodup) again
  refine ⟨_, again, layoutOf_eq_of_lays ?_ (pending_consistent _) ?_⟩
  · apply (layoutOf_lays (pending_consistent g)).congr
    intro x y
    rw [dependsOn, dependsOn', perm.mem_iff, perm.mem_iff]
  · rw [pending_modules, modules']

end Bundler.ModuleGraph
