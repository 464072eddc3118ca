import Bundler.Proofs.LoadOrder
import Mathlib.Data.Set.Finite.List
import Mathlib.Order.WellFounded

/-!
# Dependencies come first

Which order modules are put into can be told from what was added to their graph, with no counting
and no rounds:

* `Caught`: a module is caught if it lies on a cycle or needs, directly or not, one that does. Just
  these are left over (`mem_cyclic`), in the order of addition;
* `loadOrder_least`: of all orders of the others in which dependencies come first, theirs is the one
  that keeps nearest to the order of addition;
* `loadOrder_precedes`: a dependency comes first unless it is caught and was added later.
-/

namespace Bundler

open Relation (ReflTransGen TransGen)

/-! ## Graphs by what was added to them -/

/-- What can be added to a graph of modules. -/
inductive Addition where
  | module (name : String)
  | dependency (dependent dependency : String)
  deriving DecidableEq

namespace Addition

def module? : Addition → Option String
  | .module name => some name
  | .dependency .. => none

/-- The added modules, each where it was added first. -/
def modules (as : List Addition) : List String := (as.filterMap module?).eraseDups

/-- A dependency is recorded if the two modules differ and both were added before. -/
def Depends (as : List Addition) (a b : String) : Prop :=
  a ≠ b ∧ ∃ before after, as = before ++ .dependency a b :: after ∧
    .module a ∈ before ∧ .module b ∈ before

theorem mem_modules {as : List Addition} {name : String} :
    name ∈ modules as ↔ .module name ∈ as := by
  rw [modules, List.mem_eraseDups, List.mem_filterMap]
  constructor
  · rintro ⟨a, ha, h⟩
    cases a <;> cases h
    exact ha
  · intro h
    exact ⟨_, h, rfl⟩

theorem eraseDups_concat (names : List String) (name : String) :
    (names ++ [name]).eraseDups =
      if name ∈ names then names.eraseDups else names.eraseDups ++ [name] := by
  rw [List.eraseDups_append]
  split
  · rename_i known
    simp [List.removeAll, known]
  · rename_i new
    simp [List.removeAll, new, List.eraseDups_cons]

theorem modules_concat (as : List Addition) (name : String) :
    modules (as ++ [.module name]) =
      if name ∈ modules as then modules as else modules as ++ [name] := by
  simp only [modules, List.mem_eraseDups, List.filterMap_append]
  exact eraseDups_concat _ name

theorem modules_concat_dependency (as : List Addition) (a b : String) :
    modules (as ++ [.dependency a b]) = modules as := by
  rw [modules, List.filterMap_append]
  exact congrArg List.eraseDups (List.append_nil _)

theorem mem_of_depends {as : List Addition} {a b : String} (h : Depends as a b) :
    .dependency a b ∈ as := by
  obtain ⟨_, before, after, rfl, _⟩ := h
  simp

theorem depends_concat {as : List Addition} {c : Addition} {a b : String} :
    Depends (as ++ [c]) a b ↔ Depends as a b ∨
      a ≠ b ∧ c = .dependency a b ∧ .module a ∈ as ∧ .module b ∈ as := by
  constructor
  · rintro ⟨differ, before, after, split, known⟩
    cases after using List.reverseRecOn with
    | nil =>
      obtain ⟨rfl, last⟩ := List.append_inj' split rfl
      exact .inr ⟨differ, (List.cons.inj last).1, known⟩
    | append_singleton after last =>
      rw [← List.cons_append, ← List.append_assoc] at split
      obtain ⟨rfl, _⟩ := List.append_inj' split rfl
      exact .inl ⟨differ, before, after, rfl, known⟩
  · rintro (⟨differ, before, after, rfl, known⟩ | ⟨differ, rfl, known⟩)
    · exact ⟨differ, before, after ++ [c], by simp, known⟩
    · exact ⟨differ, as, [], rfl, known⟩

end Addition

namespace ModuleGraph

def add (g : ModuleGraph) : Addition → ModuleGraph
  | .module name => g.addModule name
  | .dependency a b => g.addDependency a b

def ofAdditions (as : List Addition) : ModuleGraph := as.foldl add empty

theorem ofAdditions_concat (as : List Addition) (a : Addition) :
    ofAdditions (as ++ [a]) = (ofAdditions as).add a := List.foldl_append

theorem ofAdditions_modules (as : List Addition) :
    (ofAdditions as).modules.names = Addition.modules as := by
  induction as using List.reverseRecOn with
  | nil => rfl
  | append_singleton as a ih =>
    rw [ofAdditions_concat]
    cases a with
    | module name =>
      rw [Addition.modules_concat, ← ih]
      exact NameSet.insert_names _ name
    | dependency a b => rw [Addition.modules_concat_dependency, ← ih, add, addDependency_modules]

theorem mem_ofAdditions {as : List Addition} {name : String} :
    name ∈ (ofAdditions as).modules ↔ .module name ∈ as := by
  rw [← NameSet.mem_names, ofAdditions_modules, Addition.mem_modules]

theorem ofAdditions_dependsOn (as : List Addition) :
    (ofAdditions as).DependsOn = Addition.Depends as := by
  funext x y
  rw [eq_iff_iff]
  induction as using List.reverseRecOn with
  | nil =>
    refine iff_of_false List.not_mem_nil ?_
    rintro ⟨_, before, after, split, _⟩
    exact absurd split (by simp)
  | append_singleton as c ih =>
    rw [ofAdditions_concat, Addition.depends_concat, ← ih]
    cases c with
    | module name => exact (or_iff_left (by simp)).symm
    | dependency a b =>
      rw [add, addDependency_dependsOn, mem_ofAdditions, mem_ofAdditions]
      refine or_congr_right ⟨?_, ?_⟩
      · rintro ⟨⟨rfl, rfl⟩, differ, known⟩
        exact ⟨differ, rfl, known⟩
      · rintro ⟨differ, same, known⟩
        cases same
        exact ⟨⟨rfl, rfl⟩, differ, known⟩

end ModuleGraph

/-! ## Modules that cannot be ordered -/

/-- The module lies on a cycle or needs, directly or not, one that does. -/
def Caught (r : String → String → Prop) (a : String) : Prop :=
  ∃ b, ReflTransGen r a b ∧ TransGen r b b

section

variable {r : String → String → Prop} {names : List String} {a : String}

theorem mem_of_idxOf_lt {b : String} (h : names.idxOf b < names.idxOf a) : b ∈ names :=
  List.idxOf_lt_length_iff.1 (h.trans_le List.idxOf_le_length)

/-- Where everything needs something, a cycle cannot be avoided. -/
theorem caught_of_blocked (blocked : ∀ a ∈ names, ∃ b ∈ names, r a b) (ha : a ∈ names) :
    Caught r a := by
  by_contra free
  -- if none of the names that `a` reaches lies on a cycle, what is needed descends on them
  let reached : Set String := {x | x ∈ names ∧ ReflTransGen r a x}
  have : Finite reached := (List.finite_toSet names).subset fun _ hx => hx.1
  let below (x y : reached) : Prop := TransGen r y.1 x.1
  have irrefl : Std.Irrefl below := ⟨fun x cycle => free ⟨x.1, x.2.2, cycle⟩⟩
  have trans : IsTrans reached below := ⟨fun _ _ _ hxy hyz => hyz.trans hxy⟩
  have wf : WellFounded below := Finite.wellFounded_of_trans_of_irrefl below
  obtain ⟨m, _, least⟩ := wf.has_min Set.univ ⟨⟨a, ha, .refl⟩, trivial⟩
  obtain ⟨b, hb, needs⟩ := blocked m.1 m.2.1
  exact least ⟨b, hb, m.2.2.tail needs⟩ trivial (.single needs)

/-- Nothing is caught that comes after all that it needs. -/
theorem not_caught_of_first (first : ∀ a ∈ names, ∀ b, r a b → names.idxOf b < names.idxOf a)
    (ha : a ∈ names) : ¬Caught r a := by
  have mem {x y : String} (hx : x ∈ names) (needs : r x y) : y ∈ names :=
    mem_of_idxOf_lt (first x hx y needs)
  have closed {b : String} (reached : ReflTransGen r a b) : b ∈ names := by
    induction reached with
    | refl => exact ha
    | tail _ needs ih => exact mem ih needs
  rintro ⟨b, reached, cycle⟩
  have hb := closed reached
  have descends {c : String} (path : TransGen r b c) :
      c ∈ names ∧ names.idxOf c < names.idxOf b := by
    induction path with
    | single needs => exact ⟨mem hb needs, first b hb _ needs⟩
    | tail _ needs ih => exact ⟨mem ih.1 needs, (first _ ih.1 _ needs).trans ih.2⟩
  exact lt_irrefl _ (descends cycle).2

end

namespace ModuleGraph

variable {g : ModuleGraph}

/-- What is sorted comes after everything that it depends on. -/
theorem Lays.first {l : Layout} (h : g.Lays l) {a b : String} (ha : a ∈ l.sorted)
    (hb : b ∈ l.modules) (depends : g.DependsOn a b) : l.sorted.idxOf b < l.sorted.idxOf a := by
  induction h with
  | stuck blocked => cases ha
  | @next first l free rest ih =>
    have other : a ≠ first := fun same => free b hb (same ▸ depends)
    have ha := (List.mem_cons.1 ha).resolve_left other
    show (first :: l.sorted).idxOf b < (first :: l.sorted).idxOf a
    rw [List.idxOf_cons_ne _ other.symm]
    by_cases same : b = first
    · subst same
      rw [List.idxOf_cons_self]
      omega
    · rw [List.idxOf_cons_ne _ (Ne.symm same)]
      have := ih ha ((List.mem_cons.1 hb).resolve_left same)
      omega

theorem Lays.blocked {l : Layout} (h : g.Lays l) :
    ∀ a ∈ l.cyclic, ∃ b ∈ l.cyclic, g.DependsOn a b := by
  induction h with
  | stuck blocked => exact blocked
  | next _ _ ih => exact ih

theorem layout_lays (g : ModuleGraph) : g.Lays g.layout := layoutOf_lays g.pending_consistent

theorem mem_layout {name : String} : name ∈ g.layout.modules ↔ name ∈ g.modules :=
  g.layout_perm.mem_iff

/-- What is sorted comes after its dependencies, which are all known. -/
theorem sorted_first (g : ModuleGraph) : ∀ a ∈ g.layout.sorted, ∀ b, g.DependsOn a b →
    g.layout.sorted.idxOf b < g.layout.sorted.idxOf a :=
  fun _ ha _ depends => g.layout_lays.first ha (mem_layout.2 (g.known _ depends).2) depends

theorem layout_nodup (g : ModuleGraph) : g.layout.modules.Nodup :=
  g.layout_perm.nodup_iff.2 g.modules.nodup

/-- Just what is caught is left over. -/
theorem mem_cyclic {a : String} :
    a ∈ g.layout.cyclic ↔ a ∈ g.modules ∧ Caught g.DependsOn a := by
  constructor
  · intro ha
    exact ⟨mem_layout.1 (List.mem_append_right _ ha), caught_of_blocked g.layout_lays.blocked ha⟩
  · rintro ⟨ha, caught⟩
    refine (List.mem_append.1 (mem_layout.2 ha)).resolve_left fun hs => ?_
    exact not_caught_of_first g.sorted_first hs caught

theorem mem_sorted {a : String} :
    a ∈ g.layout.sorted ↔ a ∈ g.modules ∧ ¬Caught g.DependsOn a := by
  constructor
  · intro ha
    exact ⟨mem_layout.1 (List.mem_append_left _ ha), not_caught_of_first g.sorted_first ha⟩
  · rintro ⟨ha, free⟩
    refine (List.mem_append.1 (mem_layout.2 ha)).resolve_right fun hc => ?_
    exact free (mem_cyclic.1 hc).2

/-! ## The order nearest to that of addition -/

theorem map_module_sublist (before after : List Pending) (p : Pending) :
    ((before ++ after).map (·.module)).Sublist ((before ++ p :: after).map (·.module)) :=
  ((List.Sublist.refl before).append (List.sublist_cons_self p after)).map _

theorem layoutOf_cyclic_sublist (g : ModuleGraph) (ps : List Pending) :
    (g.layoutOf ps).cyclic.Sublist (ps.map (·.module)) := by
  induction ps using g.layout_induction with
  | stuck ps blocked =>
    rw [layoutOf_none blocked]
  | next before p after blocked free ih =>
    rw [layoutOf_some blocked free]
    rw [map_settle_module] at ih
    exact ih.trans (map_module_sublist before after p)

/-- The first module of an order in which dependencies come first has no pending dependency. -/
theorem head_isFree {ps : List Pending} (h : g.Consistent ps) {a : String} {l : List String}
    (perm : (a :: l).Perm (g.layoutOf ps).sorted)
    (first : ∀ b ∈ l, ¬g.DependsOn a b) : ∃ p ∈ ps, p.module = a ∧ p.isFree := by
  have sorted : a ∈ (g.layoutOf ps).sorted := perm.mem_iff.1 List.mem_cons_self
  have pending (b : String) : b ∈ (g.layoutOf ps).modules ↔ b ∈ ps.map (·.module) :=
    (layoutOf_perm g ps).mem_iff
  obtain ⟨p, hp, rfl⟩ := List.mem_map.1 ((pending a).1 (List.mem_append_left _ sorted))
  refine ⟨p, hp, rfl, (h.isFree_iff hp).2 fun b hb depends => ?_⟩
  have earlier := (layoutOf_lays h).first sorted ((pending b).2 hb) depends
  rcases List.mem_cons.1 (perm.mem_iff.2 (mem_of_idxOf_lt earlier)) with rfl | hl
  · exact lt_irrefl _ earlier
  · exact first b hl depends

/-- Taking out the first free module again and again keeps nearest to the order of what is
pending. -/
theorem layoutOf_least {ps : List Pending} (h : g.Consistent ps) {index : String → Nat}
    (ordered : (ps.map (·.module)).Pairwise fun a b => index a < index b) {l : List String}
    (perm : l.Perm (g.layoutOf ps).sorted) (first : l.Pairwise fun a b => ¬g.DependsOn a b) :
    (g.layoutOf ps).sorted = l ∨
      List.Lex (· < ·) ((g.layoutOf ps).sorted.map index) (l.map index) := by
  induction ps using g.layout_induction generalizing l with
  | stuck ps blocked =>
    rw [layoutOf_none blocked] at perm ⊢
    exact .inl perm.eq_nil.symm
  | next before p after blocked free ih =>
    have layout := @layoutOf_some g before after p blocked free
    cases l with
    | nil =>
      rw [layout] at perm
      cases perm.nil_eq
    | cons a l =>
      obtain ⟨first_a, first_l⟩ := List.pairwise_cons.1 first
      obtain ⟨q, hq, rfl, isFree⟩ := head_isFree h perm first_a
      rw [layout] at perm ⊢
      have later : q = p ∨ q ∈ after :=
        List.mem_cons.1 ((List.mem_append.1 hq).resolve_left fun hb => blocked q hb isFree)
      rcases later with rfl | later
      · have rest := ordered.sublist (map_module_sublist before after q)
        rw [← map_settle_module (g.dependents q.module)] at rest
        rcases ih h.settle rest perm.cons_inv first_l with same | less
        · exact .inl (congrArg (q.module :: ·) same)
        · exact .inr (.cons less)
      · right
        rw [List.map_append, List.map_cons] at ordered
        have ordered := (List.pairwise_cons.1 (List.pairwise_append.1 ordered).2.1).1
        exact .rel (ordered q.module (List.mem_map_of_mem later))

/-! ## Rounds -/

/-- The rounds of a layout: what is laid out already, and what is pending with its counts. -/
inductive Round (g : ModuleGraph) : List String → List Pending → Prop
  | start : Round g [] g.pending
  | next {done : List String} {before after : List Pending} {p : Pending}
      (round : Round g done (before ++ p :: after)) (blocked : ∀ q ∈ before, ¬q.isFree)
      (free : p.isFree) : Round g (done ++ [p.module])
        ((before ++ after).map (Pending.settle (g.dependents p.module)))

namespace Round

variable {done : List String} {ps before after : List Pending} {p : Pending}

theorem consistent (h : g.Round done ps) : g.Consistent ps := by
  induction h with
  | start => exact g.pending_consistent
  | next _ _ _ ih => exact ih.settle

theorem perm (h : g.Round done ps) : (done ++ ps.map (·.module)).Perm g.modules.names := by
  induction h with
  | start => exact g.pending_modules ▸ .refl _
  | @next done before after p _ _ _ ih =>
    rw [map_settle_module, List.append_assoc, List.singleton_append]
    exact ((perm_taken before after p).symm.append_left done).trans ih

/-- What is laid out depends on nothing that is pending. -/
theorem closed (h : g.Round done ps) {a b : String} (ha : a ∈ done) (depends : g.DependsOn a b) :
    b ∈ done := by
  induction h with
  | start => cases ha
  | @next done before after p round _ free ih =>
    rcases List.mem_append.1 ha with ha | ha
    · exact List.mem_append_left _ (ih ha)
    · rw [List.mem_singleton.1 ha] at depends
      have known : b ∈ g.modules.names := (g.known _ depends).2
      have hp : p ∈ before ++ p :: after := List.mem_append_right _ List.mem_cons_self
      refine List.mem_append_left _ ((List.mem_append.1 (round.perm.mem_iff.2 known)).resolve_right
        fun hb => ?_)
      exact (round.consistent.isFree_iff hp).1 free b hb depends

theorem sorted (h : g.Round done ps) : g.layout.sorted = done ++ (g.layoutOf ps).sorted := by
  induction h with
  | start => rfl
  | next _ blocked free ih => rw [ih, layoutOf_some blocked free, List.append_assoc]; rfl

/-- Whatever depends on a pending module is pending too and counts it. -/
theorem counted (h : g.Round done (before ++ p :: after)) {a : String}
    (ha : a ∈ g.dependents p.module) : ∃ q ∈ before ++ after, q.module = a ∧ 0 < q.missing := by
  have depends := mem_dependents.1 ha
  have taken := h.perm.nodup_iff.2 g.modules.nodup
  have hp : p.module ∈ (before ++ p :: after).map (·.module) := List.mem_map_of_mem (by simp)
  have new : a ∉ done := fun hd =>
    (List.nodup_append.1 taken).2.2 _ (h.closed hd depends) _ hp rfl
  have known : a ∈ g.modules.names := (g.known _ depends).1
  have pending := (List.mem_append.1 (h.perm.mem_iff.2 known)).resolve_left new
  have other : a ≠ p.module := g.irreflexive _ depends
  have ha := (List.mem_cons.1 ((perm_taken before after p).mem_iff.1 pending)).resolve_left other
  obtain ⟨q, hq, rfl⟩ := List.mem_map.1 ha
  have hq' : q ∈ before ++ p :: after := by
    rw [List.mem_append, List.mem_cons] at *
    tauto
  refine ⟨q, hq, rfl, ?_⟩
  rw [h.consistent.count q hq', List.countP_pos_iff]
  exact ⟨_, depends, by simp⟩

end Round

end ModuleGraph

/-! ## Main statements -/

theorem pairwise_idxOf {names : List String} (nodup : names.Nodup) :
    names.Pairwise fun a b => names.idxOf a < names.idxOf b := by
  refine List.pairwise_iff_getElem.2 fun i j hi hj less => ?_
  rwa [nodup.idxOf_getElem, nodup.idxOf_getElem]

/-- Leaving names out keeps the others in their order. -/
theorem idxOf_lt_iff_of_sublist {names names' : List String} (sub : names'.Sublist names)
    (nodup : names.Nodup) {a b : String} (ha : a ∈ names') (hb : b ∈ names') :
    names'.idxOf a < names'.idxOf b ↔ names.idxOf a < names.idxOf b := by
  have ordered := List.pairwise_iff_getElem.1 ((pairwise_idxOf nodup).sublist sub)
  have keeps {a b : String} (ha : a ∈ names') (hb : b ∈ names')
      (h : names'.idxOf a < names'.idxOf b) : names.idxOf a < names.idxOf b := by
    simpa using ordered _ _ (List.idxOf_lt_length_of_mem ha) (List.idxOf_lt_length_of_mem hb) h
  refine ⟨keeps ha hb, fun h => ?_⟩
  by_contra not_less
  rcases (Nat.le_of_not_lt not_less).lt_or_eq with less | same
  · exact (keeps hb ha less).asymm h
  · rw [(List.idxOf_inj hb).1 same] at h
    exact lt_irrefl _ h

/-! ### Load order of a list -/

/-- An order of the listed modules that are not caught, in which each comes after what it needs. -/
structure Sorts (needs : String → String → Prop) (listed order : List String) : Prop where
  nodup : order.Nodup
  mem : ∀ a, a ∈ order ↔ a ∈ listed ∧ ¬Caught needs a
  first : ∀ a ∈ order, ∀ b, needs a b → order.idxOf b < order.idxOf a

/-- The listed modules in load order. First come those that are not caught, as near to the list as
possible; then come the others as they are listed. -/
structure LoadOrder (needs : String → String → Prop) (listed sorted left : List String) :
    Prop where
  sorts : Sorts needs listed sorted
  least : ∀ order, Sorts needs listed order → sorted = order ∨
    List.Lex (· < ·) (sorted.map listed.idxOf) (order.map listed.idxOf)
  sublist : left.Sublist listed
  left : ∀ a, a ∈ left ↔ a ∈ listed ∧ Caught needs a

theorem Sorts.pairwise {needs : String → String → Prop} {listed order : List String}
    (h : Sorts needs listed order) :
    order.Pairwise fun a b => ¬needs a b := by
  refine List.pairwise_iff_getElem.2 fun i j hi hj less needed => ?_
  have := h.first _ (List.getElem_mem hi) _ needed
  rw [h.nodup.idxOf_getElem, h.nodup.idxOf_getElem] at this
  omega

namespace ModuleGraph

/-- A graph lays out its modules in load order. -/
theorem layout_loadOrder (g : ModuleGraph) :
    LoadOrder g.DependsOn g.modules.names g.layout.sorted g.layout.cyclic := by
  have sorts : Sorts g.DependsOn g.modules.names g.layout.sorted :=
    ⟨(List.nodup_append.1 g.layout_nodup).1, fun _ => mem_sorted, g.sorted_first⟩
  refine ⟨sorts, fun order h => ?_, ?_, fun _ => mem_cyclic⟩
  · have ordered : (g.pending.map (·.module)).Pairwise fun a b =>
        g.modules.names.idxOf a < g.modules.names.idxOf b := by
      rw [pending_modules]
      exact pairwise_idxOf g.modules.nodup
    refine layoutOf_least g.pending_consistent ordered ?_ h.pairwise
    refine (List.perm_ext_iff_of_nodup h.nodup sorts.nodup).2 fun a => ?_
    rw [h.mem, sorts.mem]
  · rw [← pending_modules]
    exact layoutOf_cyclic_sublist g g.pending

end ModuleGraph

/-! ### Load order by additions -/

namespace Addition

/-- An order of the modules that are not caught, in which every dependency comes before its
dependents. -/
structure Orders (as : List Addition) (order : List String) : Prop where
  nodup : order.Nodup
  mem : ∀ a, a ∈ order ↔ .module a ∈ as ∧ ¬Caught (Depends as) a
  first : ∀ a ∈ order, ∀ b, Depends as a b → order.idxOf b < order.idxOf a

theorem orders_iff {as : List Addition} {order : List String} :
    Orders as order ↔ Sorts (Depends as) (modules as) order := by
  have known (a : String) : a ∈ modules as ↔ .module a ∈ as := mem_modules
  constructor
  · rintro ⟨nodup, mem, first⟩
    exact ⟨nodup, by simpa only [known] using mem, first⟩
  · rintro ⟨nodup, mem, first⟩
    exact ⟨nodup, by simpa only [known] using mem, first⟩

variable (as : List Addition)

theorem ofAdditions_loadOrder : LoadOrder (Depends as) (modules as)
    (ModuleGraph.ofAdditions as).layout.sorted (ModuleGraph.ofAdditions as).layout.cyclic := by
  have layout := (ModuleGraph.ofAdditions as).layout_loadOrder
  rwa [ModuleGraph.ofAdditions_dependsOn, ModuleGraph.ofAdditions_modules] at layout

/-- The order in which a graph lays out what it can sort. -/
theorem sorted_orders : Orders as (ModuleGraph.ofAdditions as).layout.sorted :=
  orders_iff.2 (ofAdditions_loadOrder as).sorts

theorem mem_cyclic {a : String} : a ∈ (ModuleGraph.ofAdditions as).layout.cyclic ↔
    .module a ∈ as ∧ Caught (Depends as) a := by
  rw [(ofAdditions_loadOrder as).left, mem_modules]

theorem modules_nodup : (modules as).Nodup :=
  ModuleGraph.ofAdditions_modules as ▸ (ModuleGraph.ofAdditions as).modules.nodup

theorem cyclic_sublist : (ModuleGraph.ofAdditions as).layout.cyclic.Sublist (modules as) :=
  (ofAdditions_loadOrder as).sublist

theorem sorted_least {order : List String} (h : Orders as order) :
    (ModuleGraph.ofAdditions as).layout.sorted = order ∨
      List.Lex (· < ·) ((ModuleGraph.ofAdditions as).layout.sorted.map (modules as).idxOf)
        (order.map (modules as).idxOf) :=
  (ofAdditions_loadOrder as).least order (orders_iff.1 h)

/-- **Load order is the least order with dependencies first.** Every added module is laid out once.
First come those that are not caught: of all orders of them in which every dependency comes before
its dependents, it is the lexicographically least by place of addition. Then come those that are
caught, as they were added. In every round, what depends on a module taken out is still pending, and
its count is not zero yet. -/
theorem loadOrder_least :
    ∃ sorted left, (ModuleGraph.ofAdditions as).loadOrder.Yields (sorted ++ left) ∧
      (sorted ++ left).Nodup ∧ (∀ name, name ∈ sorted ++ left ↔ .module name ∈ as) ∧
      Orders as sorted ∧
      (∀ order, Orders as order → sorted = order ∨
        List.Lex (· < ·) (sorted.map (modules as).idxOf) (order.map (modules as).idxOf)) ∧
      left.Sublist (modules as) ∧
      (∀ name, name ∈ left ↔ .module name ∈ as ∧ Caught (Depends as) name) ∧
      ∀ done before p after, (ModuleGraph.ofAdditions as).Round done (before ++ p :: after) →
        done <+: sorted ∧
        ∀ name ∈ (ModuleGraph.ofAdditions as).dependents p.module,
          ∃ q ∈ before ++ after, q.module = name ∧ 0 < q.missing := by
  let g := ModuleGraph.ofAdditions as
  refine ⟨g.layout.sorted, g.layout.cyclic, ModuleGraph.loadOrder_yields.2 rfl, g.layout_nodup,
    fun name => ModuleGraph.mem_layout.trans ModuleGraph.mem_ofAdditions, sorted_orders as,
    fun order h => sorted_least as h, cyclic_sublist as, fun name => mem_cyclic as,
    fun done before p after round => ⟨?_, fun name hn => round.counted hn⟩⟩
  exact round.sorted ▸ List.prefix_append _ _

/-! ### Beside a cycle -/

/-- Two modules in the wrong order beside a cycle. -/
def tangled : List Addition :=
  [.module "util.js", .module "a.js", .module "core.js", .module "b.js",
    .dependency "util.js" "core.js", .dependency "a.js" "b.js", .dependency "b.js" "a.js"]

theorem tangled_depends {a b : String} (h : Depends tangled a b) :
    (a = "util.js" ∧ b = "core.js") ∨ (a = "a.js" ∧ b = "b.js") ∨ (a = "b.js" ∧ b = "a.js") := by
  simpa [tangled] using mem_of_depends h

theorem tangled_cycle : Depends tangled "a.js" "b.js" ∧ Depends tangled "b.js" "a.js" :=
  ⟨⟨by decide, tangled.take 5, _, rfl, by decide⟩, ⟨by decide, tangled.take 6, _, rfl, by decide⟩⟩

theorem tangled_orders : Orders tangled ["core.js", "util.js"] := by
  have first : ∀ a ∈ ["core.js", "util.js"], ∀ b, Depends tangled a b →
      ["core.js", "util.js"].idxOf b < ["core.js", "util.js"].idxOf a := by
    intro a ha b depends
    rcases tangled_depends depends with ⟨rfl, rfl⟩ | ⟨rfl, rfl⟩ | ⟨rfl, rfl⟩
    · decide
    · simp at ha
    · simp at ha
  obtain ⟨needs, back⟩ := tangled_cycle
  refine ⟨by decide, fun a => ⟨fun ha => ⟨?_, not_caught_of_first first ha⟩, ?_⟩, first⟩
  · rcases List.mem_pair.1 ha with rfl | rfl <;> decide
  · rintro ⟨added, free⟩
    simp only [tangled, List.mem_cons, Addition.module.injEq, reduceCtorEq, List.not_mem_nil,
      or_false] at added
    rcases added with rfl | rfl | rfl | rfl
    · decide
    · exact absurd ⟨_, .refl, .tail (.single needs) back⟩ free
    · decide
    · exact absurd ⟨_, .refl, .tail (.single back) needs⟩ free

theorem tangled_least : Orders tangled ["core.js", "util.js"] ∧ ∃ sorted left,
    (ModuleGraph.ofAdditions tangled).loadOrder.Yields (sorted ++ left) ∧
    (sorted = ["core.js", "util.js"] ∨ List.Lex (· < ·) (sorted.map (modules tangled).idxOf)
      (["core.js", "util.js"].map (modules tangled).idxOf)) := by
  obtain ⟨sorted, left, yields, _, _, _, least, _⟩ := loadOrder_least tangled
  exact ⟨tangled_orders, sorted, left, yields, least _ tangled_orders⟩

/-! ### Dependencies on what is caught -/

/-- **Dependencies come first unless they are caught.** A recorded dependency comes before its
dependent if it is not caught. If it is, so is the dependent, and the two stay as they were
added. -/
theorem loadOrder_precedes {as : List Addition} {m d : String} (h : Depends as m d) :
    ∃ order, (ModuleGraph.ofAdditions as).loadOrder.Yields order ∧
      (order.idxOf d < order.idxOf m ↔
        (Caught (Depends as) d → (modules as).idxOf d < (modules as).idxOf m)) := by
  let l := (ModuleGraph.ofAdditions as).layout
  refine ⟨l.sorted ++ l.cyclic, ModuleGraph.loadOrder_yields.2 rfl, ?_⟩
  have known : .module m ∈ as ∧ .module d ∈ as := by
    obtain ⟨_, before, after, rfl, hm, hd⟩ := h
    exact ⟨List.mem_append_left _ hm, List.mem_append_left _ hd⟩
  by_cases caught : Caught (Depends as) d
  · have ⟨b, reached, cycle⟩ := caught
    have hd : d ∈ l.cyclic := (mem_cyclic as).2 ⟨known.2, caught⟩
    have hm : m ∈ l.cyclic := (mem_cyclic as).2 ⟨known.1, b, .head h reached, cycle⟩
    have left {a : String} (ha : a ∈ l.cyclic) :
        (l.sorted ++ l.cyclic).idxOf a = l.sorted.length + l.cyclic.idxOf a := by
      refine List.idxOf_append_of_notMem fun hs => ?_
      exact (((sorted_orders as).mem a).1 hs).2 ((mem_cyclic as).1 ha).2
    rw [left hd, left hm, Nat.add_lt_add_iff_left, forall_prop_of_true caught]
    exact idxOf_lt_iff_of_sublist (cyclic_sublist as) (modules_nodup as) hd hm
  · refine iff_of_true ?_ fun hd => absurd hd caught
    have hd : d ∈ l.sorted := ((sorted_orders as).mem d).2 ⟨known.2, caught⟩
    rw [List.idxOf_append_of_mem hd]
    by_cases hm : m ∈ l.sorted
    · rw [List.idxOf_append_of_mem hm]
      exact (sorted_orders as).first m hm d h
    · rw [List.idxOf_append_of_notMem hm]
      exact (List.idxOf_lt_length_of_mem hd).trans_le (Nat.le_add_right _ _)

/-- A module that only needs one on a cycle and was added before it. -/
def lateCycle : List Addition :=
  [.module "main.js", .module "a.js", .module "b.js", .dependency "main.js" "a.js",
    .dependency "a.js" "b.js", .dependency "b.js" "a.js"]

theorem lateCycle_needs : Depends lateCycle "main.js" "a.js" :=
  ⟨by decide, lateCycle.take 3, _, rfl, by decide⟩

theorem lateCycle_precedes : Depends lateCycle "main.js" "a.js" ∧ ∃ order,
    (ModuleGraph.ofAdditions lateCycle).loadOrder.Yields order ∧
      (order.idxOf "a.js" < order.idxOf "main.js" ↔
        (Caught (Depends lateCycle) "a.js" →
          (modules lateCycle).idxOf "a.js" < (modules lateCycle).idxOf "main.js")) :=
  ⟨lateCycle_needs, loadOrder_precedes lateCycle_needs⟩

/-- Nothing leads back to the module, yet what it needs comes after it. -/
theorem lateCycle_misplaced : Depends lateCycle "main.js" "a.js" ∧
    ¬TransGen (Depends lateCycle) "a.js" "main.js" ∧
    ∃ order, (ModuleGraph.ofAdditions lateCycle).loadOrder.Yields order ∧
      order.idxOf "main.js" < order.idxOf "a.js" := by
  refine ⟨lateCycle_needs, fun back => ?_, ["main.js", "a.js", "b.js"],
    ModuleGraph.loadOrder_yields.2 (by decide +kernel), by decide⟩
  obtain ⟨_, _, last⟩ := TransGen.tail'_iff.1 back
  simpa [lateCycle] using mem_of_depends last

end Addition

end Bundler
