import Bundler.Proofs.SortedSections

/-!
# Sorting what is sorted

A list is settled if it begins with modules that come after all that they need, and what is left
needs itself. Just these lists stay as they are when they are put into load order. Every load order
is settled, so it does not matter how often a list is sorted (`sorted_again`).
-/

namespace Bundler

/-- The list begins with modules that come after what they need. Each of the others needs another
one of them. -/
def Settled (needs : String → String → Prop) (names : List String) : Prop :=
  ∃ sorted left, names = sorted ++ left ∧
    (∀ a ∈ sorted, ∀ b, needs a b → sorted.idxOf b < sorted.idxOf a) ∧
    ∀ a ∈ left, ∃ b ∈ left, needs a b

namespace ModuleGraph

section

variable {g : ModuleGraph} {pool : Pool} {names order : List String}

theorem loadOrder_congr {g' : ModuleGraph} (same : g.layout = g'.layout) :
    g.loadOrder = g'.loadOrder := by
  unfold loadOrder
  rw [same]

/-- Modules that come after what they need can be laid out in their order. -/
theorem lays_of_first {sorted left : List String} (nodup : (sorted ++ left).Nodup)
    (first : ∀ a ∈ sorted, ∀ b ∈ sorted ++ left, g.DependsOn a b →
      sorted.idxOf b < sorted.idxOf a)
    (blocked : ∀ a ∈ left, ∃ b ∈ left, g.DependsOn a b) : g.Lays ⟨sorted, left⟩ := by
  induction sorted with
  | nil => exact .stuck blocked
  | cons a sorted ih =>
    obtain ⟨new, nodup⟩ := List.nodup_cons.1 nodup
    refine .next (l := ⟨sorted, left⟩) ?_ (ih nodup ?_)
    · intro b hb depends
      have earlier := first a List.mem_cons_self b hb depends
      rw [List.idxOf_cons_self] at earlier
      omega
    · intro x hx b hb depends
      have earlier := first x (List.mem_cons_of_mem a hx) b (List.mem_cons_of_mem a hb) depends
      have hx' : a ≠ x := by
        rintro rfl
        exact new (List.mem_append_left _ hx)
      have hb' : a ≠ b := by
        rintro rfl
        exact new hb
      rw [List.idxOf_cons_ne _ hb', List.idxOf_cons_ne _ hx'] at earlier
      omega

/-- Just the settled lists of modules are laid out as they are. -/
theorem layout_modules_eq_iff (g : ModuleGraph) :
    g.layout.modules = g.modules.names ↔ Settled g.DependsOn g.modules.names := by
  constructor
  · intro same
    exact ⟨_, _, same.symm, g.sorted_first, g.layout_lays.blocked⟩
  · rintro ⟨sorted, left, split, first, blocked⟩
    have nodup := g.modules.nodup
    rw [split] at nodup
    have lays : g.Lays ⟨sorted, left⟩ :=
      lays_of_first nodup (fun a ha b _ => first a ha b) blocked
    have layout : g.layout = ⟨sorted, left⟩ :=
      layoutOf_eq_of_lays lays g.pending_consistent (g.pending_modules.trans split)
    rw [layout, split]
    rfl

/-- **Sorting is idempotent.** If some modules can be put into load order, so can the modules in
this order, with what is caught among them too: the order comes out again, and so does the warning.
A list stays as it is if and only if it is settled. -/
theorem sorted_again (nodup : names.Nodup) (graph : (ofPool pool names).Yields g)
    (sorted : g.loadOrder.Yields order) :
    ∃ g', (ofPool pool order).Yields g' ∧ g'.loadOrder.Yields order ∧
      g'.loadOrder = g.loadOrder ∧ Settled (pool.Needs order) order ∧
      (order = names ↔ Settled (pool.Needs names) names) := by
  cases loadOrder_yields.1 sorted
  obtain ⟨g', graph', same⟩ := loadOrder_idempotent nodup graph
  have perm := ofPool_order_perm nodup graph
  have nodup' := perm.nodup_iff.2 nodup
  have again : g'.loadOrder = g.loadOrder := loadOrder_congr same
  have settles := g.layout_modules_eq_iff
  have settles' := g'.layout_modules_eq_iff
  rw [ofPool_dependsOn nodup graph, (ofPool_spec nodup graph).1] at settles
  rw [ofPool_dependsOn nodup' graph', (ofPool_spec nodup' graph').1, same] at settles'
  exact ⟨g', graph', again ▸ sorted, again, settles'.1 rfl, settles⟩

end

namespace Knot

def loading (name dependency : String) : Resource :=
  { name, content := [], info := some (({ name } : ModuleInfo).addDependency dependency false) }

/-- Two modules that load each other, one that loads them, and two that do not. -/
def pool : Pool := .ofResources
  [loading "main.js" "a", loading "util.js" "core", loading "a.js" "b",
    { name := "core.js", content := [], info := some { name := "core.js" } }, loading "b.js" "a"]

def names : List String := ["main.js", "util.js", "a.js", "core.js", "b.js"]

def order : List String := ["core.js", "util.js", "main.js", "a.js", "b.js"]

theorem describable : ∀ name ∈ names, Describable pool name := by
  intro name hn e failed
  have found : ∀ name ∈ names, (pool.info name).isOk := by decide +kernel
  have := found name hn
  rw [failed] at this
  contradiction

theorem sorts : ∃ g, (ofPool pool names).Yields g ∧ g.loadOrder.Yields order := by
  refine ⟨_, ofPool_yields.2 ⟨describable, rfl⟩, loadOrder_yields.2 ?_⟩
  decide +kernel

/-- What is caught stays behind in its order, and the list is not settled to begin with. -/
theorem knot_stays : ∃ g', (ofPool pool order).Yields g' ∧ g'.loadOrder.Yields order ∧
    Settled (pool.Needs order) order ∧ ¬Settled (pool.Needs names) names := by
  obtain ⟨g, graph, sorted⟩ := sorts
  have nodup : names.Nodup := by decide
  obtain ⟨g', graph', sorted', _, settled, same⟩ := sorted_again nodup graph sorted
  have moved : order ≠ names := by decide
  exact ⟨g', graph', sorted', settled, mt same.2 moved⟩

end Knot

end ModuleGraph

end Bundler
