import Bundler.Proofs.Precedence
import Bundler.Proofs.Roots

/-!
# Load order of sorted sections

A sorted section lists what its search selected, in load order. What decides the order are the
records of the listed modules and nothing else: a module needs another one if both are listed and
its record says so. A bundle that the search unpacked is not listed, so a dependency on it counts
for nothing, although the search went on from it to its sub-modules: `resolve_sorted`.
-/

namespace Bundler

open Relation (TransGen)

/-! ## Load order of a list -/

section

variable {needs : String → String → Prop} {listed sorted left : List String}

/-- What a sorted module needs, directly or not, is sorted before it. -/
theorem Sorts.descends {order : List String} (h : Sorts needs listed order) {a b : String}
    (ha : a ∈ order) (chain : TransGen needs a b) :
    b ∈ order ∧ order.idxOf b < order.idxOf a := by
  induction chain with
  | single needed =>
    have earlier := h.first a ha _ needed
    exact ⟨mem_of_idxOf_lt earlier, earlier⟩
  | tail _ needed ih =>
    have earlier := h.first _ ih.1 _ needed
    exact ⟨mem_of_idxOf_lt earlier, earlier.trans ih.2⟩

/-- What a module needs, directly or not, comes before it, unless that is caught. If it is, so is
the module, and the two stay as they are listed. -/
theorem LoadOrder.precedes (h : LoadOrder needs listed sorted left) (nodup : listed.Nodup)
    (known : ∀ a b, needs a b → a ∈ listed ∧ b ∈ listed) {a b : String}
    (chain : TransGen needs a b) :
    (sorted ++ left).idxOf b < (sorted ++ left).idxOf a ↔
      (Caught needs b → listed.idxOf b < listed.idxOf a) := by
  have ha : a ∈ listed := by
    obtain ⟨_, first, _⟩ := TransGen.head'_iff.1 chain
    exact (known _ _ first).1
  have hb : b ∈ listed := by
    obtain ⟨_, _, last⟩ := TransGen.tail'_iff.1 chain
    exact (known _ _ last).2
  have behind {x : String} (hx : x ∉ sorted) :
      (sorted ++ left).idxOf x = sorted.length + left.idxOf x := List.idxOf_append_of_notMem hx
  by_cases caught : Caught needs b
  · have free {x : String} (caught : Caught needs x) : x ∉ sorted := fun hx =>
      ((h.sorts.mem x).1 hx).2 caught
    have caught' : Caught needs a := by
      obtain ⟨c, reached, cycle⟩ := caught
      exact ⟨c, chain.to_reflTransGen.trans reached, cycle⟩
    rw [behind (free caught), behind (free caught'), Nat.add_lt_add_iff_left,
      forall_prop_of_true caught]
    exact idxOf_lt_iff_of_sublist h.sublist nodup ((h.left b).2 ⟨hb, caught⟩)
      ((h.left a).2 ⟨ha, caught'⟩)
  · refine iff_of_true ?_ fun hb => absurd hb caught
    have hs : b ∈ sorted := (h.sorts.mem b).2 ⟨hb, caught⟩
    rw [List.idxOf_append_of_mem hs]
    by_cases ha : a ∈ sorted
    · rw [List.idxOf_append_of_mem ha]
      exact (h.sorts.descends ha chain).2
    · rw [behind ha]
      exact (List.idxOf_lt_length_of_mem hs).trans_le (Nat.le_add_right _ _)

end

/-! ## Sections that are sorted -/

/-- A listed module needs another one that its record has among the dependencies. -/
def Pool.Needs (pool : Pool) (listed : List String) (a b : String) : Prop :=
  a ≠ b ∧ a ∈ listed ∧ b ∈ listed ∧ ModuleGraph.Recorded pool a b

theorem ModuleGraph.ofPool_dependsOn {pool : Pool} {names : List String} {g : ModuleGraph}
    (nodup : names.Nodup) (h : (ofPool pool names).Yields g) : g.DependsOn = pool.Needs names := by
  funext a b
  exact propext ((ofPool_spec nodup h).2 a b)

namespace Search

theorem arrange_loadOrder {s : Search} {modules arranged : List String} (nodup : modules.Nodup)
    (raw : s.criteria.mode = .raw) (sort : s.criteria.sort)
    (h : (s.arrange modules).Yields arranged) :
    ∃ sorted left, arranged = sorted ++ left ∧
      LoadOrder (s.pool.Needs modules) modules sorted left := by
  unfold arrange at h
  rw [if_pos (by simp [raw, sort])] at h
  obtain ⟨g, graph, order⟩ := Run.bind_yields.1 h
  have layout := g.layout_loadOrder
  rw [ModuleGraph.ofPool_dependsOn nodup graph, (ModuleGraph.ofPool_spec nodup graph).1] at layout
  exact ⟨_, _, (ModuleGraph.loadOrder_yields.1 order).symm, layout⟩

end Search

namespace Definition

variable {d : Definition} {pool : Pool} {ignoreMissing : Bool} {r : Resolved}

/-- In a resolution every section lists what its search collects, as it is arranged. -/
theorem resolve_collect (h : (d.resolve pool ignoreMissing).Yields r) {i : Nat}
    {t : ResolvedSection} (ht : r.sections[i]? = some t) :
    ∃ search selected, t.definition.search pool ignoreMissing = .ok search ∧
      (search.collect (d.walkBefore pool ignoreMissing i)).Yields
        (d.walkBefore pool ignoreMissing (i + 1), selected) ∧
      (search.arrange selected).Yields t.modules := by
  obtain ⟨_, resolved, this, ht'⟩ := resolve_ofSection h (getElem?_definition h ht)
  cases ht.symm.trans ht'
  obtain ⟨search, searched, selected, collected, _, arranged, same⟩ :=
    ResolvedSection.ofSection_yields.1 this
  rw [same]
  exact ⟨search, selected, searched, collected, arranged⟩

/-- A bundle that a section unpacks is not listed. -/
theorem Unpacks.not_mem (h : (d.resolve pool ignoreMissing).Yields r) {i : Nat} {bundle : String}
    (unpacks : d.Unpacks pool ignoreMissing i bundle) {t : ResolvedSection}
    (ht : r.sections[i]? = some t) : bundle ∉ t.modules := by
  obtain ⟨_, s, search, info, hs, searched, found, unpacked⟩ := unpacks
  obtain ⟨search', modules, searched', ht', _, _, mem⟩ := selects_least h hs
  cases searched.symm.trans searched'
  cases ht.symm.trans ht'
  obtain ⟨filters, _, rfl⟩ := Section.search_eq_ok.1 searched
  intro listed
  obtain ⟨_, info', found', kept⟩ := (mem bundle).1 listed
  cases found.symm.trans found'
  exact kept unpacked

/-- **A sorted section is in load order for what its own modules need.** What its search selects is
put into load order, where a module needs just the listed modules that it is recorded to depend on.
A bundle that is unpacked is not among them, and what is needed through it is not needed. Through
listed modules a needed module comes first, unless it is caught and was selected later. -/
theorem resolve_sorted (h : (d.resolve pool ignoreMissing).Yields r) {i : Nat}
    {t : ResolvedSection} (ht : r.sections[i]? = some t) (raw : t.mode = .raw)
    (sort : t.definition.sort) :
    ∃ search w selected sorted left, t.definition.search pool ignoreMissing = .ok search ∧
      (search.collect (d.walkBefore pool ignoreMissing i)).Yields (w, selected) ∧
      t.modules = sorted ++ left ∧ LoadOrder (pool.Needs selected) selected sorted left ∧
      (∀ bundle, d.Unpacks pool ignoreMissing i bundle → bundle ∉ selected) ∧
      ∀ a b, TransGen (pool.Needs selected) a b →
        (t.modules.idxOf b < t.modules.idxOf a ↔
          (Caught (pool.Needs selected) b → selected.idxOf b < selected.idxOf a)) := by
  obtain ⟨search, selected, searched, collected, arranged⟩ := resolve_collect h ht
  obtain ⟨filters, parsed, rfl⟩ := Section.search_eq_ok.1 searched
  have nodup := Search.collect_nodup collected
  have perm := Search.arrange_perm nodup arranged
  obtain ⟨sorted, left, modules, order⟩ := Search.arrange_loadOrder nodup raw sort arranged
  refine ⟨_, _, selected, sorted, left, searched, collected, modules, order, ?unlisted, ?order⟩
  case unlisted =>
    intro bundle unpacks listed
    exact unpacks.not_mem h ht (perm.mem_iff.2 listed)
  case order =>
    intro a b chain
    rw [modules]
    exact order.precedes nodup (fun _ _ needs => ⟨needs.2.1, needs.2.2.1⟩) chain

end Definition

/-! ## A dependency on a bundle -/

namespace Wrapped

def main : String := "app/main.js"

def util : String := "lib/util.js"

def bundle : String := "vendor/bundle.js"

def mainInfo : ModuleInfo := { name := main, dependencies := .ofList ["vendor/bundle"] }

def bundleInfo : ModuleInfo := { name := bundle, subModules := ["lib/util"] }

def pool : Pool := .ofResources
  [{ name := main, content := [59], info := some mainInfo }, { name := util, content := [59] },
    { name := bundle, content := [59], info := some bundleInfo }]

def scripts : Section := { mode := .raw, filters := [main], resolve := true, sort := true }

def definition : Definition := { sections := [scripts] }

def resolved : Resolved := ⟨definition, [⟨scripts, [main, util]⟩]⟩

def search : Search := ⟨pool, true, scripts, [⟨true, .directory main⟩]⟩

/-- The search goes on from the module to the bundle and from there to what it contains. -/
theorem walks : ∃ reached, search.Walks {} search.roots reached ∧
    reached.selected.names = [main, util] ∧ bundle ∈ reached.visited := by
  have roots : search.roots = [⟨main, [], false⟩] := by decide +kernel
  refine ⟨?reached, ?walk, ?selected, ?visited⟩
  case walk =>
    rw [roots]
    have found : search.pool.record? main = some mainInfo := rfl
    refine .selected (by decide) (by decide +kernel) found (by decide +kernel) ?_
    have needed : search.successors ⟨main, [], false⟩ mainInfo = [⟨bundle, [main], true⟩] := by
      decide +kernel
    rw [needed, List.append_nil]
    have found : search.pool.record? bundle = some bundleInfo := rfl
    refine .unpacked (by decide) (by decide +kernel) found (by decide +kernel) ?_
    have inner : Search.subModules ⟨bundle, [main], true⟩ bundleInfo =
        [⟨util, [bundle, main], false⟩] := by
      decide +kernel
    rw [inner, List.append_nil]
    have found : search.pool.record? util = some { name := util } := rfl
    refine .selected (by decide) (by decide +kernel) found (by decide +kernel) ?_
    have none : search.successors ⟨util, [bundle, main], false⟩ { name := util } = [] := by
      decide +kernel
    rw [none, List.append_nil]
    exact .done
  case selected => rfl
  case visited => decide

/-- Nothing that is listed needs anything, so the list is in load order already. -/
theorem arranges : (search.arrange [main, util]).Yields [main, util] := by
  let g : ModuleGraph := [main, util].foldl ModuleGraph.addModule .empty
  have graph : (ModuleGraph.ofPool pool [main, util]).Yields g := rfl
  exact Run.bind_yields.2 ⟨g, graph, ModuleGraph.loadOrder_yields.2 (by decide +kernel)⟩

theorem resolves : (definition.resolve pool true).Yields resolved := by
  obtain ⟨reached, walks, selected, _⟩ := walks
  refine Definition.resolve_yields.2 ⟨rfl, reached, ?_⟩
  refine ResolvedSection.ofSections_cons.2 ⟨_, _, ?_, _, Run.pure_yields.2 rfl, rfl⟩
  refine ResolvedSection.ofSection_yields.2 ⟨search, rfl, _, ?_, _, arranges, rfl⟩
  exact Search.collect_yields.2 ⟨reached, walks.yields, rfl, selected.symm⟩

theorem unpacks : definition.Unpacks pool true 0 bundle := by
  obtain ⟨_, walks, _, visited⟩ := walks
  have found : search.pool.record? bundle = some bundleInfo := rfl
  exact Definition.unpacks_of_walks walks visited rfl rfl found (by decide +kernel)

theorem util_leads_nowhere {name : String} : ¬search.LeadsTo util name := by
  intro leads
  have record : search.pool.record? util = some { name := util } := rfl
  cases leads with
  | subModule found _ mem =>
    cases record.symm.trans found
    cases mem
  | dependency found _ _ mem _ =>
    cases record.symm.trans found
    cases mem
  | renderer _ _ renders _ => cases renders

theorem main_and_util_sorted : (definition.resolve pool true).Yields resolved ∧
    resolved.sections[0]? = some ⟨scripts, [main, util]⟩ ∧ scripts.mode = .raw ∧ scripts.sort ∧
    ∃ selected sorted left, [main, util] = sorted ++ left ∧
      LoadOrder (pool.Needs selected) selected sorted left ∧ bundle ∉ selected := by
  obtain ⟨_, _, selected, sorted, left, _, _, modules, order, unlisted, _⟩ :=
    Definition.resolve_sorted resolves (i := 0) rfl rfl rfl
  exact ⟨resolves, rfl, rfl, rfl, selected, sorted, left, modules, order, unlisted _ unpacks⟩

/-- What the bundle contains comes after the module that depends on the bundle. -/
theorem util_late : (definition.resolve pool true).Yields resolved ∧
    resolved.sections[0]? = some ⟨scripts, [main, util]⟩ ∧
    scripts.mode = .raw ∧ scripts.resolve ∧ scripts.sort ∧
    ModuleGraph.Recorded pool main bundle ∧ definition.Unpacks pool true 0 bundle ∧
    search.LeadsTo bundle util ∧ ¬TransGen search.LeadsTo util main ∧
    [main, util].idxOf main < [main, util].idxOf util := by
  refine ⟨resolves, rfl, rfl, rfl, rfl, ?needs, unpacks, ?contains, ?free, by decide⟩
  case needs => exact ⟨mainInfo, rfl, "vendor/bundle", by decide, by decide +kernel⟩
  case contains =>
    have found : search.pool.record? bundle = some bundleInfo := rfl
    have contained : search.LeadsTo bundle (Name.resourceName "lib/util") :=
      .subModule found (by decide +kernel) (by decide)
    have name : Name.resourceName "lib/util" = util := by decide +kernel
    rwa [name] at contained
  case free =>
    intro chain
    obtain ⟨_, first, _⟩ := TransGen.head'_iff.1 chain
    exact util_leads_nowhere first

end Wrapped

end Bundler
