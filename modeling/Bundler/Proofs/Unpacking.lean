import Bundler.Proofs.Roots
import Mathlib.Logic.Relation

/-!
# Bundles that give way

A bundle is unpacked if the pool has one of the modules that it contains. These are visited in its
place, and may be bundles that are unpacked in turn. So whatever a bundle leads to takes its place
if the pool finds it and it is not unpacked itself, unless it was excluded where a bundle on the way
was visited before: `resolve_unpacks`. A bundle that leads to nothing of this kind leaves nothing.
-/

namespace Bundler

open Relation (TransGen)

namespace Pool

/-- The pool has a module of the bundle, which is no library descriptor. -/
def Unpackable (pool : Pool) (bundle : String) (info : ModuleInfo) : Prop :=
  ¬Name.isLibraryDescriptor bundle ∧
    ∃ sub ∈ info.subModules, pool.contains (Name.resourceName sub)

/-- The bundle is unpacked, and this is one of the modules that it contains. -/
def Packs (pool : Pool) (bundle name : String) : Prop :=
  ∃ info, pool.record? bundle = some info ∧ pool.Unpackable bundle info ∧
    ∃ sub ∈ info.subModules, Name.resourceName sub = name

/-- The module is found, and is no bundle that is unpacked. -/
def Available (pool : Pool) (name : String) : Prop :=
  ∃ info, pool.record? name = some info ∧ ¬pool.Unpackable name info

theorem unpackable_iff {s : Search} {bundle : String} {info : ModuleInfo} :
    s.unpacks bundle info ↔ s.pool.Unpackable bundle info := by
  simp [Search.unpacks, Unpackable]

end Pool

namespace Definition

variable {d : Definition} {pool : Pool} {ignoreMissing : Bool} {r : Resolved} {i j : Nat}
  {bundle name : String}

/-- The bundle passes on to the module for the section with this index: if an earlier section that
it shares its walk with has unpacked the bundle, that section accepts the module as required. -/
structure Passes (d : Definition) (pool : Pool) (ignoreMissing : Bool) (i : Nat)
    (bundle name : String) : Prop where
  packs : pool.Packs bundle name
  accepted : ∀ j < i, d.Shares i j → d.Unpacks pool ignoreMissing j bundle →
    ∀ s search, d.sections[j]? = some s → s.search pool ignoreMissing = .ok search →
      search.filters.selects name true

theorem Shares.trans {k : Nat} (h : d.Shares i j) (h' : d.Shares j k) : d.Shares i k := by
  rcases h with rfl | ⟨hj, there, here⟩
  · exact h'
  · rcases h' with rfl | ⟨hk, there', _⟩
    · exact .inr ⟨hj, there, here⟩
    · exact .inr ⟨hk.trans hj, there', here⟩

theorem Unpacks.unpackable (unpacks : d.Unpacks pool ignoreMissing j bundle) :
    ∃ info, pool.record? bundle = some info ∧ pool.Unpackable bundle info := by
  obtain ⟨_, _, search, info, _, searched, found, unpacked⟩ := unpacks
  obtain ⟨_, _, rfl⟩ := Section.search_eq_ok.1 searched
  exact ⟨info, found, Pool.unpackable_iff.1 unpacked⟩

theorem unpacks_of_packs (new : bundle ∈ d.newlyVisited pool ignoreMissing j)
    (packs : pool.Packs bundle name) : d.Unpacks pool ignoreMissing j bundle := by
  obtain ⟨s, search, _, hs, searched, _⟩ := id new
  obtain ⟨info, found, unpackable, _⟩ := packs
  obtain ⟨_, _, rfl⟩ := Section.search_eq_ok.1 searched
  exact ⟨new, s, _, info, hs, searched, found, Pool.unpackable_iff.2 unpackable⟩

/-- What an unpacked bundle contains and the section accepts has been visited. -/
theorem Unpacks.visits (h : (d.resolve pool ignoreMissing).Yields r)
    (unpacks : d.Unpacks pool ignoreMissing j bundle) {s : Section} {search : Search}
    (hs : d.sections[j]? = some s) (searched : s.search pool ignoreMissing = .ok search)
    (packs : pool.Packs bundle name) (accepted : search.filters.selects name true) :
    ∃ k, d.Shares j k ∧ name ∈ d.newlyVisited pool ignoreMissing k := by
  obtain ⟨search', _, searched', _, ⟨closed, _⟩, _⟩ := selects_least h hs
  cases searched.symm.trans searched'
  obtain ⟨info, found, unpackable, sub, mem, rfl⟩ := packs
  by_cases before : Name.resourceName sub ∈ d.visitedBefore pool ignoreMissing j
  · obtain ⟨here, k, hk, there, new⟩ := before
    exact ⟨k, .inr ⟨hk, there, here⟩, new⟩
  · obtain ⟨filters, _, rfl⟩ := Section.search_eq_ok.1 searched
    have leads := Search.LeadsTo.subModule (s := ⟨pool, ignoreMissing, s, filters⟩) found
      (Pool.unpackable_iff.2 unpackable) mem
    exact ⟨j, .inl rfl, closed.follow bundle unpacks.1 _ leads accepted before⟩

/-- What an unpacked bundle passes on to has been visited, where the section itself accepts all. -/
theorem Passes.visits (h : (d.resolve pool ignoreMissing).Yields r) (shares : d.Shares i j)
    (accepting : ∀ s search, d.sections[i]? = some s → s.search pool ignoreMissing = .ok search →
      ∀ name, search.filters.selects name true)
    (new : bundle ∈ d.newlyVisited pool ignoreMissing j)
    (passes : d.Passes pool ignoreMissing i bundle name) :
    ∃ k, d.Shares i k ∧ name ∈ d.newlyVisited pool ignoreMissing k := by
  have unpacks := unpacks_of_packs new passes.packs
  obtain ⟨_, s, search, _, hs, searched, _⟩ := id unpacks
  have accepted : search.filters.selects name true := by
    rcases id shares with rfl | ⟨earlier, _⟩
    · exact accepting s search hs searched name
    · exact passes.accepted j earlier shares unpacks s search hs searched
  obtain ⟨k, shares', new⟩ := unpacks.visits h hs searched passes.packs accepted
  exact ⟨k, shares.trans shares', new⟩

/-- **An unpacked bundle leaves behind what it leads to.** If the filters of a section accept every
name as required, and the section unpacks a bundle, then this section or an earlier one that it
shares its walk with has selected every module that the bundle leads to, that is found and that is
not unpacked itself. Where an earlier section has unpacked a bundle on the way, it has to accept
what comes next. So a bundle is lost only if it leads to nothing of this kind. -/
theorem resolve_unpacks (h : (d.resolve pool ignoreMissing).Yields r) {t : ResolvedSection}
    (ht : r.sections[i]? = some t) {filters : FilterList}
    (parsed : FilterList.parse t.definition.filters = .ok filters)
    (accepting : ∀ name, filters.selects name true)
    (unpacked : d.Unpacks pool ignoreMissing i bundle)
    (leads : TransGen (d.Passes pool ignoreMissing i) bundle name)
    (available : pool.Available name) :
    ∃ j, d.Shares i j ∧ ∃ u, r.sections[j]? = some u ∧ name ∈ u.modules := by
  have accepting : ∀ s search, d.sections[i]? = some s →
      s.search pool ignoreMissing = .ok search → ∀ name, search.filters.selects name true := by
    intro s search hs searched
    cases hs.symm.trans (getElem?_definition h ht)
    obtain ⟨filters', parsed', rfl⟩ := Section.search_eq_ok.1 searched
    cases parsed.symm.trans parsed'
    exact accepting
  obtain ⟨info, found, whole⟩ := available
  -- one step of the way after the other is visited
  have visited : ∃ j, d.Shares i j ∧ name ∈ d.newlyVisited pool ignoreMissing j := by
    clear found whole
    induction leads with
    | single passes => exact passes.visits h (.inl rfl) accepting unpacked.1
    | tail _ passes ih =>
      obtain ⟨j, shares, new⟩ := ih
      exact passes.visits h shares accepting new
  obtain ⟨j, shares, new⟩ := visited
  rcases selected_or_unpacked h new (by rw [found]; rfl) with selected | unpacks
  · exact ⟨j, shares, selected⟩
  · obtain ⟨_, again, unpackable⟩ := unpacks.unpackable
    cases found.symm.trans again
    exact absurd unpackable whole

end Definition

namespace Vendored

theorem accepting (name : String) :
    FilterList.selects [⟨true, .directory "vendor/"⟩] name true := rfl

theorem unpacks : definition.Unpacks pool true 0 bundle.name := by
  obtain ⟨_, _, searched, _, ⟨closed, _⟩, _⟩ := Definition.selects_least resolves (i := 0) rfl
  cases searched
  refine ⟨closed.root _ (by decide +kernel) (by decide +kernel) ?_, vendor, search, bundle, rfl,
    rfl, rfl, by decide +kernel⟩
  rintro ⟨_, j, hj, _⟩
  exact absurd hj (Nat.not_lt_zero j)

theorem passes : definition.Passes pool true 0 bundle.name "lib/mod2.js" where
  packs := by
    obtain ⟨_, found, unpackable⟩ := unpacks.unpackable
    cases found
    exact ⟨bundle, rfl, unpackable, "lib/mod2", by decide, by decide +kernel⟩
  accepted := fun j earlier => absurd earlier (Nat.not_lt_zero j)

/-- The bundle gives way to a module that is selected. -/
theorem bundle_replaced : (definition.resolve pool true).Yields resolved ∧
    definition.Unpacks pool true 0 bundle.name ∧
    TransGen (definition.Passes pool true 0) bundle.name "lib/mod2.js" ∧
    pool.Available "lib/mod2.js" ∧
    ∃ j, definition.Shares 0 j ∧ ∃ u, resolved.sections[j]? = some u ∧
      "lib/mod2.js" ∈ u.modules := by
  have leads : TransGen (definition.Passes pool true 0) bundle.name "lib/mod2.js" := .single passes
  have available : pool.Available "lib/mod2.js" := by
    refine ⟨_, rfl, fun unpackable => ?_⟩
    obtain ⟨_, _, mem, _⟩ := unpackable
    cases mem
  refine ⟨resolves, unpacks, leads, available, ?_⟩
  exact Definition.resolve_unpacks resolves (i := 0) rfl rfl accepting unpacks leads available

end Vendored

/-! ## A bundle that contains a module of its own name -/

namespace Eponymous

def d3 : ModuleInfo := { name := "vendor/d3.js", subModules := ["d3/array", "vendor/d3"] }

def pool : Pool := .ofResources [{ name := d3.name, content := [59], info := some d3 }]

def vendor : Section := { filters := ["vendor/"] }

def search : Search := ⟨pool, true, vendor, [⟨true, .directory "vendor/"⟩]⟩

def definition : Definition := { sections := [vendor] }

def resolved : Resolved := ⟨definition, [⟨vendor, []⟩]⟩

/-- The bundle is unpacked because the pool has a module of its name: the bundle. -/
theorem walks : ∃ reached, search.Walks {} search.roots reached ∧
    reached.selected.names = [] ∧ d3.name ∈ reached.visited := by
  have roots : search.roots = [⟨d3.name, [], false⟩] := by decide +kernel
  refine ⟨?reached, ?walk, ?selected, ?visited⟩
  case walk =>
    rw [roots]
    have found : search.pool.record? d3.name = some d3 := rfl
    refine .unpacked (by decide) (by decide +kernel) found (by decide +kernel) ?_
    have inner : Search.subModules ⟨d3.name, [], false⟩ d3 =
        [⟨"d3/array.js", [d3.name], false⟩, ⟨d3.name, [d3.name], false⟩] := by
      decide +kernel
    rw [inner, List.append_nil]
    refine .missing (by decide) (by decide +kernel) rfl (.inl rfl) ?_
    refine .repeated (by decide) ?_
    exact .done
  case selected => rfl
  case visited => decide

theorem resolves : (definition.resolve pool true).Yields resolved := by
  obtain ⟨reached, walks, selected, _⟩ := walks
  refine Definition.resolve_yields.2 ⟨rfl, reached, ?_⟩
  refine ResolvedSection.ofSections_cons.2 ⟨_, _, ?_, _, Run.pure_yields.2 rfl, rfl⟩
  exact ResolvedSection.ofSection_of_walks rfl (by decide) rfl walks selected

theorem unpacks : definition.Unpacks pool true 0 d3.name := by
  obtain ⟨_, walks, _, visited⟩ := walks
  exact Definition.unpacks_of_walks walks visited rfl rfl rfl (by decide +kernel)

/-- Neither the bundle nor anything that it contains is left. -/
theorem d3_lost : (definition.resolve pool true).Yields resolved ∧
    (∃ filters, FilterList.parse vendor.filters = .ok filters ∧
      ∀ name, filters.selects name true) ∧
    definition.Unpacks pool true 0 d3.name ∧
    ∀ name j u, definition.Shares 0 j → resolved.sections[j]? = some u → name ∉ u.modules := by
  refine ⟨resolves, ⟨search.filters, rfl, fun _ => rfl⟩, unpacks, ?_⟩
  intro name j u shares hu
  rcases shares with rfl | ⟨earlier, _⟩
  · cases hu
    exact List.not_mem_nil
  · exact absurd earlier (Nat.not_lt_zero j)

end Eponymous

end Bundler
