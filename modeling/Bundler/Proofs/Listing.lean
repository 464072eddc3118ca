import Bundler.Proofs.Parts
import Mathlib.Data.List.Flatten

/-!
# Resolving what is resolved already

The parts of a definition list their modules by name, and these lists are read as filters when a
part is resolved in its turn. `split_resolve` says that every section of a part resolves to its
list:

* `Walks.listed`: a section that lists its modules and follows nothing selects them as listed;
* `Section.Settled`: what a list needs for that, which is what resolved sections provide;
* `ResolvedSection.ofSections_settled`: sections that share no module leave each other alone.
-/

namespace Bundler

namespace Search

variable {s : Search} {w : Walk}

/-! ## Walking a list -/

theorem successors_of_still (resolve : s.criteria.resolve = false)
    (renderer : s.criteria.renderer = false) (v : Visit) (info : ModuleInfo) :
    s.successors v info = [] := by
  have none : info.dependencies.names.filter (s.follows info) = [] := by
    apply List.filter_eq_nil_iff.2
    intro d _
    simp [follows, resolve]
  rw [successors, dependencies, none, Search.renderer, renderer]
  rfl

/-- Names that are found for the first time are selected as they are listed. -/
theorem Walks.listed (resolve : s.criteria.resolve = false) (renderer : s.criteria.renderer = false)
    {names : List String} (nodup : names.Nodup) (fresh : ∀ name ∈ names, name ∉ w.visited)
    (accepted : ∀ name ∈ names, s.filters.selects name false)
    (emitted : ∀ name ∈ names, s.Emits name) (sound : w.Sound) :
    ∃ w', s.Walks w (names.map fun name => { name }) w' ∧
      w'.selected.names = w.selected.names ++ names ∧
      ∀ name, name ∈ w'.visited ↔ name ∈ w.visited ∨ name ∈ names := by
  induction names generalizing w with
  | nil => exact ⟨w, .done, (List.append_nil _).symm, by simp⟩
  | cons first rest ih =>
    obtain ⟨new, nodup⟩ := List.nodup_cons.1 nodup
    obtain ⟨info, found, kept⟩ := emitted first List.mem_cons_self
    have hfirst := fresh first List.mem_cons_self
    have fresh' : ∀ name ∈ rest, name ∉ ((w.visit first).select first).visited := by
      intro name hn visited
      rcases Walk.mem_visit.1 visited with before | rfl
      · exact fresh name (List.mem_cons_of_mem _ hn) before
      · exact new hn
    obtain ⟨w', walks, names, visited⟩ := ih nodup fresh'
      (fun name hn => accepted name (List.mem_cons_of_mem _ hn))
      (fun name hn => emitted name (List.mem_cons_of_mem _ hn)) sound.select
    refine ⟨w', ?_, ?_, fun name => ?_⟩
    · rw [List.map_cons]
      refine .selected hfirst (accepted first List.mem_cons_self) found kept ?_
      rwa [successors_of_still resolve renderer, List.nil_append]
    · rw [names, Walk.select_names fun h => hfirst (sound _ h), List.append_assoc]
      rfl
    · rw [visited, Walk.select_visited, Walk.mem_visit, List.mem_cons, or_assoc]

/-- Roots that are not accepted leave no trace. -/
theorem Walks.rejecting {names : List String}
    (rejected : ∀ name ∈ names, ¬s.filters.selects name false) :
    s.Walks w (names.map fun name => { name }) w := by
  induction names with
  | nil => exact .done
  | cons first rest ih =>
    have ih := ih fun name hn => rejected name (List.mem_cons_of_mem _ hn)
    by_cases again : first ∈ w.visited
    · exact .repeated again ih
    · exact .rejected again (rejected first List.mem_cons_self) ih

/-- A search for listed names selects them, also where the list is empty and all names of the pool
are roots. -/
theorem Walks.roots_listed (resolve : s.criteria.resolve = false)
    (renderer : s.criteria.renderer = false) {names : List String}
    (filters : s.filters = names.map Filter.listing)
    (listable : ∀ name ∈ names, Name.Listable name) (nodup : names.Nodup)
    (fresh : ∀ name ∈ names, name ∉ w.visited) (emitted : ∀ name ∈ names, s.Emits name)
    (sound : w.Sound) :
    ∃ w', s.Walks w s.roots w' ∧ w'.selected.names = w.selected.names ++ names ∧
      ∀ name, name ∈ w'.visited ↔ name ∈ w.visited ∨ name ∈ names := by
  by_cases empty : names = []
  · subst empty
    refine ⟨w, ?_, (List.append_nil _).symm, by simp⟩
    apply Walks.rejecting
    intro name _
    rw [filters]
    exact Bool.false_ne_true
  · have roots : s.roots = names.map fun name => { name } := by
      rw [Search.roots, filters, FilterList.resources?_listing listable empty]
      rfl
    rw [roots]
    refine Walks.listed resolve renderer nodup fresh (fun name hn => ?_) emitted sound
    rw [filters]
    exact FilterList.selects_listing listable hn

end Search

/-! ## Settled sections -/

/-- The section lists modules of the pool that resolve to themselves, in an order that sorting
keeps. -/
structure Section.Settled (pool : Pool) (s : Section) : Prop where
  resolve : s.resolve = false
  renderer : s.renderer = false
  listable : ∀ name ∈ s.filters, Name.Listable name
  nodup : s.filters.Nodup
  emitted : ∀ search : Search, search.pool = pool → ∀ name ∈ s.filters, search.Emits name
  arranged : ∀ search : Search, search.pool = pool → search.criteria = s →
    (search.arrange s.filters).Yields s.filters

namespace ResolvedSection

variable {pool : Pool} {ignoreMissing : Bool} {w : Walk}

theorem ofSection_settled {s : Section} (settled : s.Settled pool) (sound : w.Sound)
    (fresh : s.mode ≠ .require → ∀ name ∈ s.filters, name ∉ w.visited) :
    ∃ w', (ofSection pool ignoreMissing w s).Yields (w', ⟨s, s.filters⟩) ∧ w'.Sound ∧
      ∀ name, name ∈ w'.visited ↔
        name ∈ w.visited ∨ s.mode ≠ .require ∧ name ∈ s.filters := by
  let search : Search := ⟨pool, ignoreMissing, s, s.filters.map Filter.listing⟩
  have parsed : s.search pool ignoreMissing = .ok search :=
    Section.search_eq_ok.2 ⟨_, FilterList.parse_listable settled.listable, rfl⟩
  have fresh : ∀ name ∈ s.filters, name ∉ (search.start w).visited := by
    intro name hn
    unfold Search.start
    split
    · exact List.not_mem_nil
    · exact fresh ‹_› name hn
  obtain ⟨reached, walks, names, visited⟩ := Search.Walks.roots_listed (s := search)
    settled.resolve settled.renderer rfl settled.listable settled.nodup fresh
    (settled.emitted search rfl) (search.start_sound sound)
  have collected := Search.collect_yields.2 ⟨reached, walks.yields, rfl, rfl⟩
  rw [names, List.drop_left] at collected
  have yields := ofSection_yields.2
    ⟨search, parsed, s.filters, collected, s.filters, settled.arranged search rfl rfl, rfl⟩
  refine ⟨_, yields, ?_, fun name => ?_⟩
  · obtain ⟨_, _, _, _, outcome⟩ := ofSection_outcome sound yields
    exact outcome.sound
  · by_cases require : s.mode = .require
    · rw [if_pos require]
      exact (or_iff_left fun other => other.1 require).symm
    · rw [if_neg require, visited, Search.start, if_neg require, and_iff_right require]

/-- Settled sections resolve to their lists if no two of them share a module. Require sections may,
as each is searched on its own. -/
theorem ofSections_settled {sections : List Section} (settled : ∀ s ∈ sections, s.Settled pool)
    (sound : w.Sound)
    (nodup : ((sections.filter (·.mode ≠ .require)).flatMap (·.filters)).Nodup)
    (fresh : ∀ name ∈ (sections.filter (·.mode ≠ .require)).flatMap (·.filters),
      name ∉ w.visited) :
    ∃ w', (ofSections pool ignoreMissing w sections).Yields
      (w', sections.map fun s => ⟨s, s.filters⟩) := by
  induction sections generalizing w with
  | nil => exact ⟨w, Run.pure_yields.2 rfl⟩
  | cons s rest ih =>
    have own : s.mode ≠ .require → (∀ name ∈ s.filters, name ∉ w.visited) ∧
        ∀ name ∈ (rest.filter (·.mode ≠ .require)).flatMap (·.filters), name ∉ s.filters := by
      intro other
      have shared : (s :: rest).filter (·.mode ≠ .require) =
          s :: rest.filter (·.mode ≠ .require) := List.filter_cons_of_pos (decide_eq_true other)
      rw [shared, List.flatMap_cons] at nodup fresh
      refine ⟨fun name hn => fresh name (List.mem_append_left _ hn), fun name hn hs => ?_⟩
      exact (List.nodup_append.1 nodup).2.2 name hs name hn rfl
    have tail : (rest.filter (·.mode ≠ .require)).Sublist
        ((s :: rest).filter (·.mode ≠ .require)) := (List.sublist_cons_self s rest).filter _
    obtain ⟨next, first, sound', visited⟩ := @ofSection_settled pool ignoreMissing w s
      (settled s List.mem_cons_self) sound fun other => (own other).1
    obtain ⟨w', later⟩ := ih (fun t ht => settled t (List.mem_cons_of_mem _ ht)) sound'
      (nodup.sublist (tail.flatMap _)) fun name hn visited' => by
        rcases (visited name).1 visited' with before | ⟨other, hs⟩
        · exact fresh name ((tail.flatMap _).subset hn) before
        · exact (own other).2 name hn hs
    exact ⟨w', ofSections_cons.2 ⟨next, _, first, _, later, rfl⟩⟩

/-! ## Lists of resolved sections -/

theorem arrange_listing {search search' : Search} (pool : search'.pool = search.pool)
    {t : ResolvedSection} (criteria : search.criteria = t.definition) {modules : List String}
    (listing : search'.criteria = t.listing modules) : search'.arrange = search.arrange := by
  funext names
  unfold Search.arrange
  rw [pool, criteria, listing]
  have sorted : ((t.listing modules).mode = .raw && (t.listing modules).sort) =
      (t.definition.mode = .raw && t.definition.sort) := by
    show (t.definition.mode = .raw && (t.definition.mode = .raw && t.definition.sort)) = _
    rw [← Bool.and_assoc, Bool.and_self]
  rw [sorted]

theorem emits_of_pool {search search' : Search} (pool : search'.pool = search.pool) {name : String}
    (h : search.Emits name) : search'.Emits name := by
  unfold Search.Emits Search.unpacks at h ⊢
  rwa [pool]

/-- What a resolved section lists is settled. -/
theorem Lists.settled {t : ResolvedSection} {definition s : Section} {w' : Walk} (h : t.Lists s)
    (sound : w.Sound) (resolved : (ofSection pool ignoreMissing w definition).Yields (w', t))
    (listable : ∀ name ∈ t.modules, Name.Listable name) : s.Settled pool := by
  obtain ⟨modules, rfl, sublist, whole⟩ := h
  obtain ⟨search, parsed, collection, collected, arranged, arrange, rfl⟩ :=
    ofSection_yields.1 resolved
  obtain ⟨_, outcome⟩ := search.outcome sound collected arrange
  have searched : search.pool = pool ∧ search.criteria = definition := by
    obtain ⟨_, _, rfl⟩ := Section.search_eq_ok.1 parsed
    exact ⟨rfl, rfl⟩
  refine ⟨rfl, rfl, ?_, outcome.nodup.sublist sublist, ?_, ?_⟩
  · intro name hn
    exact listable name (sublist.subset hn)
  · intro other pool name hn
    have emits := ((outcome.mem name).1 (sublist.subset hn)).2
    exact emits_of_pool (pool.trans searched.1.symm) emits
  · intro other pool criteria
    rw [arrange_listing (pool.trans searched.1.symm) searched.2 criteria]
    by_cases raw : definition.mode = .raw
    · have all : modules = arranged := whole fun preload => by cases raw.symm.trans preload
      rw [all]
      exact Search.arrange_idempotent (Search.collect_nodup collected) arrange
    · have unsorted : ¬((definition.mode = .raw && definition.sort) = true) := by simp [raw]
      unfold Search.arrange
      rw [searched.2, if_neg unsorted]
      exact Run.pure_yields.2 rfl

end ResolvedSection

/-! ## Main statement -/

namespace Definition

/-- A definition of settled sections resolves to their lists. -/
theorem resolve_settled {d : Definition} {pool : Pool} {ignoreMissing : Bool}
    (settled : ∀ s ∈ d.sections, s.Settled pool)
    (nodup : ((d.sections.filter (·.mode ≠ .require)).flatMap (·.filters)).Nodup) :
    (d.resolve pool ignoreMissing).Yields ⟨d, d.sections.map fun s => ⟨s, s.filters⟩⟩ := by
  obtain ⟨w, sections⟩ := ResolvedSection.ofSections_settled settled Walk.sound_empty nodup
    fun name _ => List.not_mem_nil
  exact resolve_yields.2 ⟨rfl, w, sections⟩

theorem part_sublist {parts : List Definition} {part : Definition} (h : part ∈ parts) :
    ((part.sections.filter (·.mode ≠ .require)).flatMap (·.filters)).Sublist
      ((placed parts).flatMap (·.2.filters)) := by
  obtain ⟨i, hi, get⟩ := List.getElem_of_mem h
  have mem : (part, i) ∈ parts.zipIdx :=
    List.mk_mem_zipIdx_iff_getElem?.2 (List.getElem?_eq_some_iff.2 ⟨hi, get⟩)
  have sublist :
      ((part.sections.filter (·.mode ≠ .require)).map (i, ·)).Sublist (placed parts) := by
    rw [placed, List.flatMap]
    exact List.sublist_flatten_of_mem (List.mem_map_of_mem mem)
  have filters := sublist.flatMap (·.2.filters)
  rwa [List.flatMap_map] at filters

theorem distributed_nodup {d : Definition} {pool : Pool} {ignoreMissing : Bool} {r : Resolved}
    (h : (d.resolve pool ignoreMissing).Yields r) :
    ((ResolvedSection.distributed r.sections).flatMap (·.modules)).Nodup := by
  obtain ⟨_, w, all⟩ := resolve_yields.1 h
  have sublist : (ResolvedSection.distributed r.sections).Sublist
      (ResolvedSection.shared r.sections) := by
    apply List.monotone_filter_right
    intro s hs
    simp only [decide_eq_true_eq] at hs ⊢
    exact hs.2
  exact (ResolvedSection.ofSections_nodup Walk.sound_empty all).1.sublist (sublist.flatMap _)

theorem IsSplit.resolve {d : Definition} {pool : Pool} {ignoreMissing : Bool} {r : Resolved}
    {limit : Nat} {configuration : Option Configuration} {parts : List Definition}
    (split : IsSplit limit configuration r.sections parts)
    (resolved : (d.resolve pool ignoreMissing).Yields r)
    (listable : ∀ t ∈ r.sections, ∀ name ∈ t.modules, Name.Listable name) {part : Definition}
    (hp : part ∈ parts) (lenient : Bool) :
    (part.resolve pool lenient).Yields ⟨part, part.sections.map fun s => ⟨s, s.filters⟩⟩ := by
  obtain ⟨_, _, all⟩ := resolve_yields.1 resolved
  have settled : ∀ s ∈ part.sections, s.Settled pool := by
    intro s hs
    obtain ⟨t, ht, lists⟩ := split.lists hp hs
    obtain ⟨_, _, _, sound, this⟩ := ResolvedSection.ofSections_each Walk.sound_empty all t ht
    exact lists.settled sound this (listable t ht)
  have nodup : ((part.sections.filter (·.mode ≠ .require)).flatMap (·.filters)).Nodup := by
    apply List.Nodup.sublist (part_sublist hp)
    rw [split.placed_modules]
    exact distributed_nodup resolved
  exact resolve_settled settled nodup

/-- **Parts resolve to what they list.** If every resolved module has a name that can be listed,
then each part of the definition resolves against the same pool, without fault even where nothing
may be missing, and each of its sections to the modules in its filters, in that order. -/
theorem split_resolve {d : Definition} {source : Source} {ignoreMissing : Bool} {limit : Nat}
    {parts : List Definition} {r : Resolved}
    (h : (d.split source ignoreMissing limit).Yields parts)
    (resolved : (d.resolve source.pool ignoreMissing).Yields r)
    (listable : ∀ t ∈ r.sections, ∀ name ∈ t.modules, Name.Listable name) :
    ∀ part ∈ parts, ∀ lenient, (part.resolve source.pool lenient).Yields
      ⟨part, part.sections.map fun s => ⟨s, s.filters⟩⟩ := by
  obtain ⟨r', again, split⟩ := split_isSplit h
  cases resolved.unique again
  exact fun part hp => split.resolve resolved listable hp

end Definition

namespace Vendored

theorem splits_resolve : ∃ parts, (definition.split { pool } true 2).Yields parts ∧
    parts.length = 2 ∧ ∀ part ∈ parts, (part.resolve pool false).Yields
      ⟨part, part.sections.map fun s => ⟨s, s.filters⟩⟩ := by
  obtain ⟨parts, split, sections⟩ := splits
  have listable : ∀ t ∈ resolved.sections, ∀ name ∈ t.modules, Name.Listable name := by
    decide +kernel
  refine ⟨parts, split, ?_, fun part hp => ?_⟩
  · simpa using congrArg List.length sections
  · exact Definition.split_resolve split resolves listable part hp false

end Vendored

end Bundler
