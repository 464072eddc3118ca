import Bundler.Proofs.Filters
import Bundler.Proofs.LoadOrder
import Bundler.Proofs.Reach
import Mathlib.Order.Bounds.Basic

/-!
# What sections select

A resolution searches its sections one after the other, and each continues the walk of those before
it. `Search.Outcome` says what one section comes to; `resolve_selects_least` says it of all sections
of a definition, without any order of visits: section by section, the names newly visited are the
least closed set outside of what was visited before.
-/

namespace Bundler

namespace Search

/-- The walk that a section continues. Require sections are searched each on its own. -/
def start (s : Search) (w : Walk) : Walk := if s.criteria.mode = .require then {} else w

theorem start_sound (s : Search) {w : Walk} (h : w.Sound) : (s.start w).Sound := by
  unfold start
  split
  · exact Walk.sound_empty
  · exact h

theorem collect_yields {s : Search} {w w' : Walk} {modules : List String} :
    (s.collect w).Yields (w', modules) ↔ ∃ reached, (s.walk (s.start w) s.roots).Yields reached ∧
      w' = (if s.criteria.mode = .require then { w with repeats := w.repeats + reached.repeats }
        else reached) ∧
      modules = reached.selected.names.drop (s.start w).selected.names.length := by
  unfold collect start
  split <;>
  · rw [Run.bind_yields]
    refine exists_congr fun reached => and_congr_right fun _ => ?_
    rw [Run.pure_yields, Prod.mk.injEq]
    exact and_congr eq_comm eq_comm

/-- Only the order of the modules of a section depends on whether it is sorted. -/
theorem arrange_perm {s : Search} {modules arranged : List String} (nodup : modules.Nodup)
    (h : (s.arrange modules).Yields arranged) : arranged.Perm modules := by
  unfold arrange at h
  split at h
  · obtain ⟨g, graph, order⟩ := Run.bind_yields.1 h
    rw [← ModuleGraph.loadOrder_yields.1 order]
    exact ModuleGraph.ofPool_order_perm nodup graph
  · exact Run.pure_yields.1 h ▸ .refl _

/-- Modules that are arranged already stay as they are. -/
theorem arrange_idempotent {s : Search} {modules arranged : List String} (nodup : modules.Nodup)
    (h : (s.arrange modules).Yields arranged) : (s.arrange arranged).Yields arranged := by
  unfold arrange at h ⊢
  split at h
  · rename_i sorted
    obtain ⟨g, graph, order⟩ := Run.bind_yields.1 h
    rw [ModuleGraph.loadOrder_yields] at order
    obtain ⟨g', graph', layout⟩ := ModuleGraph.loadOrder_idempotent nodup graph
    rw [order] at graph'
    rw [if_pos sorted]
    exact Run.bind_yields.2 ⟨g', graph', ModuleGraph.loadOrder_yields.2 (layout ▸ order)⟩
  · rename_i unsorted
    rw [if_neg unsorted]
    exact Run.pure_yields.2 rfl

/-- What a section comes to that is searched from the walk `w`: its own search ends with `reached`,
and the next section continues `w'`. -/
structure Outcome (s : Search) (w reached w' : Walk) (modules : List String) : Prop where
  walk : (s.walk (s.start w) s.roots).Yields reached
  seen : w'.seen = if s.criteria.mode = .require then w.seen else reached.seen
  sound : w'.Sound
  nodup : modules.Nodup
  mem : ∀ name, name ∈ modules ↔ name ∈ (s.start w).newly reached ∧ s.Emits name

theorem collect_nodup {s : Search} {w w' : Walk} {modules : List String}
    (collected : (s.collect w).Yields (w', modules)) : modules.Nodup := by
  obtain ⟨reached, _, _, rfl⟩ := collect_yields.1 collected
  exact reached.selected.nodup.sublist (List.drop_sublist _ _)

theorem outcome {s : Search} {w w' : Walk} {modules arranged : List String} (sound : w.Sound)
    (collected : (s.collect w).Yields (w', modules))
    (h : (s.arrange modules).Yields arranged) : ∃ reached, s.Outcome w reached w' arranged := by
  have nodup := collect_nodup collected
  obtain ⟨reached, walk, next, selected⟩ := collect_yields.1 collected
  have walks := walks_of_yields walk
  obtain ⟨new, names, hnew⟩ := walks.selected_names (s.start_sound sound)
  rw [names, List.drop_left] at selected
  have perm := arrange_perm nodup h
  refine ⟨reached, walk, ?_, ?_, perm.nodup_iff.2 nodup, fun name => ?_⟩
  · rw [next]
    split <;> rfl
  · rw [next]
    split
    · exact sound
    · exact walks.sound (s.start_sound sound)
  · rw [perm.mem_iff, ← hnew]
    exact selected ▸ Iff.rfl

end Search

theorem Section.search_eq_ok {pool : Pool} {ignoreMissing : Bool} {s : Section} {search : Search} :
    s.search pool ignoreMissing = .ok search ↔
      ∃ filters, FilterList.parse s.filters = .ok filters ∧
        search = { pool, ignoreMissing, criteria := s, filters } := by
  unfold Section.search
  cases FilterList.parse s.filters with
  | error e => simp [Except.map]
  | ok filters => simp [Except.map, eq_comm]

namespace ResolvedSection

variable {pool : Pool} {ignoreMissing : Bool} {w w' : Walk}

theorem ofSection_yields {s : Section} {resolved : ResolvedSection} :
    (ofSection pool ignoreMissing w s).Yields (w', resolved) ↔
      ∃ search, s.search pool ignoreMissing = .ok search ∧
        ∃ modules, (search.collect w).Yields (w', modules) ∧
          ∃ arranged, (search.arrange modules).Yields arranged ∧ resolved = ⟨s, arranged⟩ := by
  unfold ofSection
  simp only [Run.bind_yields, Run.ofExcept_yields, Run.pure_yields, Prod.exists, Prod.mk.injEq,
    Run.log1_yields, true_and, exists_const]
  constructor
  · rintro ⟨search, parsed, w'', modules, collected, arranged, sorted, rfl, rfl⟩
    exact ⟨search, parsed, modules, collected, arranged, sorted, rfl⟩
  · rintro ⟨search, parsed, modules, collected, arranged, sorted, rfl⟩
    exact ⟨search, parsed, w', modules, collected, arranged, sorted, rfl, rfl⟩

/-- Unless it is sorted, a section that shares its walk resolves to what its search adds. -/
theorem ofSection_of_walks {s : Section} {search : Search} {modules : List String}
    (searched : s.search pool ignoreMissing = .ok search) (shared : s.mode ≠ .require)
    (unsorted : s.sort = false) (walks : search.Walks w search.roots w')
    (selected : w'.selected.names.drop w.selected.names.length = modules) :
    (ofSection pool ignoreMissing w s).Yields (w', ⟨s, modules⟩) := by
  obtain ⟨filters, _, rfl⟩ := Section.search_eq_ok.1 searched
  refine ofSection_yields.2 ⟨_, searched, modules, ?collected, modules, ?arranged, rfl⟩
  case collected =>
    have start : Search.start { pool, ignoreMissing, criteria := s, filters } w = w := if_neg shared
    refine Search.collect_yields.2 ⟨w', ?_, (if_neg shared).symm, ?_⟩
    · rw [start]
      exact walks.yields
    · rw [start, selected]
  case arranged =>
    unfold Search.arrange
    rw [if_neg (by simp [unsorted])]
    exact Run.pure_yields.2 rfl

theorem ofSections_cons {s : Section} {rest : List Section} {all : List ResolvedSection} :
    (ofSections pool ignoreMissing w (s :: rest)).Yields (w', all) ↔
      ∃ next resolved, (ofSection pool ignoreMissing w s).Yields (next, resolved) ∧
        ∃ others, (ofSections pool ignoreMissing next rest).Yields (w', others) ∧
          all = resolved :: others := by
  rw [ofSections]
  simp only [Run.bind_yields, Run.pure_yields, Prod.exists, Prod.mk.injEq]
  constructor
  · rintro ⟨next, resolved, first, _, others, later, rfl, rfl⟩
    exact ⟨next, resolved, first, others, later, rfl⟩
  · rintro ⟨next, resolved, first, others, later, rfl⟩
    exact ⟨next, resolved, first, w', others, later, rfl, rfl⟩

theorem ofSections_append {first later : List Section} {all : List ResolvedSection} :
    (ofSections pool ignoreMissing w (first ++ later)).Yields (w', all) ↔
      ∃ next before, (ofSections pool ignoreMissing w first).Yields (next, before) ∧
        ∃ after, (ofSections pool ignoreMissing next later).Yields (w', after) ∧
          all = before ++ after := by
  induction first generalizing w all with
  | nil =>
    rw [List.nil_append, ofSections]
    simp only [Run.pure_yields, Prod.mk.injEq]
    constructor
    · intro h
      exact ⟨w, [], ⟨rfl, rfl⟩, all, h, rfl⟩
    · rintro ⟨_, _, ⟨rfl, rfl⟩, after, h, rfl⟩
      exact h
  | cons s rest ih =>
    rw [List.cons_append]
    simp only [ofSections_cons, ih]
    constructor
    · rintro ⟨next, resolved, hs, _, ⟨next', before, hb, after, ha, rfl⟩, rfl⟩
      exact ⟨next', _, ⟨next, resolved, hs, before, hb, rfl⟩, after, ha, rfl⟩
    · rintro ⟨next', _, ⟨next, resolved, hs, before, hb, rfl⟩, after, ha, rfl⟩
      exact ⟨next, resolved, hs, _, ⟨next', before, hb, after, ha, rfl⟩, rfl⟩

theorem ofSection_outcome {s : Section} {resolved : ResolvedSection} (sound : w.Sound)
    (h : (ofSection pool ignoreMissing w s).Yields (w', resolved)) :
    ∃ search, s.search pool ignoreMissing = .ok search ∧ resolved.definition = s ∧
      ∃ reached, search.Outcome w reached w' resolved.modules := by
  obtain ⟨search, parsed, modules, collected, arranged, sorted, rfl⟩ := ofSection_yields.1 h
  exact ⟨search, parsed, rfl, search.outcome sound collected sorted⟩

theorem ofSections_sound {sections : List Section} {all : List ResolvedSection} (sound : w.Sound)
    (h : (ofSections pool ignoreMissing w sections).Yields (w', all)) :
    w'.Sound ∧ all.map (·.definition) = sections := by
  induction sections generalizing w all with
  | nil =>
    rw [ofSections, Run.pure_yields] at h
    cases h
    exact ⟨sound, rfl⟩
  | cons s rest ih =>
    obtain ⟨next, resolved, first, others, later, rfl⟩ := ofSections_cons.1 h
    obtain ⟨_, _, definition, _, outcome⟩ := ofSection_outcome sound first
    obtain ⟨sound', definitions⟩ := ih outcome.sound later
    exact ⟨sound', by rw [List.map_cons, definition, definitions]⟩

/-- Every section has been resolved in its turn. -/
theorem ofSections_each {sections : List Section} {all : List ResolvedSection} {w' : Walk}
    (sound : w.Sound) (h : (ofSections pool ignoreMissing w sections).Yields (w', all)) :
    ∀ t ∈ all, ∃ s before after, before.Sound ∧
      (ofSection pool ignoreMissing before s).Yields (after, t) := by
  induction sections generalizing w all with
  | nil =>
    cases Run.pure_yields.1 h
    simp
  | cons s rest ih =>
    obtain ⟨next, resolved, first, others, later, rfl⟩ := ofSections_cons.1 h
    obtain ⟨_, _, _, _, outcome⟩ := ofSection_outcome sound first
    intro t ht
    rcases List.mem_cons.1 ht with rfl | ht
    · exact ⟨s, w, next, sound, first⟩
    · exact ih outcome.sound later t ht

end ResolvedSection

namespace Definition

variable {d : Definition} {pool : Pool} {ignoreMissing : Bool} {r : Resolved}

theorem resolve_yields :
    (d.resolve pool ignoreMissing).Yields r ↔ r.definition = d ∧
      ∃ w,
        (ResolvedSection.ofSections pool ignoreMissing {} d.sections).Yields (w, r.sections) := by
  obtain ⟨definition, sections⟩ := r
  unfold resolve
  rw [Run.log1_bind_yields, Run.bind_yields]
  constructor
  · rintro ⟨⟨w, resolved⟩, h, last⟩
    dsimp only at last
    split at last
    · rw [Run.log1_bind_yields, Run.pure_yields] at last
      cases last
      exact ⟨rfl, w, h⟩
    · cases Run.pure_yields.1 last
      exact ⟨rfl, w, h⟩
  · rintro ⟨rfl, w, h⟩
    refine ⟨_, h, ?_⟩
    dsimp only
    split
    · rw [Run.log1_bind_yields, Run.pure_yields]
    · exact Run.pure_yields.2 rfl

/-- A definition of one section has what the walk from its roots selects. -/
theorem resolve_of_walks {s : Section} {search : Search} {w : Walk} {modules : List String}
    (one : d.sections = [s]) (searched : s.search pool ignoreMissing = .ok search)
    (shared : s.mode ≠ .require) (unsorted : s.sort = false)
    (walks : search.Walks {} search.roots w) (selected : w.selected.names = modules) :
    (d.resolve pool ignoreMissing).Yields ⟨d, [⟨s, modules⟩]⟩ := by
  refine resolve_yields.2 ⟨rfl, w, ?_⟩
  rw [one]
  refine ResolvedSection.ofSections_cons.2 ⟨w, _, ?_, _, Run.pure_yields.2 rfl, rfl⟩
  exact ResolvedSection.ofSection_of_walks searched shared unsorted walks selected

theorem resolve_definitions (h : (d.resolve pool ignoreMissing).Yields r) :
    r.sections.map (·.definition) = d.sections := by
  obtain ⟨_, _, all⟩ := resolve_yields.1 h
  exact (ResolvedSection.ofSections_sound Walk.sound_empty all).2

theorem getElem?_definition (h : (d.resolve pool ignoreMissing).Yields r) {i : Nat}
    {t : ResolvedSection} (ht : r.sections[i]? = some t) : d.sections[i]? = some t.definition := by
  rw [← resolve_definitions h, List.getElem?_map, ht]
  rfl

/-! ## The names visited section by section -/

/-- The walk that the section with this index continues. -/
def walkBefore (d : Definition) (pool : Pool) (ignoreMissing : Bool) (i : Nat) : Walk :=
  match (ResolvedSection.ofSections pool ignoreMissing {} (d.sections.take i)).result with
  | .ok (w, _) => w
  | .error _ => {}

/-- The names that the search of the section with this index visits first. -/
def newlyVisited (d : Definition) (pool : Pool) (ignoreMissing : Bool) (i : Nat) : Set String :=
  {name | ∃ s search reached, d.sections[i]? = some s ∧ s.search pool ignoreMissing = .ok search ∧
    (search.walk (search.start (d.walkBefore pool ignoreMissing i)) search.roots).Yields reached ∧
    name ∈ (search.start (d.walkBefore pool ignoreMissing i)).newly reached}

def IsRequire (d : Definition) (i : Nat) : Prop := d.sections[i]?.map (·.mode) = some .require

/-- The names that the sections before this index have visited, where the require sections do not
count. For a require section there are none. -/
def visitedBefore (d : Definition) (pool : Pool) (ignoreMissing : Bool) (i : Nat) : Set String :=
  {name | ¬d.IsRequire i ∧ ∃ j < i, ¬d.IsRequire j ∧ name ∈ d.newlyVisited pool ignoreMissing j}

theorem walkBefore_eq {i : Nat} {w : Walk} {before : List ResolvedSection}
    (h : (ResolvedSection.ofSections pool ignoreMissing {} (d.sections.take i)).Yields
      (w, before)) :
    d.walkBefore pool ignoreMissing i = w := by
  unfold walkBefore
  rw [h]

theorem walkBefore_zero (d : Definition) (pool : Pool) (ignoreMissing : Bool) :
    d.walkBefore pool ignoreMissing 0 = {} := walkBefore_eq (Run.pure_yields.2 rfl)

/-- In a resolution every section is resolved in its turn: it starts from the walk before it and
leaves the walk before the next one. -/
theorem resolve_ofSection (h : (d.resolve pool ignoreMissing).Yields r) {i : Nat} {s : Section}
    (hs : d.sections[i]? = some s) :
    (d.walkBefore pool ignoreMissing i).Sound ∧ ∃ resolved,
      (ResolvedSection.ofSection pool ignoreMissing (d.walkBefore pool ignoreMissing i) s).Yields
        (d.walkBefore pool ignoreMissing (i + 1), resolved) ∧
      r.sections[i]? = some resolved := by
  obtain ⟨_, w, all⟩ := resolve_yields.1 h
  obtain ⟨hi, get⟩ := List.getElem?_eq_some_iff.1 hs
  have split : d.sections = d.sections.take i ++ s :: d.sections.drop (i + 1) := by
    rw [← get, List.getElem_cons_drop, List.take_append_drop]
  rw [split] at all
  obtain ⟨next, before, first, after, later, sections⟩ := ResolvedSection.ofSections_append.1 all
  obtain ⟨next', resolved, this, others, rest, rfl⟩ := ResolvedSection.ofSections_cons.1 later
  obtain ⟨sound, definitions⟩ := ResolvedSection.ofSections_sound Walk.sound_empty first
  have through : (ResolvedSection.ofSections pool ignoreMissing {}
      (d.sections.take (i + 1))).Yields (next', before ++ [resolved]) := by
    rw [List.take_add_one, hs]
    refine ResolvedSection.ofSections_append.2 ⟨next, before, first, [resolved], ?_, rfl⟩
    refine ResolvedSection.ofSections_cons.2 ⟨next', resolved, this, [], ?_, rfl⟩
    rw [ResolvedSection.ofSections, Run.pure_yields]
  rw [walkBefore_eq first, walkBefore_eq through]
  refine ⟨sound, resolved, this, ?_⟩
  have length : before.length = i := by
    have := congrArg List.length definitions
    rw [List.length_map, List.length_take] at this
    omega
  rw [sections, List.getElem?_append_right (by omega), length, Nat.sub_self]
  rfl

/-- In a resolution every section has its outcome. -/
theorem resolve_outcome (h : (d.resolve pool ignoreMissing).Yields r) {i : Nat} {s : Section}
    (hs : d.sections[i]? = some s) :
    ∃ search reached modules, s.search pool ignoreMissing = .ok search ∧
      search.Outcome (d.walkBefore pool ignoreMissing i) reached
        (d.walkBefore pool ignoreMissing (i + 1)) modules ∧
      r.sections[i]? = some ⟨s, modules⟩ := by
  obtain ⟨sound, resolved, this, get⟩ := resolve_ofSection h hs
  obtain ⟨search, parsed, rfl, reached, outcome⟩ := ResolvedSection.ofSection_outcome sound this
  exact ⟨search, reached, resolved.modules, parsed, outcome, get⟩

theorem newlyVisited_eq {i : Nat} {s : Section} {search : Search} {reached : Walk}
    (hs : d.sections[i]? = some s) (parsed : s.search pool ignoreMissing = .ok search)
    (walk : (search.walk (search.start (d.walkBefore pool ignoreMissing i)) search.roots).Yields
      reached) :
    d.newlyVisited pool ignoreMissing i =
      (search.start (d.walkBefore pool ignoreMissing i)).newly reached := by
  ext name
  constructor
  · rintro ⟨s', search', reached', hs', parsed', walk', new⟩
    cases hs.symm.trans hs'
    cases parsed.symm.trans parsed'
    cases walk.unique walk'
    exact new
  · intro new
    exact ⟨s, search, reached, hs, parsed, walk, new⟩

theorem isRequire_iff {i : Nat} {s : Section} {search : Search} (hs : d.sections[i]? = some s)
    (parsed : s.search pool ignoreMissing = .ok search) :
    d.IsRequire i ↔ search.criteria.mode = .require := by
  obtain ⟨_, _, rfl⟩ := Section.search_eq_ok.1 parsed
  simp [IsRequire, hs]

/-- The walk of a resolution has visited what its sections visited, the require sections apart. -/
theorem mem_walkBefore_seen (h : (d.resolve pool ignoreMissing).Yields r) {i : Nat}
    (hi : i ≤ d.sections.length) (name : String) :
    name ∈ (d.walkBefore pool ignoreMissing i).seen ↔
      ∃ j < i, ¬d.IsRequire j ∧ name ∈ d.newlyVisited pool ignoreMissing j := by
  induction i with
  | zero =>
    constructor
    · intro seen
      rw [walkBefore_zero] at seen
      cases seen
    · rintro ⟨j, hj, _⟩
      omega
  | succ i ih =>
    obtain ⟨search, reached, modules, parsed, outcome, _⟩ :=
      resolve_outcome h (List.getElem?_eq_getElem hi)
    have step : name ∈ (d.walkBefore pool ignoreMissing (i + 1)).seen ↔
        name ∈ (d.walkBefore pool ignoreMissing i).seen ∨
          ¬d.IsRequire i ∧ name ∈ d.newlyVisited pool ignoreMissing i := by
      rw [outcome.seen, newlyVisited_eq (List.getElem?_eq_getElem hi) parsed outcome.walk,
        isRequire_iff (List.getElem?_eq_getElem hi) parsed]
      by_cases require : search.criteria.mode = .require
      · simp [require]
      · rw [if_neg require, (Search.walks_of_yields outcome.walk).mem_seen]
        simp [Search.start, require]
    rw [step, ih (by omega)]
    constructor
    · rintro (⟨j, hj, new⟩ | new)
      · exact ⟨j, by omega, new⟩
      · exact ⟨i, by omega, new⟩
    · rintro ⟨j, hj, new⟩
      rcases Nat.lt_succ_iff_lt_or_eq.1 hj with hj | rfl
      · exact .inl ⟨j, hj, new⟩
      · exact .inr new

theorem start_seen (h : (d.resolve pool ignoreMissing).Yields r) {i : Nat} {s : Section}
    {search : Search} (hs : d.sections[i]? = some s)
    (parsed : s.search pool ignoreMissing = .ok search) :
    (search.start (d.walkBefore pool ignoreMissing i)).seen =
      d.visitedBefore pool ignoreMissing i := by
  obtain ⟨hi, _⟩ := List.getElem?_eq_some_iff.1 hs
  ext name
  unfold Search.start visitedBefore
  split
  · rename_i require
    constructor
    · intro seen
      cases seen
    · rintro ⟨other, _⟩
      exact absurd ((isRequire_iff hs parsed).2 require) other
  · rename_i other
    rw [mem_walkBefore_seen h (Nat.le_of_lt hi)]
    exact (and_iff_right fun require => other ((isRequire_iff hs parsed).1 require)).symm

/-- What is visited before a section, what it visits and what it selects. -/
theorem selects_least (h : (d.resolve pool ignoreMissing).Yields r) {i : Nat} {s : Section}
    (hs : d.sections[i]? = some s) :
    ∃ search modules, s.search pool ignoreMissing = .ok search ∧
      r.sections[i]? = some ⟨s, modules⟩ ∧
      IsLeast {N | search.Closed (d.visitedBefore pool ignoreMissing i) N}
        (d.newlyVisited pool ignoreMissing i) ∧
      modules.Nodup ∧
      ∀ name, name ∈ modules ↔ name ∈ d.newlyVisited pool ignoreMissing i ∧ search.Emits name := by
  obtain ⟨search, reached, modules, parsed, outcome, resolved⟩ := resolve_outcome h hs
  refine ⟨search, modules, parsed, resolved, ?_, outcome.nodup, ?_⟩
  · rw [← start_seen h hs parsed, newlyVisited_eq hs parsed outcome.walk]
    exact (Search.walks_of_yields outcome.walk).isLeast_closed
  · rw [newlyVisited_eq hs parsed outcome.walk]
    exact outcome.mem

end Definition

namespace ResolvedSection

variable {pool : Pool} {ignoreMissing : Bool} {w w' : Walk}

def shared (sections : List ResolvedSection) : List ResolvedSection :=
  sections.filter (·.mode ≠ .require)

/-- No module is selected by two of the sections that share one walk. -/
theorem ofSections_nodup {sections : List Section} {all : List ResolvedSection} (sound : w.Sound)
    (h : (ofSections pool ignoreMissing w sections).Yields (w', all)) :
    ((shared all).flatMap (·.modules)).Nodup ∧
      ∀ name ∈ (shared all).flatMap (·.modules), name ∉ w.seen := by
  induction sections generalizing w all with
  | nil =>
    rw [ofSections, Run.pure_yields] at h
    cases h
    exact ⟨.nil, fun name hn => absurd hn List.not_mem_nil⟩
  | cons s rest ih =>
    obtain ⟨next, resolved, first, others, later, rfl⟩ := ofSections_cons.1 h
    obtain ⟨search, parsed, definition, reached, outcome⟩ := ofSection_outcome sound first
    obtain ⟨nodup, fresh⟩ := ih outcome.sound later
    have mode : resolved.mode = search.criteria.mode := by
      obtain ⟨_, _, rfl⟩ := Section.search_eq_ok.1 parsed
      exact congrArg Section.mode definition
    have walks := Search.walks_of_yields outcome.walk
    by_cases require : search.criteria.mode = .require
    · have seen := outcome.seen
      rw [if_pos require] at seen
      rw [seen] at fresh
      simpa [shared, mode, require] using And.intro nodup fresh
    · have seen := outcome.seen
      rw [if_neg require] at seen
      rw [seen] at fresh
      have start : search.start w = w := if_neg require
      have mem := outcome.mem
      rw [start] at walks mem
      have cons : shared (resolved :: others) = resolved :: shared others := by
        simp [shared, mode, require]
      rw [cons, List.flatMap_cons]
      refine ⟨List.nodup_append.2 ⟨outcome.nodup, nodup, ?_⟩, ?_⟩
      · rintro name hn _ hn' rfl
        exact fresh name hn' ((mem name).1 hn).1.1
      · intro name hn
        rcases List.mem_append.1 hn with hn | hn
        · exact ((mem name).1 hn).1.2
        · exact fun before => fresh name hn (walks.visited_mono before)

end ResolvedSection

/-! ## The order of visits does not matter -/

/-- The same names, in orders that may differ. -/
structure ModuleInfo.SameReferences (info info' : ModuleInfo) : Prop where
  dependencies : ∀ name, name ∈ info.dependencies ↔ name ∈ info'.dependencies
  conditional : ∀ name, name ∈ info.conditional ↔ name ∈ info'.conditional
  subModules : ∀ name, name ∈ info.subModules ↔ name ∈ info'.subModules

/-- The same modules with the same references, in orders that may differ. -/
structure Pool.SameModules (p p' : Pool) : Prop where
  names : ∀ name, name ∈ p.names ↔ name ∈ p'.names
  contains : ∀ name, p.contains name = p'.contains name
  records : ∀ name, Option.Rel ModuleInfo.SameReferences (p.record? name) (p'.record? name)

/-- The same section, or one that lists the same resources in another order. -/
inductive Section.Relisted (s : Section) : Section → Prop
  | same : Relisted s s
  | permuted {patterns : List String} {filters : FilterList} {names : List String}
      (perm : s.filters.Perm patterns) (parsed : FilterList.parse s.filters = .ok filters)
      (listed : filters.resources? = some names) : Relisted s { s with filters := patterns }

theorem Pool.SameModules.symm {p p' : Pool} (same : p.SameModules p') : p'.SameModules p := by
  refine ⟨fun name => (same.names name).symm, fun name => (same.contains name).symm, fun name => ?_⟩
  have records := same.records name
  generalize p.record? name = found at records ⊢
  generalize p'.record? name = found' at records ⊢
  cases records with
  | none => exact .none
  | some references =>
    refine .some ⟨fun name => ?_, fun name => ?_, fun name => ?_⟩
    · exact (references.dependencies name).symm
    · exact (references.conditional name).symm
    · exact (references.subModules name).symm

theorem Pool.SameModules.record {p p' : Pool} (same : p.SameModules p') {name : String}
    {info : ModuleInfo} (found : p.record? name = some info) :
    ∃ info', p'.record? name = some info' ∧ info.SameReferences info' := by
  have records := same.records name
  rw [found] at records
  generalize p'.record? name = found' at records ⊢
  cases records with
  | some references => exact ⟨_, rfl, references⟩

namespace Search

/-- Searches that differ in nothing but the order of their visits. -/
structure SameOutcome (s s' : Search) : Prop where
  mode : s.criteria.mode = s'.criteria.mode
  root : ∀ name, name ∈ s.rootNames ↔ name ∈ s'.rootNames
  selects : ∀ name required, s.filters.selects name required = s'.filters.selects name required
  leadsTo : ∀ name next, s.LeadsTo name next ↔ s'.LeadsTo name next
  emits : ∀ name, s.Emits name ↔ s'.Emits name

theorem SameOutcome.closed {s s' : Search} (same : s.SameOutcome s') (V N : Set String) :
    s.Closed V N ↔ s'.Closed V N := by
  constructor
  · rintro ⟨fresh, root, follow⟩
    exact ⟨fresh, by simpa only [same.root, same.selects] using root,
      by simpa only [same.leadsTo, same.selects] using follow⟩
  · rintro ⟨fresh, root, follow⟩
    exact ⟨fresh, by simpa only [same.root, same.selects] using root,
      by simpa only [same.leadsTo, same.selects] using follow⟩

theorem unpacks_congr {s s' : Search} (modules : s.pool.SameModules s'.pool)
    {info info' : ModuleInfo} (same : info.SameReferences info') (name : String) :
    s.unpacks name info ↔ s'.unpacks name info' := by
  unfold unpacks
  simp only [Bool.and_eq_true, List.any_eq_true, same.subModules, modules.contains]

theorem leadsTo_congr {s s' : Search} (modules : s.pool.SameModules s'.pool)
    (criteria : s'.criteria = { s.criteria with filters := s'.criteria.filters })
    {name next : String} (h : s.LeadsTo name next) : s'.LeadsTo name next := by
  cases h with
  | subModule found unpacked mem =>
    obtain ⟨info', found', same⟩ := modules.record found
    exact .subModule found' ((unpacks_congr modules same name).1 unpacked)
      ((same.subModules _).1 mem)
  | @dependency info d found kept resolves mem conditional =>
    obtain ⟨info', found', same⟩ := modules.record found
    refine .dependency found' (mt (unpacks_congr modules same name).2 kept) (criteria ▸ resolves)
      ((same.dependencies d).1 mem) fun isConditional => ?_
    have isConditional : info.isConditional d := by
      simpa [ModuleInfo.isConditional, same.conditional] using isConditional
    exact criteria ▸ conditional isConditional
  | renderer found kept renders beside =>
    obtain ⟨info', found', same⟩ := modules.record found
    exact .renderer found' (mt (unpacks_congr modules same name).2 kept) (criteria ▸ renders) beside

theorem emits_congr {s s' : Search} (modules : s.pool.SameModules s'.pool) {name : String}
    (h : s.Emits name) : s'.Emits name := by
  obtain ⟨info, found, kept⟩ := h
  obtain ⟨info', found', same⟩ := modules.record found
  exact ⟨info', found', mt (unpacks_congr modules same name).2 kept⟩

end Search

theorem Section.Relisted.filters {s s' : Section} (relisted : s.Relisted s')
    {filters filters' : FilterList} (parsed : FilterList.parse s.filters = .ok filters)
    (parsed' : FilterList.parse s'.filters = .ok filters') :
    (∀ name required, filters.selects name required = filters'.selects name required) ∧
      Option.Rel List.Perm filters.resources? filters'.resources? := by
  cases relisted with
  | same =>
    cases parsed.symm.trans parsed'
    refine ⟨fun _ _ => rfl, ?_⟩
    cases filters.resources? with
    | none => exact .none
    | some names => exact .some (.refl names)
  | permuted perm parsed'' listed =>
    cases parsed.symm.trans parsed''
    have perm := FilterList.parse_perm perm parsed parsed'
    obtain ⟨names', listed', perm'⟩ := FilterList.resources?_perm perm listed
    refine ⟨FilterList.selects_perm perm listed, ?_⟩
    rw [listed, listed']
    exact .some perm'.symm

/-- Searching for the same in another order has the same outcome. -/
theorem Section.Relisted.sameOutcome {pool pool' : Pool} {ignoreMissing ignoreMissing' : Bool}
    {s s' : Section} {search search' : Search} (relisted : s.Relisted s')
    (modules : pool.SameModules pool') (h : s.search pool ignoreMissing = .ok search)
    (h' : s'.search pool' ignoreMissing' = .ok search') : search.SameOutcome search' := by
  obtain ⟨filters, parsed, rfl⟩ := Section.search_eq_ok.1 h
  obtain ⟨filters', parsed', rfl⟩ := Section.search_eq_ok.1 h'
  obtain ⟨selects, resources⟩ := relisted.filters parsed parsed'
  have criteria : s' = { s with filters := s'.filters } := by
    cases relisted <;> rfl
  constructor
  case mode => exact (congrArg Section.mode criteria).symm
  case root =>
    intro name
    dsimp only [Search.rootNames]
    generalize filters.resources? = listed at resources ⊢
    generalize filters'.resources? = listed' at resources ⊢
    cases resources with
    | none => exact modules.names name
    | some perm => exact perm.mem_iff
  case selects => exact selects
  case leadsTo =>
    intro name next
    exact ⟨Search.leadsTo_congr modules criteria,
      Search.leadsTo_congr modules.symm (by rw [criteria])⟩
  case emits =>
    intro name
    exact ⟨Search.emits_congr modules, Search.emits_congr modules.symm⟩

theorem Search.SameOutcome.outcome {s s' : Search} (same : s.SameOutcome s')
    {w w' reached reached' next next' : Walk} {modules modules' : List String}
    (seen : w.seen = w'.seen) (h : s.Outcome w reached next modules)
    (h' : s'.Outcome w' reached' next' modules') :
    next.seen = next'.seen ∧ modules.Perm modules' := by
  have start : (s.start w).seen = (s'.start w').seen := by
    unfold start
    rw [same.mode]
    split
    · rfl
    · exact seen
  have walks := walks_of_yields h.walk
  have walks' := walks_of_yields h'.walk
  have newly : (s.start w).newly reached = (s'.start w').newly reached' := by
    have least := walks.isLeast_closed
    simp only [same.closed, start] at least
    exact least.unique walks'.isLeast_closed
  constructor
  · rw [h.seen, h'.seen, same.mode]
    split
    · exact seen
    · ext name
      rw [walks.mem_seen, walks'.mem_seen, start, newly]
  · apply (List.perm_ext_iff_of_nodup h.nodup h'.nodup).2
    intro name
    rw [h.mem, h'.mem, newly, same.emits]

namespace ResolvedSection

/-- What the sections select does not depend on the order in which a pool lists its modules, a
record its references and a section its resources. -/
theorem ofSections_sameModules {pool pool' : Pool} {ignoreMissing ignoreMissing' : Bool}
    {w w' last last' : Walk} {sections sections' : List Section} {all all' : List ResolvedSection}
    (sound : w.Sound) (sound' : w'.Sound) (seen : w.seen = w'.seen)
    (modules : pool.SameModules pool') (relisted : List.Forall₂ Section.Relisted sections sections')
    (h : (ofSections pool ignoreMissing w sections).Yields (last, all))
    (h' : (ofSections pool' ignoreMissing' w' sections').Yields (last', all')) :
    List.Forall₂ (fun s s' => s.modules.Perm s'.modules) all all' := by
  induction relisted generalizing w w' all all' with
  | nil =>
    rw [ofSections, Run.pure_yields] at h h'
    cases h
    cases h'
    exact .nil
  | cons first _ ih =>
    obtain ⟨next, resolved, this, others, later, rfl⟩ := ofSections_cons.1 h
    obtain ⟨next', resolved', this', others', later', rfl⟩ := ofSections_cons.1 h'
    obtain ⟨search, parsed, _, reached, outcome⟩ := ofSection_outcome sound this
    obtain ⟨search', parsed', _, reached', outcome'⟩ := ofSection_outcome sound' this'
    have same := first.sameOutcome modules parsed parsed'
    obtain ⟨seen', perm⟩ := same.outcome seen outcome outcome'
    exact .cons perm (ih outcome.sound outcome'.sound seen' later later')

end ResolvedSection

/-! ## Main statement -/

/-- A definition that lists the sections of another one, each up to the order of its resources. -/
def Definition.Relisted (d d' : Definition) : Prop :=
  List.Forall₂ Section.Relisted d.sections d'.sections

/-- **Every section selects a least closed set.** With what the sections before it have visited left
out, a section newly visits the least set that has its accepted roots and every accepted name that a
name in it leads to. It selects, each once, the modules of this set that are found and not unpacked.
So no module is selected twice by sections that share a walk, and which modules are selected does
not depend on any order of listing. -/
theorem Definition.resolve_selects_least {d : Definition} {pool : Pool} {ignoreMissing : Bool}
    {r : Resolved} (h : (d.resolve pool ignoreMissing).Yields r) :
    r.sections.map (·.definition) = d.sections ∧
    (∀ i s, d.sections[i]? = some s → ∃ search modules,
      s.search pool ignoreMissing = .ok search ∧ r.sections[i]? = some ⟨s, modules⟩ ∧
      IsLeast {N | search.Closed (d.visitedBefore pool ignoreMissing i) N}
        (d.newlyVisited pool ignoreMissing i) ∧
      modules.Nodup ∧
      ∀ name, name ∈ modules ↔ name ∈ d.newlyVisited pool ignoreMissing i ∧ search.Emits name) ∧
    ((r.sections.filter (·.mode ≠ .require)).flatMap (·.modules)).Nodup ∧
    ∀ (d' : Definition) (pool' : Pool) (ignoreMissing' : Bool) (r' : Resolved),
      d.Relisted d' → pool.SameModules pool' → (d'.resolve pool' ignoreMissing').Yields r' →
      List.Forall₂ (fun s s' => s.modules.Perm s'.modules) r.sections r'.sections := by
  obtain ⟨_, w, all⟩ := resolve_yields.1 h
  have sound := Walk.sound_empty
  refine ⟨(ResolvedSection.ofSections_sound sound all).2, ?_,
    (ResolvedSection.ofSections_nodup sound all).1, ?_⟩
  · intro i s hs
    exact selects_least h hs
  · intro d' pool' ignoreMissing' r' relisted modules h'
    obtain ⟨_, w', all'⟩ := resolve_yields.1 h'
    exact ResolvedSection.ofSections_sameModules sound sound rfl modules relisted all all'

/-! ## A bundle among its modules -/

namespace Vendored

def bundle : ModuleInfo :=
  { name := "vendor/bundle.js", subModules := ["embedded/mod1", "lib/mod2"] }

def mod2 : ModuleInfo := { name := "lib/mod2.js", dependencies := .ofList ["lib/mod4"] }

def mod4 : ModuleInfo :=
  { name := "lib/mod4.js", dependencies := .ofList ["lib/mod2", "lib/absent"] }

def pool : Pool := .ofResources ([mod2, mod4, bundle].map fun info =>
  { name := info.name, content := [59], info := some info })

def vendor : Section := { filters := ["vendor/"], resolve := true }

def search : Search := ⟨pool, true, vendor, [⟨true, .directory "vendor/"⟩]⟩

/-- The bundle gives way to its sub-modules, and these bring what they depend on. -/
theorem walks : ∃ reached, search.Walks {} search.roots reached ∧
    reached.selected.names = ["lib/mod2.js", "lib/mod4.js"] := by
  have roots : search.roots = [⟨"lib/mod2.js", [], false⟩, ⟨"lib/mod4.js", [], false⟩,
      ⟨"vendor/bundle.js", [], false⟩] := by
    decide +kernel
  refine ⟨?reached, ?walk, ?selected⟩
  case walk =>
    rw [roots]
    refine .rejected (by decide) (by decide +kernel) ?_
    refine .rejected (by decide) (by decide +kernel) ?_
    have found : search.pool.record? "vendor/bundle.js" = some bundle := rfl
    refine .unpacked (by decide) (by decide +kernel) found (by decide +kernel) ?_
    have inner : Search.subModules ⟨"vendor/bundle.js", [], false⟩ bundle =
        [⟨"embedded/mod1.js", ["vendor/bundle.js"], false⟩,
          ⟨"lib/mod2.js", ["vendor/bundle.js"], false⟩] := by
      decide +kernel
    rw [inner, List.append_nil]
    refine .missing (by decide) (by decide +kernel) rfl (.inl rfl) ?_
    have found : search.pool.record? "lib/mod2.js" = some mod2 := rfl
    refine .selected (by decide) (by decide +kernel) found (by decide +kernel) ?_
    have needed : search.successors ⟨"lib/mod2.js", ["vendor/bundle.js"], false⟩ mod2 =
        [⟨"lib/mod4.js", ["lib/mod2.js", "vendor/bundle.js"], true⟩] := by
      decide +kernel
    rw [needed, List.append_nil]
    have found : search.pool.record? "lib/mod4.js" = some mod4 := rfl
    refine .selected (by decide) (by decide +kernel) found (by decide +kernel) ?_
    have back : search.successors ⟨"lib/mod4.js", ["lib/mod2.js", "vendor/bundle.js"], true⟩ mod4 =
        [⟨"lib/mod2.js", ["lib/mod4.js", "lib/mod2.js", "vendor/bundle.js"], true⟩,
          ⟨"lib/absent.js", ["lib/mod4.js", "lib/mod2.js", "vendor/bundle.js"], true⟩] := by
      decide +kernel
    rw [back, List.append_nil]
    refine .repeated (by decide) ?_
    refine .missing (by decide) (by decide +kernel) rfl (.inl rfl) ?_
    exact .done
  case selected => rfl

def definition : Definition := { sections := [vendor] }

def resolved : Resolved := ⟨definition, [⟨vendor, ["lib/mod2.js", "lib/mod4.js"]⟩]⟩

theorem resolves : (definition.resolve pool true).Yields resolved := by
  obtain ⟨reached, walks, selected⟩ := walks
  refine Definition.resolve_yields.2 ⟨rfl, reached, ?_⟩
  refine ResolvedSection.ofSections_cons.2 ⟨_, _, ?_, _, Run.pure_yields.2 rfl, rfl⟩
  refine ResolvedSection.ofSection_yields.2 ⟨search, rfl, _, ?_, _, Run.pure_yields.2 rfl, rfl⟩
  exact Search.collect_yields.2 ⟨reached, walks.yields, rfl, selected.symm⟩

theorem vendored_selects_least :
    (definition.resolve pool true).Yields resolved ∧
    IsLeast {N | search.Closed (definition.visitedBefore pool true 0) N}
      (definition.newlyVisited pool true 0) := by
  refine ⟨resolves, ?_⟩
  obtain ⟨_, each, _⟩ := Definition.resolve_selects_least resolves
  obtain ⟨_, _, parsed, _, least, _⟩ := each 0 vendor rfl
  cases parsed
  exact least

end Vendored

end Bundler
