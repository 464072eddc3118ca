import Bundler.Proofs.Listing
import Bundler.Proofs.Strictness
import Bundler.Proofs.Texts

/-!
# What the patterns of a section pick

A section is searched from its roots. Where all of its patterns look like names of resources, these
are its roots, in the order in which they are listed; otherwise its roots are all that the pool has,
and the filters decide.

* `resolve_picks`: what the filters of a section accept in a pool is selected or unpacked, by this
  section or an earlier one, apart from what lies below a path that is taken for a resource;
* `resolve_listed`: a section that lists modules selects them in the listed order if their names
  look like names of resources, and otherwise what the pool has at them or below, in its own order.
-/

namespace Bundler

/-- The pool finds what it lists. -/
def Pool.Complete (p : Pool) : Prop :=
  ∀ name ∈ p.names, ∃ resource, p.findWithInfo name = .ok resource

/-- The name is not that of a bundle to be unpacked. -/
def Pool.Keeps (p : Pool) (name : String) : Prop :=
  ∀ info, p.record? name = some info → ∀ search : Search, search.pool = p →
    ¬search.unpacks name info

namespace Pool

theorem ofResources_complete (resources : List Resource) : (ofResources resources).Complete := by
  intro name known
  obtain ⟨r, hr, same⟩ := List.mem_map.1 known
  have found : ((resources.find? fun r => r.name = name)).isSome := by
    rw [List.find?_isSome]
    exact ⟨r, hr, decide_eq_true same⟩
  obtain ⟨first, found⟩ := Option.isSome_iff_exists.1 found
  show ∃ resource, describe name (findIn resources name) = .ok resource
  rw [findIn, found]
  exact ⟨_, rfl⟩

theorem Complete.record {p : Pool} (complete : p.Complete) {name : String}
    (known : name ∈ p.names) : (p.record? name).isSome := by
  obtain ⟨resource, found⟩ := complete name known
  rw [record?, found]
  rfl

/-- Resources without records are no bundles. -/
theorem keeps_of_bare {resources : List Resource} (bare : ∀ r ∈ resources, r.info = none)
    (name : String) : (ofResources resources).Keeps name := by
  intro info found search _
  have lookup : (ofResources resources).findWithInfo name = describe name (findIn resources name) :=
    rfl
  have blank : info = { name } := by
    rw [record?, lookup, findIn] at found
    cases first : resources.find? fun r => r.name = name with
    | none =>
      rw [first] at found
      cases found
    | some r =>
      rw [first] at found
      have none := bare r (List.mem_of_find?_eq_some first)
      simpa [describe, Except.map, none, eq_comm] using found
  rw [blank]
  simp [Search.unpacks]

end Pool

namespace Name

/-- The name continues the path behind a slash. -/
def Below (path name : String) : Prop := ∃ rest, name.toList = path.toList ++ '/' :: rest

/-- The path with a slash at its end. -/
def directory (path : String) : String :=
  if path.toList.getLast? = some '/' then path else path ++ "/"

/-- The name is the path or lies below it. -/
def At (path name : String) : Prop := name = path ∨ (directory path).toList <+: name.toList

instance (path name : String) : Decidable (At path name) := inferInstanceAs (Decidable (_ ∨ _))

/-- A name that ends with a slash has an empty last segment. -/
theorem not_slash_of_dotted {name : String} (dotted : '.' ∈ file name) :
    name.toList.getLast? ≠ some '/' := by
  intro slash
  obtain ⟨stem, split⟩ := List.getLast?_eq_some_iff.1 slash
  rw [file, split, Text.afterLast_append_of_mem List.mem_cons_self] at dotted
  simp [Text.afterLast] at dotted

end Name

/-- A path without a star accepts what is at it, and nothing if it is empty. -/
theorem Matcher.directory_accepts_iff {path name : String} :
    (Matcher.directory path).accepts name ↔ path ≠ "" ∧ Name.At path name := by
  have empty : path = "" ↔ path.toList = [] := String.toList_eq_nil_iff.symm
  rw [Name.At, Name.directory, ne_eq, empty, ← String.toList_inj]
  refine Matcher.acceptsBelow_iff.trans (and_congr_right fun _ => or_congr_right ?_)
  split
  · rename_i slash
    constructor
    · rintro (⟨rest, whole⟩ | ⟨_, starts⟩)
      · exact ⟨'/' :: rest, whole.symm⟩
      · exact starts
    · exact fun starts => .inr ⟨slash, starts⟩
  · rename_i slash
    rw [String.toList_append]
    constructor
    · rintro (⟨rest, whole⟩ | ⟨ends, _⟩)
      · exact ⟨rest, by simp [whole]⟩
      · exact absurd ends slash
    · rintro ⟨rest, whole⟩
      exact .inl ⟨rest, by simp [← whole]⟩

namespace FilterList

/-- The filters that list resources are those of a list of names with a dot in the last segment. -/
theorem resources?_eq_some_iff {fs : FilterList} {names : List String} :
    fs.resources? = some names ↔
      names ≠ [] ∧ fs = names.map Filter.listing ∧ ∀ name ∈ names, '.' ∈ Name.file name := by
  rw [resources?_eq_some]
  simp only [Filter.resource?_eq_some]
  constructor
  · rintro ⟨nonempty, each⟩
    have same : fs = names.map Filter.listing ∧ ∀ name ∈ names, '.' ∈ Name.file name := by
      clear nonempty
      induction each with
      | nil => simp
      | cons first _ ih =>
        obtain ⟨rfl, dotted⟩ := first
        exact ⟨congrArg _ ih.1, List.forall_mem_cons.2 ⟨dotted, ih.2⟩⟩
    refine ⟨?_, same⟩
    rintro rfl
    exact nonempty same.1
  · rintro ⟨nonempty, rfl, dotted⟩
    refine ⟨by simpa using nonempty, List.forall₂_map_left_iff.2 (List.forall₂_same.2 ?_)⟩
    intro name hn
    exact ⟨rfl, dotted name hn⟩

/-- What listed resources accept apart from themselves lies below one of them. -/
theorem below_of_unlisted {fs : FilterList} {names : List String}
    (listed : fs.resources? = some names) {name : String} (accepted : fs.selects name false)
    (unlisted : name ∉ names) : ∃ path ∈ names, Name.Below path name := by
  obtain ⟨_, rfl, dotted⟩ := resources?_eq_some_iff.1 listed
  obtain ⟨path, hp, accepts⟩ := selects_map_listing.1 accepted
  obtain ⟨_, same | below | ⟨slash, _⟩⟩ := Matcher.acceptsBelow_iff.1 accepts
  · rw [String.toList_inj.1 same] at unlisted
    exact absurd hp unlisted
  · exact ⟨path, hp, below⟩
  · exact absurd slash (Name.not_slash_of_dotted (dotted path hp))

end FilterList

/-! ## Roots that lead nowhere -/

namespace Search

variable {s : Search} {w : Walk}

/-- The accepted roots that are found, each once. -/
def picks (s : Search) : List String :=
  (s.rootNames.filter fun name =>
    s.filters.selects name false && (s.pool.record? name).isSome).eraseDups

/-- Roots that lead nowhere are selected one after the other, where they are found. -/
theorem Walks.picking (resolve : s.criteria.resolve = false)
    (renderer : s.criteria.renderer = false) {names : List String}
    (kept : ∀ name ∈ names, s.filters.selects name false → s.pool.Keeps name) (sound : w.Sound) :
    ∃ w', s.Walks w (names.map fun name => { name }) w' ∧
      w'.selected.names = w.selected.names ++ (names.filter fun name => name ∉ w.visited &&
        (s.filters.selects name false && (s.pool.record? name).isSome)).eraseDups := by
  induction names generalizing w with
  | nil => exact ⟨w, .done, (List.append_nil _).symm⟩
  | cons first rest ih =>
    have ih {w : Walk} (sound : w.Sound) :=
      ih (fun name hn => kept name (List.mem_cons_of_mem _ hn)) sound
    by_cases again : first ∈ w.visited
    · obtain ⟨w', walks, names⟩ := ih sound
      rw [List.filter_cons_of_neg (by simp [again])]
      exact ⟨w', .repeated again walks, names⟩
    by_cases accepted : s.filters.selects first false
    · cases found : s.pool.record? first with
      | none =>
        obtain ⟨w', walks, names⟩ := ih sound.visit
        refine ⟨w', .missing again accepted found (.inr rfl) walks, ?_⟩
        rw [names, List.filter_cons_of_neg (by simp [found])]
        -- the root is visited now, but nothing is lost, as it is not found later either
        refine congrArg (w.selected.names ++ List.eraseDups ·) (List.filter_congr fun name _ => ?_)
        by_cases same : name = first
        · simp [same, found]
        · simp [Walk.mem_visit, same]
      | some info =>
        obtain ⟨w', walks, names⟩ := ih sound.select
        have still := successors_of_still resolve renderer { name := first } info
        have whole := kept first List.mem_cons_self accepted info found s rfl
        refine ⟨w', .selected again accepted found whole ?_, ?_⟩
        · rwa [still, List.nil_append]
        · rw [names, Walk.select_names fun h => again (sound _ h),
            List.filter_cons_of_pos (by simp [again, accepted, found]), List.eraseDups_cons,
            List.append_assoc, List.singleton_append, List.filter_filter]
          refine congrArg (w.selected.names ++ first :: List.eraseDups ·)
            (List.filter_congr fun name _ => ?_)
          by_cases same : name = first
          · simp [same, Walk.mem_visit]
          · simp [Walk.mem_visit, same]
    · obtain ⟨w', walks, names⟩ := ih sound
      rw [List.filter_cons_of_neg (by simp [accepted])]
      exact ⟨w', .rejected again accepted walks, names⟩

/-- A search that follows nothing and unpacks no root selects its roots. -/
theorem collect_picks (resolve : s.criteria.resolve = false)
    (renderer : s.criteria.renderer = false)
    (kept : ∀ name ∈ s.rootNames, s.filters.selects name false → s.pool.Keeps name) :
    ∃ w', (s.collect {}).Yields (w', s.picks) := by
  obtain ⟨reached, walks, names⟩ := Walks.picking resolve renderer kept Walk.sound_empty
  have start : s.start {} = {} := ite_self _
  have picked : s.picks = reached.selected.names.drop (s.start {}).selected.names.length := by
    rw [start, names, List.drop_left]
    simp [picks]
  exact ⟨_, collect_yields.2 ⟨reached, start.symm ▸ walks.yields, rfl, picked⟩⟩

theorem arrange_unsorted (unsorted : s.criteria.mode = .raw → s.criteria.sort = false)
    (modules : List String) : (s.arrange modules).Yields modules := by
  unfold arrange
  rw [if_neg (by simpa using unsorted)]
  exact Run.pure_yields.2 rfl

end Search

namespace Definition

variable {d : Definition} {pool : Pool} {ignoreMissing : Bool} {r : Resolved}

/-- Alone in a definition, a section that follows nothing resolves to its roots. -/
theorem resolve_alone {s : Section} {search : Search} (alone : d.sections = [s])
    (searched : s.search pool ignoreMissing = .ok search) (resolve : s.resolve = false)
    (renderer : s.renderer = false) (unsorted : s.mode = .raw → s.sort = false)
    (kept : ∀ name ∈ search.rootNames, search.filters.selects name false → pool.Keeps name) :
    (d.resolve pool ignoreMissing).Yields ⟨d, [⟨s, search.picks⟩]⟩ := by
  obtain ⟨filters, _, rfl⟩ := Section.search_eq_ok.1 searched
  obtain ⟨w, collected⟩ := Search.collect_picks resolve renderer kept
  have first := ResolvedSection.ofSection_yields.2
    ⟨_, searched, _, collected, _, Search.arrange_unsorted unsorted _, rfl⟩
  refine resolve_yields.2 ⟨rfl, w, ?_⟩
  rw [alone]
  exact ResolvedSection.ofSections_cons.2 ⟨_, _, first, _, Run.pure_yields.2 rfl, rfl⟩

/-! ## Roots are selected or unpacked -/

/-- The section with this index has visited the bundle and gone on with its sub-modules. -/
def Unpacks (d : Definition) (pool : Pool) (ignoreMissing : Bool) (i : Nat) (name : String) :
    Prop :=
  name ∈ d.newlyVisited pool ignoreMissing i ∧ ∃ s search info, d.sections[i]? = some s ∧
    s.search pool ignoreMissing = .ok search ∧ pool.record? name = some info ∧
    search.unpacks name info

/-- The first section unpacks the bundles that its walk visits. -/
theorem unpacks_of_walks {s : Section} {search : Search} {reached : Walk} {name : String}
    {info : ModuleInfo} (walks : search.Walks {} search.roots reached)
    (visited : name ∈ reached.visited) (first : d.sections[0]? = some s)
    (searched : s.search pool ignoreMissing = .ok search)
    (found : pool.record? name = some info) (unpacked : search.unpacks name info) :
    d.Unpacks pool ignoreMissing 0 name := by
  have start : search.start (d.walkBefore pool ignoreMissing 0) = {} := by
    rw [walkBefore_zero, Search.start]
    exact ite_self _
  refine ⟨⟨s, search, reached, first, searched, ?_, ?_⟩, s, search, info, first, searched, found,
    unpacked⟩
  · rw [start]
    exact walks.yields
  · rw [start]
    exact ⟨visited, List.not_mem_nil⟩

/-- What a section visits and finds, it selects or unpacks. -/
theorem selected_or_unpacked (h : (d.resolve pool ignoreMissing).Yields r) {i : Nat} {name : String}
    (new : name ∈ d.newlyVisited pool ignoreMissing i) (found : (pool.record? name).isSome) :
    (∃ t, r.sections[i]? = some t ∧ name ∈ t.modules) ∨ d.Unpacks pool ignoreMissing i name := by
  obtain ⟨s, _, _, hs, _⟩ := id new
  obtain ⟨search, modules, searched, resolved, _, _, mem⟩ := selects_least h hs
  obtain ⟨info, found⟩ := Option.isSome_iff_exists.1 found
  by_cases unpacked : search.unpacks name info
  · exact .inr ⟨new, s, search, info, hs, searched, found, unpacked⟩
  · obtain ⟨_, _, rfl⟩ := Section.search_eq_ok.1 searched
    exact .inl ⟨_, resolved, (mem name).2 ⟨new, info, found, unpacked⟩⟩

/-- **What the filters pick is selected or unpacked.** In a pool that finds what it lists, every
resource that a section accepts as a root has been selected or unpacked after it, by this section or
an earlier one that it shares its walk with. The one exception is a section that lists nothing but
names with a dot in the last segment: it is searched from these names alone, and may miss what lies
below them. -/
theorem resolve_picks (h : (d.resolve pool ignoreMissing).Yields r) (complete : pool.Complete)
    {i : Nat} {t : ResolvedSection} (ht : r.sections[i]? = some t) {filters : FilterList}
    (parsed : FilterList.parse t.definition.filters = .ok filters) {name : String}
    (known : name ∈ pool.names) (accepted : filters.selects name false) :
    (∃ j, d.Shares i j ∧ ((∃ u, r.sections[j]? = some u ∧ name ∈ u.modules) ∨
      d.Unpacks pool ignoreMissing j name)) ∨
    ∃ listed, filters.resources? = some listed ∧ name ∉ listed ∧
      ∃ path ∈ listed, Name.Below path name := by
  have hs : d.sections[i]? = some t.definition := by
    rw [← resolve_definitions h, List.getElem?_map, ht]
    rfl
  obtain ⟨search, _, searched, _, ⟨closed, _⟩, _⟩ := selects_least h hs
  obtain ⟨filters', parsed', rfl⟩ := Section.search_eq_ok.1 searched
  cases parsed.symm.trans parsed'
  -- the roots are the listed names, or else all that the pool has
  have root : name ∈ filters.resources?.getD pool.names ∨
      ∃ listed, filters.resources? = some listed ∧ name ∉ listed := by
    cases resources : filters.resources? with
    | none => exact .inl known
    | some listed =>
      by_cases mem : name ∈ listed
      · exact .inl mem
      · exact .inr ⟨listed, rfl, mem⟩
  rcases root with root | ⟨listed, resources, unlisted⟩
  · left
    have met : ∃ j, d.Shares i j ∧ name ∈ d.newlyVisited pool ignoreMissing j := by
      by_cases before : name ∈ d.visitedBefore pool ignoreMissing i
      · obtain ⟨here, j, hj, there, new⟩ := before
        exact ⟨j, .inr ⟨hj, there, here⟩, new⟩
      · exact ⟨i, .inl rfl, closed.root name root accepted before⟩
    obtain ⟨j, shares, new⟩ := met
    exact ⟨j, shares, selected_or_unpacked h new (complete.record known)⟩
  · right
    exact ⟨listed, resources, unlisted, FilterList.below_of_unlisted resources accepted unlisted⟩

end Definition

/-! ### A directory with a dot in its name -/

namespace Versioned

def array : String := "vendor/d3.v7/array.js"

def resources : List Resource :=
  [{ name := array, content := [59] }, { name := "vendor/d3.v7/test/array.js", content := [59] }]

def pool : Pool := .ofResources resources

/-- The directory without its tests. -/
def narrowed : Section := { filters := ["vendor/d3.v7", "!vendor/d3.v7/test/"] }

def narrowing : FilterList :=
  [⟨true, .directory "vendor/d3.v7"⟩, ⟨false, .directory "vendor/d3.v7/test/"⟩]

theorem narrowed_resolves : (Definition.resolve { sections := [narrowed] } pool true).Yields
    ⟨{ sections := [narrowed] }, [⟨narrowed, [array]⟩]⟩ := by
  have searched : narrowed.search pool true = .ok ⟨pool, true, narrowed, narrowing⟩ := rfl
  have picks : Search.picks ⟨pool, true, narrowed, narrowing⟩ = [array] := by decide +kernel
  rw [← picks]
  apply Definition.resolve_alone rfl searched rfl rfl fun _ => rfl
  intro name _ _
  exact Pool.keeps_of_bare (by decide) name

theorem narrowed_picked : (Definition.resolve { sections := [narrowed] } pool true).Yields
      ⟨{ sections := [narrowed] }, [⟨narrowed, [array]⟩]⟩ ∧
    ∃ j, Definition.Shares { sections := [narrowed] } 0 j ∧
      ((∃ u, [(⟨narrowed, [array]⟩ : ResolvedSection)][j]? = some u ∧ array ∈ u.modules) ∨
        Definition.Unpacks { sections := [narrowed] } pool true j array) := by
  refine ⟨narrowed_resolves, ?_⟩
  have parsed : FilterList.parse narrowed.filters = .ok narrowing := rfl
  have known : array ∈ pool.names := by decide
  have picked := Definition.resolve_picks narrowed_resolves (Pool.ofResources_complete resources)
    (i := 0) rfl parsed known (by decide +kernel)
  have mixed : narrowing.resources? = none := by decide +kernel
  exact picked.resolve_right fun ⟨_, listed, _⟩ => by cases mixed.symm.trans listed

def whole : Section := { filters := ["vendor/d3.v7"] }

/-- Alone, the directory is taken for a resource, and what lies in it is lost. -/
theorem whole_lost : (Definition.resolve { sections := [whole] } pool true).Yields
      ⟨{ sections := [whole] }, [⟨whole, []⟩]⟩ ∧
    pool.Complete ∧ array ∈ pool.names ∧
    (∃ filters, FilterList.parse whole.filters = .ok filters ∧ filters.selects array false) ∧
    ∀ i, ¬Definition.Unpacks { sections := [whole] } pool true i array := by
  have keeps : pool.Keeps array := Pool.keeps_of_bare (by decide) array
  refine ⟨?resolves, Pool.ofResources_complete resources, by decide, ?accepted, ?packed⟩
  case resolves =>
    have searched : whole.search pool true =
        .ok ⟨pool, true, whole, [⟨true, .directory "vendor/d3.v7"⟩]⟩ := rfl
    have picks : Search.picks ⟨pool, true, whole, [⟨true, .directory "vendor/d3.v7"⟩]⟩ = [] := by
      decide +kernel
    rw [← picks]
    apply Definition.resolve_alone rfl searched rfl rfl fun _ => rfl
    intro name _ _
    exact Pool.keeps_of_bare (by decide) name
  case accepted => exact ⟨[⟨true, .directory "vendor/d3.v7"⟩], rfl, by decide +kernel⟩
  case packed =>
    rintro i ⟨_, _, search, info, _, searched, found, unpacked⟩
    obtain ⟨_, _, rfl⟩ := Section.search_eq_ok.1 searched
    exact keeps info found _ rfl unpacked

end Versioned

/-! ## Lists of modules -/

/-- The section lists modules that the pool has and finds, each once, and takes them as they are. -/
structure Section.Enumerates (pool : Pool) (s : Section) : Prop where
  resolve : s.resolve = false
  renderer : s.renderer = false
  unsorted : s.mode = .raw → s.sort = false
  nonempty : s.filters ≠ []
  nodup : s.filters.Nodup
  known : ∀ name ∈ s.filters, name ∈ pool.names
  found : ∀ name ∈ s.filters, (pool.record? name).isSome
  kept : ∀ name ∈ s.filters, pool.Keeps name
  starless : ∀ name ∈ s.filters, '*' ∉ name.toList
  unmarked : ∀ name ∈ s.filters, name.toList.head? ≠ some '!' ∧ name.toList.head? ≠ some '+'

namespace Section

/-- What the pool has and finds at the listed paths or below them, in its own order. -/
def atPaths (s : Section) (pool : Pool) : List String :=
  (pool.names.filter fun name =>
    (pool.record? name).isSome ∧ ∃ path ∈ s.filters, path ≠ "" ∧ Name.At path name).eraseDups

theorem mem_atPaths {s : Section} {pool : Pool} {name : String} :
    name ∈ s.atPaths pool ↔ name ∈ pool.names ∧ (pool.record? name).isSome ∧
      ∃ path ∈ s.filters, path ≠ "" ∧ Name.At path name := by
  rw [atPaths, List.mem_eraseDups, List.mem_filter, decide_eq_true_iff]

/-- The search for what the patterns name outright. -/
def listing (s : Section) (pool : Pool) (ignoreMissing : Bool) : Search :=
  { pool, ignoreMissing, criteria := s, filters := s.filters.map Filter.listing }

namespace Enumerates

variable {pool : Pool} {s : Section} {ignoreMissing : Bool}

theorem search (lists : s.Enumerates pool) :
    s.search pool ignoreMissing = .ok (s.listing pool ignoreMissing) := by
  apply search_eq_ok.2
  refine ⟨_, FilterList.parse_plain fun name hn => ?_, rfl⟩
  exact Filter.parse_plain (lists.starless name hn) (lists.unmarked name hn)

/-- Names with a dot in the last segment stand for themselves. -/
theorem settled (lists : s.Enumerates pool)
    (dotted : ∀ name ∈ s.filters, '.' ∈ Name.file name) : s.Settled pool where
  resolve := lists.resolve
  renderer := lists.renderer
  listable := fun name hn => ⟨dotted name hn, lists.starless name hn, lists.unmarked name hn⟩
  nodup := lists.nodup
  emitted := by
    rintro search rfl name hn
    obtain ⟨info, found⟩ := Option.isSome_iff_exists.1 (lists.found name hn)
    exact ⟨info, found, lists.kept name hn info found search rfl⟩
  arranged := by
    rintro search _ rfl
    exact Search.arrange_unsorted lists.unsorted _

end Enumerates

variable {s : Section} {pool : Pool} {ignoreMissing : Bool}

/-- One name without a dot, and all that the pool has are roots. -/
theorem rootNames_of_undotted (undotted : ∃ name ∈ s.filters, '.' ∉ Name.file name) :
    (s.listing pool ignoreMissing).rootNames = pool.names := by
  have resources : (s.listing pool ignoreMissing).filters.resources? = none := by
    cases listed : (s.listing pool ignoreMissing).filters.resources? with
    | none => rfl
    | some names =>
      obtain ⟨_, same, dotted⟩ := FilterList.resources?_eq_some_iff.1 listed
      have same : s.filters = names := Filter.listing_injective.list_map same
      obtain ⟨name, hn, free⟩ := undotted
      exact absurd (dotted name (same ▸ hn)) free
  rw [Search.rootNames, resources]
  rfl

/-- What the patterns of such a section accept. -/
theorem listing_selects_iff {name : String} :
    (s.listing pool ignoreMissing).filters.selects name false ↔
      ∃ path ∈ s.filters, path ≠ "" ∧ Name.At path name := by
  simp only [← Matcher.directory_accepts_iff]
  exact FilterList.selects_map_listing

theorem picks_of_undotted (undotted : ∃ name ∈ s.filters, '.' ∉ Name.file name) :
    (s.listing pool ignoreMissing).picks = s.atPaths pool := by
  rw [Search.picks, rootNames_of_undotted undotted, atPaths]
  refine congrArg List.eraseDups (List.filter_congr fun name _ => ?_)
  rw [Bool.eq_iff_iff, Bool.and_eq_true, listing_selects_iff, decide_eq_true_iff]
  exact and_comm

end Section

namespace Definition

variable {d : Definition} {pool : Pool} {ignoreMissing : Bool} {s : Section}

/-- **Listed modules are selected in the listed order.** Alone in a definition, a section that lists
modules that the pool has and finds, and unpacks none of them, resolves to its list, if all of the
names have a dot in the last segment. If some name has none, the names are paths like any others:
the section resolves to what the pool has and finds at these paths or below them, the empty one
apart, in the order of the pool, provided that nothing of this is unpacked. -/
theorem resolve_listed (alone : d.sections = [s]) (lists : s.Enumerates pool) :
    ((∀ name ∈ s.filters, '.' ∈ Name.file name) →
      (d.resolve pool ignoreMissing).Yields ⟨d, [⟨s, s.filters⟩]⟩) ∧
    ((∃ name ∈ s.filters, '.' ∉ Name.file name) → (∀ name ∈ s.atPaths pool, pool.Keeps name) →
      (d.resolve pool ignoreMissing).Yields ⟨d, [⟨s, s.atPaths pool⟩]⟩) := by
  constructor
  case left =>
    intro dotted
    have settled : ∀ t ∈ d.sections, t.Settled pool := by
      intro t ht
      rw [alone] at ht
      exact List.mem_singleton.1 ht ▸ lists.settled dotted
    have nodup : ((d.sections.filter (·.mode ≠ .require)).flatMap (·.filters)).Nodup := by
      have sublist := (List.filter_sublist (p := (·.mode ≠ .require)) (l := d.sections)).flatMap
        (·.filters)
      apply List.Nodup.sublist sublist
      simpa [alone] using lists.nodup
    have resolves : (d.resolve pool ignoreMissing).Yields
        ⟨d, d.sections.map fun s => ⟨s, s.filters⟩⟩ := resolve_settled settled nodup
    rwa [alone] at resolves
  case right =>
    intro undotted keeps
    have kept : ∀ name ∈ (s.listing pool ignoreMissing).rootNames,
        (s.listing pool ignoreMissing).filters.selects name false → pool.Keeps name := by
      intro name hn accepted info found
      rw [Section.rootNames_of_undotted undotted] at hn
      have path := Section.listing_selects_iff.1 accepted
      exact keeps name (Section.mem_atPaths.2 ⟨hn, by simp [found], path⟩) info found
    have resolves :=
      resolve_alone alone lists.search lists.resolve lists.renderer lists.unsorted kept
    rwa [Section.picks_of_undotted undotted] at resolves

end Definition

/-! ### Files without an extension -/

namespace Notices

def resources : List Resource :=
  ["LICENSE", "NOTICE", "lib.js", "lib.js/part.js"].map fun name => { name, content := [59] }

def pool : Pool := .ofResources resources

theorem keeps (name : String) : pool.Keeps name := Pool.keeps_of_bare (by decide) name

def scripts : Section := { filters := ["lib.js/part.js", "lib.js"] }

def notices : Section := { filters := ["NOTICE", "LICENSE"] }

theorem scripts_enumerates : scripts.Enumerates pool :=
  ⟨rfl, rfl, fun _ => rfl, by decide, by decide, by decide, by decide, fun name _ => keeps name,
    by decide, by decide⟩

theorem notices_enumerates : notices.Enumerates pool :=
  ⟨rfl, rfl, fun _ => rfl, by decide, by decide, by decide, by decide, fun name _ => keeps name,
    by decide, by decide⟩

theorem scripts_and_notices_listed : scripts.Enumerates pool ∧ notices.Enumerates pool ∧
    (Definition.resolve { sections := [scripts] } pool true).Yields
      ⟨{ sections := [scripts] }, [⟨scripts, ["lib.js/part.js", "lib.js"]⟩]⟩ ∧
    (Definition.resolve { sections := [notices] } pool true).Yields
      ⟨{ sections := [notices] }, [⟨notices, ["LICENSE", "NOTICE"]⟩]⟩ := by
  refine ⟨scripts_enumerates, notices_enumerates, ?scripts, ?notices⟩
  case scripts =>
    exact (Definition.resolve_listed rfl scripts_enumerates).1 (by decide)
  case notices =>
    have paths : notices.atPaths pool = ["LICENSE", "NOTICE"] := by decide +kernel
    rw [← paths]
    exact (Definition.resolve_listed rfl notices_enumerates).2 (by decide)
      fun name _ => keeps name

/-- The listed order is lost. -/
theorem notices_reordered : notices.Enumerates pool ∧ pool.Complete ∧
    (Definition.resolve { sections := [notices] } pool true).Yields
      ⟨{ sections := [notices] }, [⟨notices, ["LICENSE", "NOTICE"]⟩]⟩ ∧
    ["LICENSE", "NOTICE"] ≠ notices.filters := by
  refine ⟨notices_enumerates, Pool.ofResources_complete resources, ?resolves, by decide⟩
  have searched : notices.search pool true = .ok (notices.listing pool true) :=
    notices_enumerates.search
  have picks : (notices.listing pool true).picks = ["LICENSE", "NOTICE"] := by decide +kernel
  rw [← picks]
  apply Definition.resolve_alone rfl searched rfl rfl fun _ => rfl
  intro name _ _
  exact keeps name

end Notices

end Bundler
