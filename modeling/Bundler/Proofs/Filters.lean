import Bundler.Filter
import Mathlib.Data.List.Perm.Basic

/-!
# Lists of names as filters

Some filter lists name the resources they pick outright. Such a list is walked in its own order.
`Name.Listable` tells the names that stand for themselves as patterns; a list of them is parsed as
the list that it is.
-/

namespace Bundler

/-- The name stands for one resource as a pattern: its last segment has a dot, and nothing in it
makes it a glob or an exclusion. -/
structure Name.Listable (name : String) : Prop where
  dotted : '.' ∈ Name.file name
  starless : '*' ∉ name.toList
  unmarked : name.toList.head? ≠ some '!' ∧ name.toList.head? ≠ some '+'

instance (name : String) : Decidable (Name.Listable name) :=
  decidable_of_iff ('.' ∈ Name.file name ∧ '*' ∉ name.toList ∧
      name.toList.head? ≠ some '!' ∧ name.toList.head? ≠ some '+')
    ⟨fun ⟨dotted, starless, unmarked⟩ => ⟨dotted, starless, unmarked⟩,
      fun ⟨dotted, starless, unmarked⟩ => ⟨dotted, starless, unmarked⟩⟩

theorem Text.after?_eq_some {t s rest : List Char} :
    Text.after? t s = some rest ↔ s = t ++ rest := by
  rw [Text.after?, List.isPrefixOf?_eq_some_iff_append_eq]
  exact eq_comm

namespace Matcher

/-- A path accepts itself and what lies below it; one that ends with a slash accepts all that starts
with it. -/
theorem acceptsBelow_iff {path name : List Char} :
    acceptsBelow path name ↔ path ≠ [] ∧
      (name = path ∨ (∃ rest, name = path ++ '/' :: rest) ∨
        path.getLast? = some '/' ∧ path <+: name) := by
  unfold acceptsBelow
  by_cases empty : path = []
  · simp [empty]
  · rw [if_neg (by simpa using empty), and_iff_right empty]
    by_cases slash : path.getLast? = some '/'
    · rw [if_pos slash, List.isPrefixOf_iff_prefix, and_iff_right slash]
      constructor
      · intro starts
        exact .inr (.inr starts)
      · rintro (rfl | ⟨rest, rfl⟩ | starts)
        · exact List.prefix_refl _
        · exact List.prefix_append _ _
        · exact starts
    · rw [if_neg slash]
      cases after : Text.after? path name with
      | none =>
        have apart {rest : List Char} : name ≠ path ++ rest := by
          intro same
          rw [Text.after?_eq_some.2 same] at after
          cases after
        have other : name ≠ path := by
          intro same
          exact apart (same.trans (List.append_nil path).symm)
        simp [slash, apart, other]
      | some rest =>
        rw [Text.after?_eq_some.1 after]
        cases rest with
        | nil => simp
        | cons c rest => simp [slash, eq_comm]

end Matcher

namespace Filter

/-- The filter that includes one resource by its name. -/
def listing (name : String) : Filter := ⟨true, .directory name⟩

theorem listing_injective : Function.Injective listing := by
  intro name other same
  cases same
  rfl

/-- A name that is no glob and not marked is a pattern that includes it. -/
theorem parse_plain {name : String} (starless : '*' ∉ name.toList)
    (unmarked : name.toList.head? ≠ some '!' ∧ name.toList.head? ≠ some '+') :
    parse name = .ok (listing name) := by
  have plain : matcherOf name.toList = .ok (.directory name) := by
    simp [matcherOf, starless]
  unfold parse
  split
  · rename_i rest excluded
    exact absurd (by rw [excluded]; rfl) unmarked.1
  · rename_i rest included
    exact absurd (by rw [included]; rfl) unmarked.2
  · rw [plain]
    rfl

theorem resource?_eq_some {f : Filter} {name : String} :
    f.resource? = some name ↔ f = listing name ∧ '.' ∈ Name.file name := by
  obtain ⟨includes, matcher⟩ := f
  cases includes <;> cases matcher <;> simp [resource?, listing]
  constructor
  · rintro ⟨dotted, rfl⟩
    exact ⟨rfl, dotted⟩
  · rintro ⟨rfl, dotted⟩
    exact ⟨dotted, rfl⟩

end Filter

/-! ## Lists of filters -/

theorem mapM_eq_ok {α β ε : Type} {f : α → Except ε β} {xs : List α} {ys : List β} :
    xs.mapM f = .ok ys ↔ List.Forall₂ (fun x y => f x = .ok y) xs ys := by
  induction xs generalizing ys with
  | nil => cases ys <;> simp [pure, Except.pure]
  | cons x rest ih =>
    rw [List.mapM_cons, List.forall₂_cons_left_iff]
    cases f x with
    | error e => simp [bind, Except.bind]
    | ok y =>
      cases others : rest.mapM f with
      | error e => simp [bind, Except.bind, ← ih, others]
      | ok zs => simp [bind, Except.bind, pure, Except.pure, ← ih, others, eq_comm]

theorem mapM_cons_error {α β ε : Type} {f : α → Except ε β} {x : α} {xs : List α} {y : β} {e : ε}
    (h : f x = .ok y) : (x :: xs).mapM f = .error e ↔ xs.mapM f = .error e := by
  rw [List.mapM_cons, h]
  cases xs.mapM f <;> simp [bind, Except.bind, pure, Except.pure]

theorem exists_of_mapM_error {α β ε : Type} {f : α → Except ε β} {xs : List α} {e : ε}
    (h : xs.mapM f = .error e) : ∃ x ∈ xs, f x = .error e := by
  induction xs with
  | nil => cases h
  | cons x rest ih =>
    cases first : f x with
    | error e' =>
      rw [List.mapM_cons, first] at h
      cases h
      exact ⟨x, List.mem_cons_self, first⟩
    | ok y =>
      obtain ⟨x', hx, failed⟩ := ih ((mapM_cons_error first).1 h)
      exact ⟨x', List.mem_cons_of_mem _ hx, failed⟩

theorem mapM_error_of_mem {α β ε : Type} {f : α → Except ε β} {xs : List α} {x : α} {e : ε}
    (hx : x ∈ xs) (failed : f x = .error e) : ∃ e', xs.mapM f = .error e' := by
  induction xs with
  | nil => cases hx
  | cons y rest ih =>
    cases first : f y with
    | error e' => exact ⟨e', by rw [List.mapM_cons, first]; rfl⟩
    | ok z =>
      have later : x ∈ rest := by
        refine (List.mem_cons.1 hx).resolve_left ?_
        rintro rfl
        cases first.symm.trans failed
      obtain ⟨e', others⟩ := ih later
      exact ⟨e', (mapM_cons_error first).2 others⟩

theorem mapM_eq_some {α β : Type} {f : α → Option β} {xs : List α} {ys : List β} :
    xs.mapM f = some ys ↔ List.Forall₂ (fun x y => f x = some y) xs ys := by
  induction xs generalizing ys with
  | nil => cases ys <;> simp
  | cons x rest ih =>
    rw [List.mapM_cons, List.forall₂_cons_left_iff]
    simp only [Option.bind_eq_bind, Option.bind_eq_some_iff, Option.pure_def, Option.some.injEq, ih]
    constructor
    · rintro ⟨y, hy, others, ho, rfl⟩
      exact ⟨y, others, hy, ho, rfl⟩
    · rintro ⟨y, others, hy, ho, rfl⟩
      exact ⟨y, hy, others, ho, rfl⟩

namespace FilterList

/-- A filter that accepts the name overrules the decision so far. Where it is not asked, it would
have said the same. -/
theorem selects_cons (f : Filter) (fs : FilterList) (name : String) (required : Bool) :
    selects (f :: fs) name required =
      fs.selects name (if f.matcher.accepts name then f.includes else required) := by
  unfold selects
  rw [List.foldl_cons]
  cases required <;> cases f.includes <;> cases f.matcher.accepts name <;> rfl

/-- Where nothing is excluded, a name is taken that is required or that some filter accepts. -/
theorem selects_of_includes {fs : FilterList} (includes : ∀ f ∈ fs, f.includes) (name : String)
    (required : Bool) :
    fs.selects name required = (required || fs.any fun f => f.matcher.accepts name) := by
  induction fs generalizing required with
  | nil => simp [selects]
  | cons f rest ih =>
    rw [selects_cons, ih fun g hg => includes g (List.mem_cons_of_mem _ hg), List.any_cons,
      includes f List.mem_cons_self]
    cases required <;> cases f.matcher.accepts name <;> simp

theorem resources?_eq_some {fs : FilterList} {names : List String} :
    fs.resources? = some names ↔
      fs ≠ [] ∧ List.Forall₂ (fun f name => f.resource? = some name) fs names := by
  cases fs with
  | nil => simp [resources?]
  | cons f rest =>
    rw [and_iff_right (List.cons_ne_nil f rest)]
    exact mapM_eq_some

theorem parse_plain {names : List String}
    (plain : ∀ name ∈ names, Filter.parse name = .ok (Filter.listing name)) :
    parse names = .ok (names.map Filter.listing) :=
  mapM_eq_ok.2 (List.forall₂_map_right_iff.2 (List.forall₂_same.2 plain))

theorem parse_listable {names : List String} (h : ∀ name ∈ names, Name.Listable name) :
    parse names = .ok (names.map Filter.listing) :=
  parse_plain fun name hn => Filter.parse_plain (h name hn).starless (h name hn).unmarked

theorem resources?_listing {names : List String} (h : ∀ name ∈ names, Name.Listable name)
    (nonempty : names ≠ []) : resources? (names.map Filter.listing) = some names := by
  refine resources?_eq_some.2 ⟨by simpa using nonempty, ?_⟩
  refine List.forall₂_map_left_iff.2 (List.forall₂_same.2 fun name hn => ?_)
  exact Filter.resource?_eq_some.2 ⟨rfl, (h name hn).dotted⟩

/-- A list of names takes what any of them accepts as a path. -/
theorem selects_map_listing {names : List String} {name : String} :
    selects (names.map Filter.listing) name false ↔
      ∃ path ∈ names, (Matcher.directory path).accepts name := by
  have includes : ∀ f ∈ names.map Filter.listing, f.includes := by
    intro f hf
    obtain ⟨_, _, rfl⟩ := List.mem_map.1 hf
    rfl
  rw [selects_of_includes includes, Bool.false_or, List.any_map]
  exact List.any_eq_true

/-- A list of names takes all of them. -/
theorem selects_listing {names : List String} (h : ∀ name ∈ names, Name.Listable name)
    {name : String} (hn : name ∈ names) : selects (names.map Filter.listing) name false := by
  apply selects_map_listing.2
  refine ⟨name, hn, Matcher.acceptsBelow_iff.2 ⟨?_, .inl rfl⟩⟩
  intro empty
  have dotted := (h name hn).dotted
  rw [Name.file, empty] at dotted
  cases dotted

/-! ## Listing names in another order -/

theorem parse_perm {patterns patterns' : List String} {fs fs' : FilterList}
    (perm : patterns.Perm patterns') (h : parse patterns = .ok fs)
    (h' : parse patterns' = .ok fs') : fs.Perm fs' := by
  refine List.rel_perm_imp ?_ (mapM_eq_ok.1 h) (mapM_eq_ok.1 h') perm
  intro pattern f g hf hg
  exact Except.ok.inj (hf.symm.trans hg)

theorem includes_of_resources? {fs : FilterList} {names : List String}
    (h : fs.resources? = some names) : ∀ f ∈ fs, f.includes := by
  have each := (resources?_eq_some.1 h).2
  intro f hf
  obtain ⟨i, hi, rfl⟩ := List.getElem_of_mem hf
  have listed : fs[i].resource? = some _ := each.get hi (each.length_eq ▸ hi)
  rw [(Filter.resource?_eq_some.1 listed).1]
  rfl

theorem resources?_perm {fs fs' : FilterList} (perm : fs.Perm fs') {names : List String}
    (h : fs.resources? = some names) :
    ∃ names', fs'.resources? = some names' ∧ names'.Perm names := by
  obtain ⟨nonempty, each⟩ := resources?_eq_some.1 h
  obtain ⟨names', each', perm'⟩ := List.perm_comp_forall₂ perm.symm each
  exact ⟨names', resources?_eq_some.2 ⟨fun h => nonempty (h ▸ perm).eq_nil, each'⟩, perm'⟩

theorem selects_perm {fs fs' : FilterList} (perm : fs.Perm fs') {names : List String}
    (h : fs.resources? = some names) (name : String) (required : Bool) :
    fs.selects name required = fs'.selects name required := by
  have includes := includes_of_resources? h
  rw [selects_of_includes includes,
    selects_of_includes fun f hf => includes f (perm.mem_iff.2 hf), perm.any_eq]

end FilterList

end Bundler
