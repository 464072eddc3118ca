import Bundler.Proofs.Filters

/-!
# The last pattern decides

A filter list carries the decision so far from one filter to the next, and asks a filter only where
it could change that. `selects_by_last` says what comes out of this in terms of the patterns alone:
the last one that accepts a name decides, and only where there is none does it matter whether the
name is required.
-/

namespace Bundler

namespace Pattern

/-- An exclamation mark in front excludes what the pattern accepts, anything else includes it. -/
def includes (pattern : String) : Bool := pattern.toList.head? != some '!'

/-- Whether the pattern has something to say of the name. One that is no glob has not. -/
def accepts (pattern name : String) : Bool :=
  match Filter.parse pattern with
  | .ok f => f.matcher.accepts name
  | .error _ => false

/-- The last of the patterns that accept the name. -/
def last? (patterns : List String) (name : String) : Option String :=
  patterns.reverse.find? (accepts · name)

variable {pattern name : String} {patterns before after : List String}

theorem last?_append :
    last? (before ++ after) name = (last? after name).or (last? before name) := by
  rw [last?, List.reverse_append, List.find?_append]
  rfl

theorem last?_singleton :
    last? [pattern] name = if accepts pattern name then some pattern else none := by
  by_cases accepted : accepts pattern name <;> simp [last?, accepted]

theorem last?_cons : last? (pattern :: patterns) name =
    (last? patterns name).or (if accepts pattern name then some pattern else none) := by
  rw [← List.singleton_append, last?_append, last?_singleton]

theorem last?_isSome :
    (last? patterns name).isSome ↔ ∃ pattern ∈ patterns, accepts pattern name := by
  simp [last?, List.find?_isSome]

/-- What stands in front of a pattern that accepts the name cannot be the last that does. -/
theorem last?_append_of_accepts (accepted : ∃ pattern ∈ after, accepts pattern name) :
    last? (before ++ after) name = last? after name := by
  obtain ⟨last, found⟩ := Option.isSome_iff_exists.1 (last?_isSome.2 accepted)
  rw [last?_append, found, Option.some_or]

end Pattern

namespace Filter

variable {pattern : String} {f : Filter}

theorem parse_accepts (parsed : parse pattern = .ok f) (name : String) :
    Pattern.accepts pattern name = f.matcher.accepts name := by
  rw [Pattern.accepts, parsed]

theorem parse_includes (parsed : parse pattern = .ok f) :
    f.includes = Pattern.includes pattern := by
  have flag {included : Bool} {matcher : Except InvalidPattern Matcher}
      (h : matcher.map (⟨included, ·⟩) = .ok f) : f.includes = included := by
    cases matcher with
    | error e => cases h
    | ok m =>
      cases h
      rfl
  unfold parse at parsed
  split at parsed
  case h_1 rest marked =>
    rw [flag parsed, Pattern.includes, marked]
    rfl
  case h_2 rest marked =>
    rw [flag parsed, Pattern.includes, marked]
    rfl
  case h_3 unmarked _ =>
    rw [flag parsed, Pattern.includes, eq_comm, bne_iff_ne]
    intro marked
    obtain ⟨rest, marked⟩ := List.head?_eq_some_iff.1 marked
    exact unmarked rest marked

end Filter

namespace FilterList

theorem selects_eq_last {patterns : List String} {fs : FilterList}
    (parsed : parse patterns = .ok fs) (name : String) (required : Bool) :
    fs.selects name required =
      ((Pattern.last? patterns name).map Pattern.includes).getD required := by
  have each := mapM_eq_ok.1 parsed
  clear parsed
  induction each generalizing required with
  | nil => rfl
  | @cons pattern f _ _ first _ ih =>
    -- what the first filter says is what the others start from
    rw [selects_cons, ih, Pattern.last?_cons, ← Filter.parse_accepts first,
      Filter.parse_includes first]
    cases Pattern.last? _ name with
    | some last => rfl
    | none => by_cases accepted : Pattern.accepts pattern name <;> simp [accepted]

/-- A list of patterns is valid if each of them is. -/
theorem exists_parse_iff {patterns : List String} :
    (∃ fs, parse patterns = .ok fs) ↔ ∀ pattern ∈ patterns, ∃ f, Filter.parse pattern = .ok f := by
  constructor
  · rintro ⟨fs, parsed⟩ pattern hp
    cases result : Filter.parse pattern with
    | ok f => exact ⟨f, rfl⟩
    | error e =>
      obtain ⟨e', failed⟩ := mapM_error_of_mem hp result
      cases parsed.symm.trans failed
  · intro each
    cases result : parse patterns with
    | ok fs => exact ⟨fs, rfl⟩
    | error e =>
      obtain ⟨pattern, hp, failed⟩ := exists_of_mapM_error result
      obtain ⟨f, parsed⟩ := each pattern hp
      cases parsed.symm.trans failed

/-- **The last pattern that accepts a name decides.** If it excludes, the name is not taken, else it
is. If no pattern accepts the name, it is taken if it is required. So what is taken as a root is
taken as a dependency too, and a pattern that is put in front of the last one that accepts the name
makes no difference to it. -/
theorem selects_by_last {patterns : List String} {filters : FilterList}
    (valid : parse patterns = .ok filters) (name : String) :
    (∀ required, filters.selects name required =
      match Pattern.last? patterns name with
      | some pattern => Pattern.includes pattern
      | none => required) ∧
    (filters.selects name false → filters.selects name true) ∧
    ∀ before after, patterns = before ++ after → (∃ p ∈ after, Pattern.accepts p name) →
      ∀ pattern f, Filter.parse pattern = .ok f →
        ∃ longer, parse (before ++ pattern :: after) = .ok longer ∧
          ∀ required, longer.selects name required = filters.selects name required := by
  refine ⟨?decided, ?root, ?inserted⟩
  case decided =>
    intro required
    rw [selects_eq_last valid]
    cases Pattern.last? patterns name <;> rfl
  case root =>
    rw [selects_eq_last valid, selects_eq_last valid]
    cases Pattern.last? patterns name with
    | some last => exact id
    | none =>
      intro root
      cases root
  case inserted =>
    rintro before after rfl accepted pattern f parsed
    have each := exists_parse_iff.1 ⟨filters, valid⟩
    obtain ⟨longer, valid'⟩ : ∃ longer, parse (before ++ pattern :: after) = .ok longer := by
      apply exists_parse_iff.2
      intro p hp
      rcases List.mem_append.1 hp with hp | hp
      · exact each p (List.mem_append_left _ hp)
      · rcases List.mem_cons.1 hp with rfl | hp
        · exact ⟨f, parsed⟩
        · exact each p (List.mem_append_right _ hp)
    refine ⟨longer, valid', ?_⟩
    intro required
    have behind : ∃ p ∈ pattern :: after, Pattern.accepts p name := by
      obtain ⟨p, hp, accepted⟩ := accepted
      exact ⟨p, List.mem_cons_of_mem _ hp, accepted⟩
    rw [selects_eq_last valid', selects_eq_last valid, Pattern.last?_append_of_accepts behind,
      Pattern.last?_append_of_accepts accepted, ← List.singleton_append,
      Pattern.last?_append_of_accepts accepted]

end FilterList

/-! ### Tests with helpers among them -/

namespace Helpers

/-- The application with the helpers of its tests, but without the tests. -/
def patterns : List String := ["app/", "!app/**/test/**", "+app/test/util/"]

def helper : String := "app/test/util/Helper.js"

/-- What is excluded first is included again, whatever is excluded in between. -/
theorem helper_included : ∃ filters, FilterList.parse patterns = .ok filters ∧
    Pattern.last? patterns helper = some "+app/test/util/" ∧
    (∀ required, filters.selects helper required = true) ∧
    (filters.selects helper false ∧ filters.selects helper true) ∧
    Pattern.accepts "!*/**/util/" helper ∧
    ∃ longer, FilterList.parse ["app/", "!app/**/test/**", "!*/**/util/", "+app/test/util/"] =
        .ok longer ∧ ∀ required, longer.selects helper required = true := by
  obtain ⟨filters, valid⟩ : ∃ filters, FilterList.parse patterns = .ok filters := ⟨_, rfl⟩
  obtain ⟨glob, parsed⟩ : ∃ f, Filter.parse "!*/**/util/" = .ok f := ⟨_, rfl⟩
  have last : Pattern.last? patterns helper = some "+app/test/util/" := by decide +kernel
  have excluded : Pattern.accepts "!*/**/util/" helper := by decide +kernel
  have behind : ∃ p ∈ ["+app/test/util/"], Pattern.accepts p helper := by decide +kernel
  obtain ⟨decided, root, inserted⟩ := FilterList.selects_by_last valid helper
  rw [last] at decided
  obtain ⟨longer, valid', same⟩ :=
    inserted ["app/", "!app/**/test/**"] ["+app/test/util/"] rfl behind "!*/**/util/" glob parsed
  have taken : filters.selects helper false := decided false
  refine ⟨filters, valid, last, decided, ⟨taken, root taken⟩, excluded, longer, valid', ?_⟩
  intro required
  rw [same, decided]
  rfl

end Helpers

end Bundler
