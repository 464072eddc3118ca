import Bundler.Markup
import Mathlib.Data.List.DropRight
import Mathlib.Data.List.TakeWhile

/-!
# What minification removes from markup

`Markup.minify` takes comments out of a markup text and then some blanks, unless the text has a
`pre` tag. `minify_removes` says which comments (`Uncommented`) and which blanks (`Sheds`), and that
no such blanks are left (`Tight`).
-/

namespace Bundler.Markup

open Text (isBlank isWord)

def Blank (s : List Char) : Prop := ∀ c ∈ s, isBlank c

/-- A tag begins in the text that is called `pre`, in either case and possibly within a namespace. -/
def HasPreTag (s : List Char) : Prop :=
  ∃ before scope name after, s = before ++ '<' :: (scope ++ name ++ after) ∧
    (scope = [] ∨ ∃ word, word ≠ [] ∧ (∀ c ∈ word, isWord c) ∧ scope = word ++ [':']) ∧
    name.map Char.toLower = ['p', 'r', 'e'] ∧ ∀ c ∈ after.head?, ¬isWord c

/-- The first occurrence of a word in a text stands between what is before and what is after it. -/
structure First (word s before after : List Char) : Prop where
  eq : s = before ++ word ++ after
  least : ∀ front back, s = front ++ word ++ back → before.length ≤ front.length

def opening : List Char := ['<', '!', '-', '-']

def closing : List Char := ['-', '-', '>']

/-- The second text is the first one without its comments. A comment begins with the first opening
mark and ends with the first closing mark behind it. What stands before a comment is not joined with
what follows to look for another one, and an opening mark that none closes begins no comment. -/
inductive Uncommented : List Char → List Char → Prop
  | plain {s : List Char}
      (unclosed : ∀ before inner, s = before ++ opening ++ inner → ¬closing <:+: inner) :
      Uncommented s s
  | comment {s before inner body after t : List Char} (opens : First opening s before inner)
      (closes : First closing inner body after) (later : Uncommented after t) :
      Uncommented s (before ++ t)

/-- Only blanks lie between this place and the start of the text, or its end, or both the end of a
tag before and the start of a tag after it. -/
inductive Loose : List Char → List Char → Prop
  | leading {before after : List Char} (blank : Blank before) : Loose before after
  | trailing {before after : List Char} (blank : Blank after) : Loose before after
  | between {front left right back : List Char} (left_blank : Blank left)
      (right_blank : Blank right) : Loose (front ++ '>' :: left) (right ++ '<' :: back)

/-- Deleting loose blanks from the second text, which stands behind the first one, leaves the
third. -/
inductive Sheds : List Char → List Char → List Char → Prop
  | done {before : List Char} : Sheds before [] []
  | keep {before s t : List Char} (c : Char) (later : Sheds (before ++ [c]) s t) :
      Sheds before (c :: s) (c :: t)
  | drop {before s t : List Char} {c : Char} (blank : isBlank c) (loose : Loose before s)
      (later : Sheds (before ++ [c]) s t) : Sheds before (c :: s) t

/-- No blanks stand directly between two tags or at an end of the text. -/
structure Tight (s : List Char) : Prop where
  between : ∀ front run back, s = front ++ '>' :: run ++ '<' :: back → Blank run → run = []
  leading : ∀ c ∈ s.head?, ¬isBlank c
  trailing : ∀ c ∈ s.getLast?, ¬isBlank c

variable {c : Char} {s t before after body rest : List Char}

/-! ## Tags -/

theorem afterLetters_eq_some {word : List Char} : afterLetters? word s = some rest ↔
    ∃ name, s = name ++ rest ∧ name.map Char.toLower = word := by
  induction word generalizing s with
  | nil => simp [afterLetters?, eq_comm]
  | cons w word ih =>
    cases s with
    | nil => simp [afterLetters?]
    | cons c s =>
      unfold afterLetters?
      by_cases same : c.toLower = w
      · rw [if_pos same, ih]
        constructor
        · rintro ⟨name, rfl, rfl⟩
          exact ⟨c :: name, rfl, by simp [same]⟩
        · rintro ⟨name, parted, spelt⟩
          cases name with
          | nil => cases spelt
          | cons d name =>
            obtain ⟨rfl, rfl⟩ := List.cons.inj parted
            exact ⟨name, rfl, (List.cons.inj spelt).2⟩
      · rw [if_neg same]
        refine iff_of_false (by simp) ?_
        rintro ⟨name, parted, spelt⟩
        cases name with
        | nil => cases spelt
        | cons d name =>
          obtain ⟨rfl, rfl⟩ := List.cons.inj parted
          exact same (List.cons.inj spelt).1

theorem any_head_eq_false {p : Char → Bool} : s.head?.any p = false ↔ ∀ c ∈ s.head?, ¬p c := by
  cases s <;> simp

theorem beginsWithPre_iff : beginsWithPre s = true ↔ ∃ name after, s = name ++ after ∧
    name.map Char.toLower = ['p', 'r', 'e'] ∧ ∀ c ∈ after.head?, ¬isWord c := by
  unfold beginsWithPre
  constructor
  · intro h
    split at h
    · next rest found =>
      obtain ⟨name, parted, spelt⟩ := afterLetters_eq_some.1 found
      exact ⟨name, rest, parted, spelt, any_head_eq_false.1 (by simpa using h)⟩
    · cases h
  · rintro ⟨name, after, parted, spelt, ends⟩
    have found := afterLetters_eq_some.2 ⟨name, parted, spelt⟩
    rw [found]
    simp [any_head_eq_false.2 ends]

/-- A namespace ends where its word does, since a colon is no word character. -/
theorem dropWhile_word {word : List Char} (h : ∀ c ∈ word, isWord c) :
    (word ++ ':' :: rest).dropWhile isWord = ':' :: rest := by
  have colon : ¬isWord ':' := by decide
  rw [List.dropWhile_append_of_pos h, List.dropWhile_cons_of_neg colon]

theorem beginsWithPreTag_iff : beginsWithPreTag s = true ↔
    ∃ scope name after, s = scope ++ name ++ after ∧
      (scope = [] ∨ ∃ word, word ≠ [] ∧ (∀ c ∈ word, isWord c) ∧ scope = word ++ [':']) ∧
      name.map Char.toLower = ['p', 'r', 'e'] ∧ ∀ c ∈ after.head?, ¬isWord c := by
  unfold beginsWithPreTag
  rw [Bool.or_eq_true, beginsWithPre_iff]
  constructor
  · rintro (⟨name, after, rfl, spelt, ends⟩ | within)
    · exact ⟨[], name, after, rfl, .inl rfl, spelt, ends⟩
    · split at within
      · next rest found =>
        obtain ⟨first, h⟩ := Bool.and_eq_true_iff.1 within
        obtain ⟨name, after, rfl, spelt, ends⟩ := beginsWithPre_iff.1 h
        have parted := List.takeWhile_append_dropWhile (p := isWord) (l := s)
        rw [found] at parted
        have whole : s = s.takeWhile isWord ++ [':'] ++ name ++ after := by simpa using parted.symm
        refine ⟨s.takeWhile isWord ++ [':'], name, after, whole, .inr ?_, spelt, ends⟩
        refine ⟨s.takeWhile isWord, ?_, fun c hc => List.mem_takeWhile_imp hc, rfl⟩
        cases s with
        | nil => simp at first
        | cons c s =>
          have word : isWord c := by simpa using first
          simp [word]
      · cases within
  · rintro ⟨scope, name, after, rfl, rfl | ⟨word, some, all, rfl⟩, spelt, ends⟩
    · exact .inl ⟨name, after, rfl, spelt, ends⟩
    · right
      have whole : word ++ [':'] ++ name ++ after = word ++ ':' :: (name ++ after) := by simp
      have first : (word ++ ':' :: (name ++ after)).head?.any isWord = true := by
        cases word with
        | nil => exact absurd rfl some
        | cons c word => simpa using all c List.mem_cons_self
      rw [whole, dropWhile_word all, first]
      exact beginsWithPre_iff.2 ⟨name, after, rfl, spelt, ends⟩

theorem hasSignificantBlanks_iff : hasSignificantBlanks s = true ↔ HasPreTag s := by
  induction s with
  | nil => simp [hasSignificantBlanks, HasPreTag]
  | cons c s ih =>
    simp only [hasSignificantBlanks, Bool.or_eq_true, Bool.and_eq_true, decide_eq_true_eq, ih,
      beginsWithPreTag_iff]
    constructor
    · rintro (⟨rfl, scope, name, after, rfl, h⟩ | ⟨before, scope, name, after, rfl, h⟩)
      · exact ⟨[], scope, name, after, rfl, h⟩
      · exact ⟨c :: before, scope, name, after, rfl, h⟩
    · rintro ⟨before, scope, name, after, parted, h⟩
      cases before with
      | nil =>
        obtain ⟨rfl, rfl⟩ := List.cons.inj parted
        exact .inl ⟨rfl, scope, name, after, rfl, h⟩
      | cons d before =>
        obtain ⟨rfl, rfl⟩ := List.cons.inj parted
        exact .inr ⟨before, scope, name, after, rfl, h⟩

instance (s : List Char) : Decidable (HasPreTag s) :=
  decidable_of_iff _ hasSignificantBlanks_iff

/-! ## Comments -/

theorem First.unique {word before' after' : List Char} (h : First word s before after)
    (h' : First word s before' after') : before = before' ∧ after = after' := by
  have same : before.length = before'.length :=
    Nat.le_antisymm (h.least _ _ h'.eq) (h'.least _ _ h.eq)
  have parted := h.eq.symm.trans h'.eq
  rw [List.append_assoc, List.append_assoc] at parted
  obtain ⟨rfl, rest⟩ := List.append_inj parted same
  exact ⟨rfl, List.append_cancel_left rest⟩

/-- A character in front makes no difference, unless the word begins with it. -/
theorem First.cons {word : List Char} (h : First word s before after)
    (other : ∀ back, c :: s ≠ word ++ back) : First word (c :: s) (c :: before) after := by
  refine ⟨by simp [h.eq], fun front back parted => ?_⟩
  cases front with
  | nil => exact (other back parted).elim
  | cons d front => exact Nat.succ_le_succ (h.least front back (List.cons.inj parted).2)

theorem Uncommented.unique (h : Uncommented s t) {t' : List Char} (h' : Uncommented s t') :
    t = t' := by
  induction h generalizing t' with
  | plain unclosed =>
    cases h' with
    | plain => rfl
    | comment opens closes =>
      exact absurd ⟨_, _, closes.eq.symm⟩ (unclosed _ _ opens.eq)
  | comment opens closes _ ih =>
    cases h' with
    | plain unclosed => exact absurd ⟨_, _, closes.eq.symm⟩ (unclosed _ _ opens.eq)
    | comment opens' closes' later' =>
      obtain ⟨rfl, rfl⟩ := opens.unique opens'
      obtain ⟨rfl, rfl⟩ := closes.unique closes'
      rw [ih later']

theorem first_of_afterComment (h : afterComment? s = some after) :
    ∃ body, First closing s body after := by
  fun_induction afterComment? s with
  | case1 rest =>
    cases h
    exact ⟨[], rfl, by simp⟩
  | case2 => cases h
  | case3 c rest other ih =>
    obtain ⟨body, found⟩ := ih h
    refine ⟨c :: body, found.cons fun back parted => ?_⟩
    obtain ⟨rfl, rfl⟩ := List.cons.inj parted
    exact other back rfl rfl

theorem not_closed_of_afterComment (h : afterComment? s = none) : ¬closing <:+: s := by
  fun_induction afterComment? s with
  | case1 => cases h
  | case2 => simp [closing]
  | case3 c rest other ih =>
    rintro ⟨front, back, parted⟩
    cases front with
    | nil =>
      obtain ⟨rfl, rfl⟩ := List.cons.inj parted
      exact other back rfl rfl
    | cons d front => exact ih h ⟨front, back, (List.cons.inj parted).2⟩

/-- A character in front is kept, unless it makes an opening mark of a comment. -/
theorem Uncommented.cons (h : Uncommented s t)
    (unclosed : ∀ inner, c :: s = opening ++ inner → ¬closing <:+: inner) :
    Uncommented (c :: s) (c :: t) := by
  cases h with
  | plain inside =>
    refine .plain fun before inner parted => ?_
    cases before with
    | nil => exact unclosed inner parted
    | cons d before => exact inside before inner (List.cons.inj parted).2
  | @comment _ before inner body after t opens closes later =>
    suffices other : ∀ back, c :: s ≠ opening ++ back from .comment (opens.cons other) closes later
    intro back parted
    -- The closing mark behind the later opening mark would also close this one.
    have closed : closing <:+: inner := ⟨_, _, closes.eq.symm⟩
    have here : s = ['!', '-', '-'] ++ back := (List.cons.inj parted).2
    have suffix : inner <:+ back := by
      have lengths := congrArg List.length (opens.eq.symm.trans here)
      simp only [opening, List.length_append, List.length_cons, List.length_nil] at lengths
      have ends : inner <:+ s := ⟨_, opens.eq.symm⟩
      have ends' : back <:+ s := ⟨_, here.symm⟩
      exact List.suffix_of_suffix_length_le ends ends' (by omega)
    exact absurd (closed.trans suffix.isInfix) (unclosed back parted)

theorem withoutComments_uncommented (s : List Char) : Uncommented s (withoutComments s) := by
  fun_induction withoutComments s with
  | case1 => exact .plain (by simp [opening])
  | case2 rest after found _ ih =>
    obtain ⟨body, closes⟩ := first_of_afterComment found
    have opens : First opening ('<' :: '!' :: '-' :: '-' :: rest) [] rest := ⟨rfl, by simp⟩
    exact .comment opens closes ih
  | case3 rest found ih =>
    refine ih.cons fun inner parted => ?_
    have same : opening ++ rest = opening ++ inner := parted
    obtain rfl := List.append_cancel_left same
    exact not_closed_of_afterComment found
  | case4 c rest other ih =>
    refine ih.cons fun inner parted => ?_
    obtain ⟨rfl, rfl⟩ := List.cons.inj parted
    exact (other inner rfl rfl).elim

theorem uncommented_iff : Uncommented s t ↔ t = withoutComments s := by
  constructor
  · exact fun h => h.unique (withoutComments_uncommented s)
  · rintro rfl
    exact withoutComments_uncommented s

/-! ## Blanks at the ends -/

theorem blank_nil : Blank [] := fun _ hc => absurd hc List.not_mem_nil

theorem blank_cons : Blank (c :: s) ↔ isBlank c ∧ Blank s := List.forall_mem_cons

theorem trim_eq (s : List Char) : Text.trim s = (s.dropWhile isBlank).rdropWhile isBlank := rfl

theorem exists_trim (s : List Char) : ∃ lead trail, Blank lead ∧ Blank trail ∧
    s = lead ++ Text.trim s ++ trail := by
  refine ⟨s.takeWhile isBlank, (s.dropWhile isBlank).rtakeWhile isBlank, ?_, ?_, ?_⟩
  · exact fun c hc => List.mem_takeWhile_imp hc
  · exact fun c hc => List.mem_rtakeWhile_imp hc
  · rw [trim_eq, List.append_assoc, List.rdropWhile_append_rtakeWhile,
      List.takeWhile_append_dropWhile]

theorem trim_getLast (s : List Char) : ∀ c ∈ (Text.trim s).getLast?, ¬isBlank c := by
  intro c hc
  obtain ⟨some, rfl⟩ := List.mem_getLast?_eq_getLast hc
  exact List.rdropWhile_last_not isBlank _ some

theorem trim_head (s : List Char) : ∀ c ∈ (Text.trim s).head?, ¬isBlank c := by
  intro c hc
  obtain ⟨more, kept⟩ := List.head?_eq_some_iff.1 hc
  obtain ⟨back, parted⟩ := List.rdropWhile_prefix isBlank (s.dropWhile isBlank)
  rw [← trim_eq, kept] at parted
  have stops := List.head?_dropWhile_not isBlank s
  rw [← parted] at stops
  simpa using stops

/-- What has no blanks at its ends is what is left when it stands between blanks. -/
theorem trim_between {lead trail : List Char} (blank : Blank lead) (blank' : Blank trail)
    (leading : ∀ c ∈ s.head?, ¬isBlank c) (trailing : ∀ c ∈ s.getLast?, ¬isBlank c) :
    Text.trim (lead ++ s ++ trail) = s := by
  have behind : (s ++ trail).rdropWhile isBlank = s := by
    have reversed : Blank trail.reverse := fun c hc => blank' c (List.mem_reverse.1 hc)
    rw [List.rdropWhile, List.reverse_append, List.dropWhile_append_of_pos reversed]
    apply List.rdropWhile_eq_self_iff.2
    exact fun some => trailing _ (List.getLast?_eq_some_getLast some)
  rw [trim_eq, List.append_assoc, List.dropWhile_append_of_pos blank]
  cases s with
  | nil =>
    rw [List.nil_append, List.dropWhile_eq_nil_iff.2 blank']
    rfl
  | cons c s => rw [List.cons_append, List.dropWhile_cons_of_neg (leading c rfl), ← List.cons_append,
      behind]

/-! ## Blanks between tags -/

theorem not_isBlank_start : ¬isBlank '<' := by decide

theorem not_isBlank_end : ¬isBlank '>' := by decide

theorem collapse_between (h : (s.dropWhile isBlank).head? = some '<') :
    collapse ('>' :: s) = '>' :: collapse (s.dropWhile isBlank) := by
  rw [collapse]
  simp [h]

theorem collapse_cons (h : c = '>' → (s.dropWhile isBlank).head? ≠ some '<') :
    collapse (c :: s) = c :: collapse s := by
  rw [collapse]
  by_cases tag : c = '>'
  · simp [h tag]
  · simp [tag]

theorem collapse_head (s : List Char) : (collapse s).head? = s.head? := by
  fun_induction collapse s <;> rfl

/-- The last character stands in front of no tag. -/
theorem collapse_getLast (s : List Char) : (collapse s).getLast? = s.getLast? := by
  fun_induction collapse s with
  | case1 => rfl
  | case2 c rest after _ h ih =>
    have parted : rest.takeWhile isBlank ++ after = rest := List.takeWhile_append_dropWhile
    have some : after ≠ [] := by rintro none; simp [none] at h
    obtain ⟨d, last⟩ := Option.ne_none_iff_exists'.1 (mt List.getLast?_eq_none_iff.1 some)
    rw [← parted, List.getLast?_cons, List.getLast?_cons, List.getLast?_append, ih, last]
    rfl
  | case3 c rest after _ h ih => rw [List.getLast?_cons, List.getLast?_cons, ih]

theorem collapse_blanks {lead : List Char} (blank : Blank lead) :
    collapse (lead ++ s) = lead ++ collapse s := by
  induction lead with
  | nil => rfl
  | cons c lead ih =>
    obtain ⟨first, later⟩ := blank_cons.1 blank
    rw [List.cons_append, collapse_cons, ih later, List.cons_append]
    rintro rfl
    exact absurd first not_isBlank_end

theorem head_dropWhile_append {trail : List Char} (blank : Blank trail) :
    ((s ++ trail).dropWhile isBlank).head? = (s.dropWhile isBlank).head? := by
  rw [List.dropWhile_append]
  split
  · next none => rw [List.isEmpty_iff.1 none, List.dropWhile_eq_nil_iff.2 blank]
  · next some =>
    cases kept : s.dropWhile isBlank with
    | nil => simp [kept] at some
    | cons c more => rfl

/-- Blanks before the first tag and behind the last one stay. -/
theorem collapse_append {lead trail : List Char} (blank : Blank lead) (blank' : Blank trail) :
    collapse (lead ++ s ++ trail) = lead ++ collapse s ++ trail := by
  rw [List.append_assoc, collapse_blanks blank, List.append_assoc]
  congr 1
  fun_induction collapse s with
  | case1 => simpa [collapse] using collapse_blanks (s := []) blank'
  | case2 c rest after _ h ih =>
    obtain ⟨rfl, tag⟩ : c = '>' ∧ after.head? = some '<' := by simpa using h
    have behind : (rest ++ trail).dropWhile isBlank = after ++ trail := by
      rw [List.dropWhile_append, if_neg]
      intro none
      have none : after = [] := List.isEmpty_iff.1 none
      simp [none] at tag
    rw [List.cons_append, collapse_between, behind, ih, List.cons_append]
    rw [head_dropWhile_append blank']
    exact tag
  | case3 c rest after _ h ih =>
    rw [List.cons_append, collapse_cons, ih, List.cons_append]
    rintro rfl
    rw [head_dropWhile_append blank']
    simpa using h

theorem collapse_dropWhile (s : List Char) :
    (collapse s).dropWhile isBlank = collapse (s.dropWhile isBlank) := by
  induction s with
  | nil => simp [collapse]
  | cons c s ih =>
    by_cases blank : isBlank c
    · rw [collapse_cons, List.dropWhile_cons_of_pos blank, List.dropWhile_cons_of_pos blank, ih]
      rintro rfl
      exact absurd blank not_isBlank_end
    · obtain ⟨more, same⟩ := List.head?_eq_some_iff.1 (collapse_head (c :: s))
      rw [List.dropWhile_cons_of_neg blank, same, List.dropWhile_cons_of_neg blank]

theorem collapse_tight (s : List Char) : ∀ front run back,
    collapse s = front ++ '>' :: run ++ '<' :: back → Blank run → run = [] := by
  fun_induction collapse s with
  | case1 => simp
  | case2 c rest after _ h ih =>
    intro front run back parted blank
    cases front with
    | nil =>
      obtain ⟨rfl, tag⟩ : c = '>' ∧ after.head? = some '<' := by simpa using h
      rw [← collapse_head after, (List.cons.inj parted).2] at tag
      cases run with
      | nil => rfl
      | cons d run =>
        obtain rfl : d = '<' := by simpa using tag
        exact absurd (blank _ List.mem_cons_self) not_isBlank_start
    | cons d front => exact ih front run back (List.cons.inj parted).2 blank
  | case3 c rest after _ h ih =>
    intro front run back parted blank
    cases front with
    | nil =>
      obtain ⟨rfl, kept⟩ : c = '>' ∧ collapse rest = run ++ '<' :: back := List.cons.inj parted
      -- Behind blanks the tag would begin that `h` says does not.
      have behind : collapse after = '<' :: back := by
        rw [← collapse_dropWhile, kept, List.dropWhile_append_of_pos blank,
          List.dropWhile_cons_of_neg not_isBlank_start]
      have tag := collapse_head after
      rw [behind] at tag
      simp [← tag] at h
    | cons d front => exact ih front run back (List.cons.inj parted).2 blank

/-! ## Deleting blanks -/

theorem sheds_leading {lead : List Char} (blank : Blank before) (blank' : Blank lead)
    (later : Sheds (before ++ lead) s t) : Sheds before (lead ++ s) t := by
  induction lead generalizing before with
  | nil => simpa using later
  | cons c lead ih =>
    obtain ⟨first, others⟩ := blank_cons.1 blank'
    refine .drop first (.leading blank) (ih ?_ others (by simpa using later))
    simpa [Blank, or_imp, forall_and] using And.intro blank first

theorem sheds_trailing (blank : Blank s) : Sheds before s [] := by
  induction s generalizing before with
  | nil => exact .done
  | cons c s ih =>
    obtain ⟨first, others⟩ := blank_cons.1 blank
    exact .drop first (.trailing others) (ih others)

theorem sheds_between {front left run back : List Char} (blank : Blank left) (blank' : Blank run)
    (later : Sheds (front ++ '>' :: left ++ run) ('<' :: back) t) :
    Sheds (front ++ '>' :: left) (run ++ '<' :: back) t := by
  induction run generalizing left with
  | nil => simpa using later
  | cons c run ih =>
    obtain ⟨first, others⟩ := blank_cons.1 blank'
    refine .drop first (.between blank others) ?_
    rw [List.append_assoc, List.cons_append]
    refine ih ?_ others (by simpa using later)
    simpa [Blank, or_imp, forall_and] using And.intro blank first

theorem collapse_sheds (before s : List Char) {trail : List Char} (blank : Blank trail) :
    Sheds before (s ++ trail) (collapse s) := by
  fun_induction collapse s generalizing before with
  | case1 => exact sheds_trailing blank
  | case2 c rest after _ h ih =>
    obtain ⟨rfl, tag⟩ : c = '>' ∧ after.head? = some '<' := by simpa using h
    obtain ⟨more, starts⟩ := List.head?_eq_some_iff.1 tag
    have parted : rest.takeWhile isBlank ++ after = rest := List.takeWhile_append_dropWhile
    rw [← parted]
    rw [List.cons_append, List.append_assoc, starts, List.cons_append]
    refine .keep _ (sheds_between blank_nil
      (fun c hc => List.mem_takeWhile_imp hc) ?_)
    rw [← List.cons_append, ← starts]
    exact ih _
  | case3 c rest after _ h ih => exact .keep c (ih _)

/-- Trimming and collapsing may change places. -/
theorem trim_collapse (s : List Char) : Text.trim (collapse s) = collapse (Text.trim s) := by
  obtain ⟨lead, trail, blank, blank', parted⟩ := exists_trim s
  have leading := collapse_head (Text.trim s) ▸ trim_head s
  have trailing := collapse_getLast (Text.trim s) ▸ trim_getLast s
  calc Text.trim (collapse s)
      = Text.trim (collapse (lead ++ Text.trim s ++ trail)) := by rw [← parted]
    _ = Text.trim (lead ++ collapse (Text.trim s) ++ trail) := by
      rw [collapse_append blank blank']
    _ = collapse (Text.trim s) := trim_between blank blank' leading trailing

/-! ## Main statement -/

/-- **Minification removes comments and the blanks that separate nothing.** A text with a `pre` tag
is left alone. From any other one the comments go, and then blanks between tags and at the ends, of
which none are left. -/
theorem minify_removes (text : String) :
    (HasPreTag text.toList → minify text = text) ∧
    (¬HasPreTag text.toList → ∃ bare, (∀ s, Uncommented text.toList s ↔ s = bare) ∧
      Sheds [] bare (minify text).toList ∧ Tight (minify text).toList) := by
  constructor
  · intro tag
    exact if_pos (hasSignificantBlanks_iff.2 tag)
  · intro free
    have minified : minify text =
        String.ofList (Text.trim (collapse (withoutComments text.toList))) :=
      if_neg (mt hasSignificantBlanks_iff.1 free)
    refine ⟨withoutComments text.toList, fun s => uncommented_iff, ?_⟩
    generalize withoutComments text.toList = bare at minified
    rw [minified, String.toList_ofList, trim_collapse]
    obtain ⟨lead, trail, blank, blank', parted⟩ := exists_trim bare
    constructor
    · conv => arg 2; rw [parted, List.append_assoc]
      exact sheds_leading blank_nil blank (collapse_sheds _ _ blank')
    · constructor
      case between => exact collapse_tight _
      case leading => exact collapse_head (Text.trim bare) ▸ trim_head bare
      case trailing => exact collapse_getLast (Text.trim bare) ▸ trim_getLast bare

/-- The comment in it leaves what would be another one. -/
def broken : String := "<!<!-- a -->-- b -->\n<a> c </a> "

theorem broken_minified : ¬HasPreTag broken.toList ∧ minify broken = "<!-- b --><a> c </a>" ∧
    ∃ bare, (∀ s, Uncommented broken.toList s ↔ s = bare) ∧
      Sheds [] bare (minify broken).toList ∧ Tight (minify broken).toList := by
  have free : ¬HasPreTag broken.toList := by decide +kernel
  have minified : minify broken = "<!-- b --><a> c </a>" := by decide +kernel
  exact ⟨free, minified, (minify_removes broken).2 free⟩

end Bundler.Markup
