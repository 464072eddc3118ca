import Bundler.Script.Edit
import Bundler.Text.Utf8
import Mathlib.Data.List.Nodup

/-!
# Edits in one pass

`Edit.apply` performs edits one after the other, from the back to the front. If the edits keep apart
(`Apart`), this comes to the same as one pass over the source from the front to the back (`weave`):
`apply_eq_weave`. What a pass writes before a place and behind it can be told apart there
(`weave_append`). Edits of a text do the same to its bytes (`apply_bytes`).
-/

namespace Bundler.Edit

variable {α : Type}

/-- The texts of the edits that start at a place, in the order in which they were recorded. -/
def inserted (edits : List (Edit α)) (place : Nat) : List α :=
  (edits.filter (·.start = place)).flatMap text

/-- Whether an edit replaces what stands at a place. -/
def covers (edits : List (Edit α)) (place : Nat) : Bool :=
  edits.any fun e => e.start ≤ place && place < e.stop

/-- The source from a place on, with the text of each edit where its range was. -/
def weave (edits : List (Edit α)) (place : Nat) : List α → List α
  | [] => inserted edits place
  | a :: source =>
    inserted edits place ++ (if covers edits place then [] else [a]) ++
      weave edits (place + 1) source

/-- The ranges of the edits lie within the length of the source and apart from each other, and
nothing is inserted where another edit begins to replace. -/
structure Apart (length : Nat) (edits : List (Edit α)) : Prop where
  within : ∀ e ∈ edits, e.start ≤ e.stop ∧ e.stop ≤ length
  apart : edits.Pairwise fun a b => a.stop ≤ b.start ∨ b.stop ≤ a.start
  beside : ∀ a ∈ edits, ∀ b ∈ edits, a.start = a.stop → b.start < b.stop → a.start ≠ b.start

variable {edits earlier later : List (Edit α)} {place n : Nat} {s t : List α}

/-! ## One pass -/

theorem inserted_append (place : Nat) : inserted (earlier ++ later) place =
    inserted earlier place ++ inserted later place := by
  simp [inserted]

theorem inserted_eq_nil (h : ∀ e ∈ edits, e.start ≠ place) : inserted edits place = [] := by
  have none : edits.filter (·.start = place) = [] := by
    simpa [List.filter_eq_nil_iff] using h
  rw [inserted, none]
  rfl

theorem covers_append (place : Nat) : covers (earlier ++ later) place =
    (covers earlier place || covers later place) :=
  List.any_append

theorem covers_eq_false (h : ∀ e ∈ edits, place < e.start ∨ e.stop ≤ place) :
    covers edits place = false := by
  simp only [covers, List.any_eq_false, Bool.and_eq_true, decide_eq_true_eq]
  intro e he
  have := h e he
  omega

theorem inserted_past (h : ∀ e ∈ earlier, e.start < place) :
    inserted (earlier ++ later) place = inserted later place := by
  rw [inserted_append, inserted_eq_nil fun e he => Nat.ne_of_lt (h e he), List.nil_append]

theorem covers_past (h : ∀ e ∈ earlier, e.stop ≤ place) :
    covers (earlier ++ later) place = covers later place := by
  rw [covers_append, covers_eq_false fun e he => .inr (h e he), Bool.false_or]

/-- Edits before a place do not matter from there on. -/
theorem weave_past (h : ∀ e ∈ earlier, e.start < place ∧ e.stop ≤ place) :
    weave (earlier ++ later) place s = weave later place s := by
  induction s generalizing place with
  | nil => exact inserted_past fun e he => (h e he).1
  | cons a s ih =>
    have further : ∀ e ∈ earlier, e.start < place + 1 ∧ e.stop ≤ place + 1 := by
      intro e he
      have := h e he
      omega
    rw [weave, weave, inserted_past fun e he => (h e he).1, covers_past fun e he => (h e he).2,
      ih further]

/-- A pass can be cut at a place between the edits. What was recorded for the place itself stays in
order if it was recorded first for the part before. -/
theorem weave_append (h : ∀ e ∈ earlier, e.start ≤ place + s.length ∧ e.stop ≤ place + s.length)
    (h' : ∀ e ∈ later, place + s.length ≤ e.start) :
    weave (earlier ++ later) place (s ++ t) =
      weave earlier place s ++ weave later (place + s.length) t := by
  induction s generalizing place with
  | nil =>
    rw [List.length_nil, Nat.add_zero] at h ⊢
    cases t with
    | nil => exact inserted_append place
    | cons a t =>
      have past : ∀ e ∈ earlier, e.start < place + 1 ∧ e.stop ≤ place + 1 := by
        intro e he
        have := h e he
        omega
      rw [List.nil_append, weave, weave, inserted_append, covers_past fun e he => (h e he).2,
        weave_past past]
      simp [weave]
  | cons a s ih =>
    rw [List.length_cons] at h h' ⊢
    have next : place + 1 + s.length = place + (s.length + 1) := by omega
    have rest := @ih (place + 1) (by rwa [next]) (by rwa [next])
    have none : inserted later place = [] := by
      apply inserted_eq_nil
      intro e he
      have := h' e he
      omega
    have free : covers later place = false := by
      apply covers_eq_false
      intro e he
      have := h' e he
      omega
    simp [weave, inserted_append, covers_append, none, free, rest, next]

theorem weave_nil (place : Nat) (s : List α) : weave [] place s = s := by
  induction s generalizing place with
  | nil => rfl
  | cons a s ih => simp [weave, inserted, covers, ih]

/-- Where no edit is, the source is copied. -/
theorem weave_copy (h : ∀ e ∈ edits, place + s.length ≤ e.start) :
    weave edits place (s ++ t) = s ++ weave edits (place + s.length) t := by
  have cut := @weave_append α [] edits place s t (by simp) h
  rwa [List.nil_append, weave_nil] at cut

theorem weave_covered {e : Edit α} (h : e.start < place) (h' : place + s.length ≤ e.stop) :
    weave [e] place s = [] := by
  have none : inserted [e] place = [] := inserted_eq_nil (by simpa using Nat.ne_of_lt h)
  induction s generalizing place with
  | nil => exact none
  | cons a s ih =>
    rw [List.length_cons] at h'
    have covered : covers [e] place = true := by
      simp only [covers, List.any_cons, List.any_nil, Bool.or_false, Bool.and_eq_true,
        decide_eq_true_eq]
      omega
    rw [weave, none, covered, ih (by omega) (by omega)]
    · rfl
    · exact inserted_eq_nil (by simp; omega)

/-- What stands in the range of an edit gives way to its text. -/
theorem weave_singleton (e : Edit α) (h : e.stop = e.start + s.length) :
    weave [e] e.start s = e.text := by
  have here : inserted [e] e.start = e.text := by simp [inserted]
  cases s with
  | nil => exact here
  | cons a s =>
    rw [List.length_cons] at h
    have covered : covers [e] e.start = true := by
      simp only [covers, List.any_cons, List.any_nil, Bool.or_false, Bool.and_eq_true,
        decide_eq_true_eq]
      omega
    rw [weave, here, covered, weave_covered (by omega) (by omega)]
    simp

theorem weave_insert (h : ∀ e ∈ edits, place ≤ e.start) (text s : List α) :
    weave (insert place text :: edits) place s = text ++ weave edits place s := by
  have own : weave [insert place text] place [] = text := by simp [weave, inserted, insert]
  have cut := @weave_append α [insert place text] edits place [] s (by simp [insert]) h
  rwa [own] at cut

/-- The texts of two insertions enclose what stands between their places. -/
theorem weave_enclose (place : Nat) (front middle back left right : List α) :
    weave [insert (place + front.length) left, insert (place + front.length + middle.length) right]
        place (front ++ (middle ++ back)) =
      front ++ (left ++ (middle ++ (right ++ back))) := by
  rw [weave_copy (by simp [insert, Nat.add_assoc]), weave_insert (by simp [insert]),
    weave_copy (by simp [insert]), weave_insert (by simp), weave_nil]

/-! ## From the back to the front -/

theorem take_eq_append {i j : Nat} (h : i ≤ j) (s : List α) :
    s.take j = s.take i ++ (s.take j).drop i := by
  have first : s.take i = (s.take j).take i := by rw [List.take_take, Nat.min_eq_left h]
  rw [first, List.take_append_drop]

theorem exists_parts {i j : Nat} (h : i ≤ j) (h' : j ≤ s.length) : ∃ front middle back,
    s = front ++ middle ++ back ∧ front.length = i ∧ (front ++ middle).length = j := by
  refine ⟨s.take i, (s.take j).drop i, s.drop j, ?_, ?_, ?_⟩
  · rw [← take_eq_append h, List.take_append_drop]
  · exact List.length_take_of_le (Nat.le_trans h h')
  · rw [← take_eq_append h, List.length_take_of_le h']

theorem splice_parts {e : Edit α} {front middle back : List α} (start : front.length = e.start)
    (stop : (front ++ middle).length = e.stop) :
    splice (front ++ middle ++ back) e = front ++ e.text ++ back := by
  rw [splice, ← stop, List.drop_left, ← start, List.append_assoc front middle, List.take_left]

/-- The first edit is performed last, and what the others have done before leaves its range. -/
theorem splice_weave {e : Edit α} (h : e.start ≤ e.stop) (h' : e.stop ≤ s.length)
    (behind : ∀ f ∈ edits, e.stop ≤ f.start) :
    splice (weave edits 0 s) e = weave (e :: edits) 0 s := by
  obtain ⟨front, middle, back, rfl, start, stop⟩ := exists_parts h h'
  have others : weave edits 0 (front ++ middle ++ back) =
      front ++ middle ++ weave edits e.stop back := by
    rw [weave_copy (by simpa [stop] using behind), Nat.zero_add, stop]
  have own : weave [e] 0 (front ++ middle) = front ++ e.text := by
    rw [List.length_append] at stop
    rw [weave_copy (by simp [start]), Nat.zero_add, start, weave_singleton e (by omega)]
  have cut : weave ([e] ++ edits) 0 (front ++ middle ++ back) =
      weave [e] 0 (front ++ middle) ++ weave edits e.stop back := by
    rw [weave_append (by simp [stop]; omega) (by simpa [stop] using behind), Nat.zero_add, stop]
  rw [← List.singleton_append, cut, own, others, splice_parts start stop]

theorem foldr_splice (within : ∀ e ∈ edits, e.start ≤ e.stop ∧ e.stop ≤ s.length)
    (ordered : edits.Pairwise fun a b => a.stop ≤ b.start) :
    edits.foldr (fun e t => splice t e) s = weave edits 0 s := by
  induction edits with
  | nil => exact (weave_nil 0 s).symm
  | cons e edits ih =>
    obtain ⟨behind, ordered⟩ := List.pairwise_cons.1 ordered
    obtain ⟨first, within⟩ := List.forall_mem_cons.1 within
    rw [List.foldr_cons, ih within ordered, splice_weave first.1 first.2 behind]

/-! ## Any order of recording -/

def numbered (edits : List (Edit α)) : List (Nat × Edit α) := (List.range edits.length).zip edits

/-- The edits from the front to the back, those at one place in the order in which they were
recorded. -/
def inOrder (edits : List (Edit α)) : List (Edit α) :=
  ((numbered edits).mergeSort before).reverse.map Prod.snd

theorem apply_eq_foldr (source : List α) (edits : List (Edit α)) :
    apply source edits = (inOrder edits).foldr (fun e t => splice t e) source := by
  rw [inOrder, List.foldr_map, List.foldr_reverse]
  rfl

theorem map_numbered (edits : List (Edit α)) : (numbered edits).map Prod.snd = edits :=
  List.map_snd_zip (by simp)

theorem numbers_increasing (edits : List (Edit α)) :
    ((numbered edits).map Prod.fst).Pairwise (· < ·) := by
  rw [numbered, List.map_fst_zip (by simp)]
  exact List.pairwise_lt_range

theorem sorted_before (edits : List (Edit α)) :
    ((numbered edits).mergeSort before).reverse.Pairwise fun a b => before b a = true := by
  rw [List.pairwise_reverse]
  apply List.pairwise_mergeSort
  · intro a b c
    simp only [before, Bool.or_eq_true, Bool.and_eq_true, beq_iff_eq, decide_eq_true_eq]
    omega
  · intro a b
    simp only [before, Bool.or_eq_true, Bool.and_eq_true, beq_iff_eq, decide_eq_true_eq]
    omega

theorem inOrder_perm (edits : List (Edit α)) : (inOrder edits).Perm edits := by
  have perm := ((List.reverse_perm _).trans (List.mergeSort_perm (numbered edits) before)).map
    Prod.snd
  rwa [map_numbered] at perm

theorem inOrder_sorted (edits : List (Edit α)) :
    (inOrder edits).Pairwise fun a b => a.start ≤ b.start := by
  rw [inOrder, List.pairwise_map]
  refine (sorted_before edits).imp fun {a b} h => ?_
  simp only [before, Bool.or_eq_true, Bool.and_eq_true, beq_iff_eq, decide_eq_true_eq] at h
  omega

/-- Sorting is stable: the numbers alone order the edits that start at one place. -/
theorem sorted_filter (edits : List (Edit α)) (place : Nat) :
    ((numbered edits).mergeSort before).reverse.filter (·.2.start = place) =
      (numbered edits).filter (·.2.start = place) := by
  have perm := (List.reverse_perm _).trans (List.mergeSort_perm (numbered edits) before)
  have increasing := List.pairwise_map.1 (numbers_increasing edits)
  have sorted : (((numbered edits).mergeSort before).reverse.filter (·.2.start = place)).Pairwise
      fun a b => a.1 ≤ b.1 := by
    refine ((sorted_before edits).filter _).imp_of_mem fun {a b} ha hb h => ?_
    have start : a.2.start = place := by simpa using (List.mem_filter.1 ha).2
    have start' : b.2.start = place := by simpa using (List.mem_filter.1 hb).2
    simp only [before, Bool.or_eq_true, Bool.and_eq_true, beq_iff_eq, decide_eq_true_eq] at h
    omega
  refine List.Perm.eq_of_pairwise (fun a b ha hb h h' => ?_) sorted
    ((increasing.filter _).imp Nat.le_of_lt) (perm.filter _)
  have distinct : ((numbered edits).map Prod.fst).Nodup :=
    (numbers_increasing edits).imp Nat.ne_of_lt
  exact List.inj_on_of_nodup_map distinct (perm.mem_iff.1 (List.mem_of_mem_filter ha))
    (List.mem_of_mem_filter hb) (Nat.le_antisymm h h')

theorem inOrder_filter (edits : List (Edit α)) (place : Nat) :
    (inOrder edits).filter (·.start = place) = edits.filter (·.start = place) := by
  have recorded : edits.filter (·.start = place) =
      ((numbered edits).map Prod.snd).filter (·.start = place) := by rw [map_numbered]
  rw [recorded, inOrder, List.filter_map, List.filter_map]
  exact congrArg (List.map Prod.snd) (sorted_filter edits place)

theorem weave_congr {edits' : List (Edit α)}
    (h : ∀ place, inserted edits place = inserted edits' place)
    (h' : ∀ place, covers edits place = covers edits' place) (place : Nat) (s : List α) :
    weave edits place s = weave edits' place s := by
  induction s generalizing place with
  | nil => exact h place
  | cons a s ih => rw [weave, weave, h, h', ih]

theorem weave_inOrder (edits : List (Edit α)) (place : Nat) (s : List α) :
    weave (inOrder edits) place s = weave edits place s := by
  apply weave_congr
  · intro place
    rw [inserted, inOrder_filter, inserted]
  · intro place
    exact (inOrder_perm edits).any_eq

/-- Edits that keep apart follow one another in order. -/
theorem Apart.ordered (h : Apart n edits) :
    (inOrder edits).Pairwise fun a b => a.stop ≤ b.start := by
  have apart : (inOrder edits).Pairwise fun a b => a.stop ≤ b.start ∨ b.stop ≤ a.start :=
    ((inOrder_perm edits).pairwise_iff fun h => h.symm).2 h.apart
  refine ((inOrder_sorted edits).and apart).imp_of_mem fun {a b} ha hb hab => ?_
  have ha := (inOrder_perm edits).mem_iff.1 ha
  have hb := (inOrder_perm edits).mem_iff.1 hb
  have within := h.within a ha
  have within' := h.within b hb
  have beside := h.beside b hb a ha
  omega

theorem Apart.within_inOrder (h : Apart n edits) :
    ∀ e ∈ inOrder edits, e.start ≤ e.stop ∧ e.stop ≤ n :=
  fun e he => h.within e ((inOrder_perm edits).mem_iff.1 he)

/-- **Performing edits one after the other is one pass over the source**, if they keep apart. -/
theorem apply_eq_weave {source : List α} (h : Apart source.length edits) :
    apply source edits = weave edits 0 source := by
  rw [apply_eq_foldr, foldr_splice h.within_inOrder h.ordered, weave_inOrder]

example : weave [⟨3, 4, ['y']⟩, insert 1 ['x'], insert 1 ['z']] 0 ['a', 'b', 'c', 'd'] =
    ['a', 'x', 'z', 'b', 'c', 'y'] := by decide

/-- Insertions behind the first edit keep apart, in whatever order they are recorded. -/
theorem Apart.of_insertions {e : Edit α} (h : e.start ≤ e.stop) (h' : e.stop ≤ n)
    (insertions : ∀ f ∈ edits, f.start = f.stop ∧ e.stop ≤ f.start ∧ f.stop ≤ n) :
    Apart n (e :: edits) := by
  constructor
  case within =>
    intro f hf
    rcases List.mem_cons.1 hf with rfl | hf
    · exact ⟨h, h'⟩
    · have := insertions f hf
      omega
  case apart =>
    refine List.pairwise_cons.2 ⟨fun f hf => .inl (insertions f hf).2.1, ?_⟩
    refine List.pairwise_of_forall_mem_list fun f hf g hg => ?_
    have := insertions f hf
    have := insertions g hg
    omega
  case beside =>
    intro f hf g hg
    rcases List.mem_cons.1 hf with rfl | behind <;>
      rcases List.mem_cons.1 hg with rfl | behind'
    · omega
    · have := insertions g behind'
      omega
    · have := insertions f behind
      omega
    · have := insertions g behind'
      omega

/-! ## Encoded texts -/

variable {β : Type} {encode : α → List β} {source : List α} {e : Edit α}

/-- Where a place of a text is once the text is encoded. -/
def encodedPlace (encode : α → List β) (source : List α) (place : Nat) : Nat :=
  ((source.take place).flatMap encode).length

/-- The edit that has the same effect on the encoded text. -/
def encoded (encode : α → List β) (source : List α) (e : Edit α) : Edit β :=
  ⟨encodedPlace encode source e.start, encodedPlace encode source e.stop, e.text.flatMap encode⟩

theorem encodedPlace_add {i j : Nat} (h : i ≤ j) : encodedPlace encode source j =
    encodedPlace encode source i + (((source.take j).drop i).flatMap encode).length := by
  have lengths := congrArg (fun s => (s.flatMap encode).length) (take_eq_append h source)
  rw [List.flatMap_append, List.length_append] at lengths
  exact lengths

theorem encodedPlace_le {i j : Nat} (h : i ≤ j) :
    encodedPlace encode source i ≤ encodedPlace encode source j := by
  rw [encodedPlace_add h]
  exact Nat.le_add_right _ _

theorem encodedPlace_lt (some : ∀ a, encode a ≠ []) {i j : Nat} (h : i < j)
    (h' : j ≤ source.length) : encodedPlace encode source i < encodedPlace encode source j := by
  have filled : ((source.take j).drop i).length = j - i := by
    rw [List.length_drop, List.length_take]
    omega
  rw [encodedPlace_add (Nat.le_of_lt h)]
  cases between : (source.take j).drop i with
  | nil =>
    rw [between, List.length_nil] at filled
    omega
  | cons a more =>
    have one := List.length_pos_iff.2 (some a)
    rw [List.flatMap_cons, List.length_append]
    omega

theorem encodedPlace_compare (some : ∀ a, encode a ≠ []) {i j : Nat} (h : i ≤ source.length)
    (h' : j ≤ source.length) :
    (encodedPlace encode source i < encodedPlace encode source j ↔ i < j) ∧
      (encodedPlace encode source i = encodedPlace encode source j ↔ i = j) := by
  rcases Nat.lt_trichotomy i j with less | rfl | more
  · have := encodedPlace_lt some less h'
    omega
  · omega
  · have := encodedPlace_lt some more h
    omega

/-- Edits that keep apart do so in the encoded text. -/
theorem Apart.encoded (some : ∀ a, encode a ≠ []) (h : Apart source.length edits) :
    Apart (source.flatMap encode).length (edits.map (encoded encode source)) := by
  have whole : (source.flatMap encode).length = encodedPlace encode source source.length := by
    rw [encodedPlace, List.take_length]
  constructor
  case within =>
    intro f hf
    obtain ⟨e, he, rfl⟩ := List.mem_map.1 hf
    obtain ⟨start, stop⟩ := h.within e he
    exact ⟨encodedPlace_le start, whole ▸ encodedPlace_le stop⟩
  case apart =>
    rw [List.pairwise_map]
    exact h.apart.imp fun sides => sides.imp encodedPlace_le encodedPlace_le
  case beside =>
    intro f hf g hg
    obtain ⟨a, ha, rfl⟩ := List.mem_map.1 hf
    obtain ⟨b, hb, rfl⟩ := List.mem_map.1 hg
    obtain ⟨start, stop⟩ := h.within a ha
    obtain ⟨start', stop'⟩ := h.within b hb
    have beside := h.beside a ha b hb
    have insertion := encodedPlace_compare some (Nat.le_trans start stop) stop
    have replacement := encodedPlace_compare some (Nat.le_trans start' stop') stop'
    have starts := encodedPlace_compare some (Nat.le_trans start stop) (Nat.le_trans start' stop')
    intro none filled
    exact mt starts.2.1 (beside (insertion.2.1 none) (replacement.1.1 filled))

theorem inOrder_encoded (some : ∀ a, encode a ≠ []) (h : Apart source.length edits) :
    inOrder (edits.map (encoded encode source)) = (inOrder edits).map (encoded encode source) := by
  have numbers : numbered (edits.map (encoded encode source)) =
      (numbered edits).map (Prod.map id (encoded encode source)) := by
    rw [numbered, List.length_map, List.zip_map_right]
    rfl
  have sorted : ((numbered edits).mergeSort before).map (Prod.map id (encoded encode source)) =
      ((numbered edits).map (Prod.map id (encoded encode source))).mergeSort before := by
    apply List.map_mergeSort
    intro a ha b hb
    obtain ⟨start, stop⟩ := h.within a.2 (map_numbered edits ▸ List.mem_map_of_mem ha)
    obtain ⟨start', stop'⟩ := h.within b.2 (map_numbered edits ▸ List.mem_map_of_mem hb)
    have starts := encodedPlace_compare some (Nat.le_trans start' stop') (Nat.le_trans start stop)
    rw [Bool.eq_iff_iff]
    simp only [before, encoded, Prod.map_fst, Prod.map_snd, id, Bool.or_eq_true, Bool.and_eq_true,
      decide_eq_true_eq, beq_iff_eq, starts.1, starts.2]
  rw [inOrder, numbers, ← sorted, ← List.map_reverse, List.map_map, inOrder, List.map_map]
  rfl

theorem splice_encoded {t : List α} (start : e.start ≤ e.stop) (stop : e.stop ≤ t.length)
    (same : t.take e.stop = source.take e.stop) :
    splice (t.flatMap encode) (encoded encode source e) = (splice t e).flatMap encode := by
  obtain ⟨front, middle, back, rfl, here, there⟩ := exists_parts start stop
  have through : source.take e.stop = front ++ middle := by rw [← same, ← there, List.take_left]
  have before : source.take e.start = front := by
    rw [← Nat.min_eq_left start, ← List.take_take, through, ← here, List.take_left]
  have start' : (front.flatMap encode).length = encodedPlace encode source e.start := by
    rw [encodedPlace, before]
  have stop' : (front.flatMap encode ++ middle.flatMap encode).length =
      encodedPlace encode source e.stop := by
    rw [encodedPlace, through, List.flatMap_append]
  rw [splice_parts here there]
  simp only [List.flatMap_append]
  exact splice_parts start' stop'

theorem foldr_encoded (within : ∀ e ∈ edits, e.start ≤ e.stop ∧ e.stop ≤ source.length)
    (ordered : edits.Pairwise fun a b => a.stop ≤ b.start) :
    (edits.map (encoded encode source)).foldr (fun e t => splice t e) (source.flatMap encode) =
      (edits.foldr (fun e t => splice t e) source).flatMap encode := by
  induction edits with
  | nil => rfl
  | cons e edits ih =>
    obtain ⟨behind, ordered⟩ := List.pairwise_cons.1 ordered
    obtain ⟨⟨start, stop⟩, within⟩ := List.forall_mem_cons.1 within
    -- What the later edits have done begins behind the range of this one.
    have length : (source.take e.stop).length = e.stop := List.length_take_of_le stop
    have copied : weave edits 0 source =
        source.take e.stop ++ weave edits e.stop (source.drop e.stop) := by
      have copy := @weave_copy α edits 0 (source.take e.stop) (source.drop e.stop)
      rw [List.take_append_drop, length, Nat.zero_add] at copy
      exact copy behind
    rw [List.map_cons, List.foldr_cons, List.foldr_cons, ih within ordered,
      foldr_splice within ordered, copied]
    apply splice_encoded start
    · rw [List.length_append]
      omega
    · rw [List.take_left' length]

/-- Edits of a text have the same effect on what encodes it. -/
theorem apply_encoded (some : ∀ a, encode a ≠ []) (h : Apart source.length edits) :
    apply (source.flatMap encode) (edits.map (encoded encode source)) =
      (apply source edits).flatMap encode := by
  rw [apply_eq_foldr, inOrder_encoded some h, foldr_encoded h.within_inOrder h.ordered,
    apply_eq_foldr]

/-! ## Bytes -/

/-- An edit of a text as one of its bytes. -/
def byteEdit (source : String) (e : Edit Char) : Edit UInt8 :=
  e.encoded String.utf8EncodeChar source.toList

theorem encode_ofList (s : List Char) :
    Utf8.encode (String.ofList s) = s.flatMap String.utf8EncodeChar := by
  simp [Utf8.encode, List.utf8Encode]

theorem encode_eq (s : String) : Utf8.encode s = s.toList.flatMap String.utf8EncodeChar := by
  rw [← encode_ofList, String.ofList_toList]

theorem Apart.bytes {source : String} {edits : List (Edit Char)}
    (h : Apart source.toList.length edits) :
    Apart (Utf8.encode source).length (edits.map (byteEdit source)) := by
  rw [encode_eq]
  exact h.encoded fun _ => String.utf8EncodeChar_ne_nil

/-- What edits do to a text they do to its bytes. -/
theorem apply_bytes {source : String} {edits : List (Edit Char)}
    (h : Apart source.toList.length edits) :
    apply (Utf8.encode source) (edits.map (byteEdit source)) =
      Utf8.encode (String.ofList (apply source.toList edits)) := by
  rw [encode_eq, encode_ofList]
  exact apply_encoded (fun _ => String.utf8EncodeChar_ne_nil) h

end Bundler.Edit
