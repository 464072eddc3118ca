import Bundler.Proofs.Recording
import Mathlib.Data.List.DropRight

/-!
# What a writer knows of its line

Line, column and new-line mark are kept up to date with every piece, and a piece that is empty or
all padding counts differently from others. `Told` says what they are in terms of the text alone,
and every call keeps it: so it does not matter how a text was cut into pieces (`calls_told`).
-/

namespace Bundler.Writer

/-- Padding at its end apart, the text ends a line. -/
def EndsLine (text : List Char) : Prop :=
  ∃ c ∈ (text.rdropWhile isPadding).getLast?, isNewLine c

variable {w w' : Writer} {s t : List Char}

theorem endsLine_iff_head :
    EndsLine s ↔ ∃ c ∈ (s.reverse.dropWhile isPadding).head?, isNewLine c := by
  rw [EndsLine, List.rdropWhile, List.getLast?_reverse]

theorem not_endsLine_nil : ¬EndsLine [] := by simp [EndsLine]

/-- What is appended decides, unless it is all padding. -/
theorem endsLine_append : EndsLine (s ++ t) ↔
    match t.reverse.dropWhile isPadding with
    | [] => EndsLine s
    | c :: _ => isNewLine c := by
  rw [endsLine_iff_head, List.reverse_append, List.dropWhile_append]
  cases kept : t.reverse.dropWhile isPadding with
  | nil => simp [endsLine_iff_head]
  | cons c rest => simp

/-- A text that ends a line has nothing but padding in the line after. -/
theorem EndsLine.split (h : EndsLine s) : ∃ before c padding,
    s = before ++ c :: padding ∧ isNewLine c ∧ ∀ x ∈ padding, isPadding x := by
  obtain ⟨c, last, newLine⟩ := h
  obtain ⟨before, kept⟩ := List.getLast?_eq_some_iff.1 last
  refine ⟨before, c, s.rtakeWhile isPadding, ?_, newLine, fun x hx => List.mem_rtakeWhile_imp hx⟩
  have parted := List.rdropWhile_append_rtakeWhile (p := isPadding) (l := s)
  rw [kept] at parted
  simpa using parted.symm

/-! ## The text tells the rest -/

/-- Line and column are those of the end of the text, and the mark says whether it ends a line. -/
structure Told (w : Writer) : Prop extends w.Positioned where
  mark : w.endsWithNewLine ↔ EndsLine w.text.toList

theorem Told.append (h : w.Told) (piece : String) : (w.append piece).Told := by
  refine ⟨h.toPositioned.append piece, ?_⟩
  have text : (w.append piece).text.toList = w.text.toList ++ piece.toList := String.toList_append
  rw [text, endsLine_append]
  simp only [Writer.append]
  cases piece.toList.reverse.dropWhile isPadding with
  | nil => exact h.mark
  | cons c rest => exact Iff.rfl

theorem told_after (calls : List Call) : (after {} calls).Told := by
  refine after_keeps (P := Told) (fun _ piece h => h.append piece) ?segments ?start calls
  case segments => exact fun _ _ _ h => ⟨⟨h.line, h.column⟩, h.mark⟩
  case start => exact ⟨⟨rfl, rfl⟩, iff_of_false Bool.false_ne_true not_endsLine_nil⟩

/-- The lines of the writers stand alike. -/
structure SameLine (w w' : Writer) : Prop where
  line : w.line = w'.line
  column : w.column = w'.column
  mark : w.endsWithNewLine = w'.endsWithNewLine

theorem Told.sameLine (h : w.Told) (h' : w'.Told) (text : w.text = w'.text) : w.SameLine w' := by
  constructor
  case line => rw [h.line, h'.line, text]
  case column => rw [h.column, h'.column, text]
  case mark => rw [Bool.eq_iff_iff, h.mark, h'.mark, text]

theorem SameLine.eq (h : w.SameLine w') (text : w.text = w'.text)
    (segments : w.segments = w'.segments) (opened : w.opened = w'.opened) : w = w' := by
  obtain ⟨line, column, mark⟩ := h
  cases w
  cases w'
  simp_all

theorem Told.write (h : w.Told) (pieces : List String) : (w.write pieces).Told :=
  call_keeps (P := Told) (fun _ piece h => h.append piece)
    (fun _ _ _ h => ⟨⟨h.line, h.column⟩, h.mark⟩) h (.write pieces)

/-- It does not matter how a text is cut into pieces. -/
theorem Told.write_congr (h : w.Told) {pieces pieces' : List String}
    (same : String.join pieces = String.join pieces') : w.write pieces = w.write pieces' := by
  have here := (Extends.refl w).write pieces
  have there := (Extends.refl w).write pieces'
  have text : (w.write pieces).text = (w.write pieces').text := by
    rw [write_text, write_text, same]
  apply ((h.write pieces).sameLine (h.write pieces') text).eq text
  · rw [here.segments, there.segments]
  · rw [here.opened, there.opened]

/-! ## Fresh lines -/

theorem freshLine_idem (w : Writer) : w.freshLine.freshLine = w.freshLine := by
  by_cases stays : w.endsWithNewLine || w.isEmpty
  · have same : w.freshLine = w := if_pos stays
    rw [same, same]
  · have begun : w.freshLine = w.append "\n" := if_neg stays
    have marked : (w.append "\n").endsWithNewLine = true := rfl
    rw [begun, Writer.freshLine, marked]
    rfl

/-- The text is empty, or nothing but padding follows its last line break. -/
def Fresh (text : String) : Prop :=
  text = "" ∨ ∃ before c padding, text.toList = before ++ c :: padding ∧ isNewLine c ∧
    ∀ x ∈ padding, isPadding x

theorem Told.freshLine (h : w.Told) : Fresh w.freshLine.text := by
  unfold Writer.freshLine
  split
  · rename_i stays
    rcases Bool.or_eq_true_iff.1 stays with mark | empty
    · exact .inr (h.mark.1 mark).split
    · exact .inl (String.isEmpty_iff.1 empty)
  · exact .inr ⟨w.text.toList, '\n', [], String.toList_append, rfl, by simp⟩

/-! ## Main statement -/

/-- **The text tells what a writer knows of its line.** After any calls the line is the number of
line feeds in the text, the column is the number of bytes after the last of them, and the mark is
set if and only if the text ends a line, padding at its end apart. So the lines of writers with the
same text stand alike, and pieces are written alike however they are cut. A fresh line is begun once
at most, and holds nothing but padding. -/
theorem calls_told (calls : List Call) :
    let w := after {} calls
    w.line = w.text.toList.count '\n' ∧
    w.column = Text.utf8Size (Text.afterLast '\n' w.text.toList) ∧
    (w.endsWithNewLine ↔ EndsLine w.text.toList) ∧
    (∀ calls', w.text = (after {} calls').text → w.SameLine (after {} calls')) ∧
    (∀ pieces pieces', String.join pieces = String.join pieces' →
      w.write pieces = w.write pieces') ∧
    w.freshLine.freshLine = w.freshLine ∧
    (w.freshLine.text = "" ∨ ∃ before c padding,
      w.freshLine.text.toList = before ++ c :: padding ∧ isNewLine c ∧
        ∀ x ∈ padding, isPadding x) := by
  intro w
  have told : w.Told := told_after calls
  refine ⟨told.line, told.column, told.mark, ?_, ?_, w.freshLine_idem, told.freshLine⟩
  · intro calls' text
    exact told.sameLine (told_after calls') text
  · intro pieces pieces' same
    exact told.write_congr same

/-- A lone carriage return and a tab in pieces of their own. -/
def cut : List Call := [.write ["// é", "\r", "", "\t"], .freshLine, .start "a.js", .write ["x\n "]]

def whole : List Call := [.write ["// é\r\tx"], .writeLine [], .write [" "]]

theorem cut_told : (after {} cut).text = (after {} whole).text ∧
    (after {} cut).SameLine (after {} whole) ∧
    String.join ["é", "\n"] = String.join ["é\n"] ∧
    (after {} cut).write ["é", "\n"] = (after {} cut).write ["é\n"] := by
  have text : (after {} cut).text = (after {} whole).text := by decide +kernel
  have joined : String.join ["é", "\n"] = String.join ["é\n"] := by decide +kernel
  obtain ⟨_, _, _, alike, congr, _⟩ := calls_told cut
  exact ⟨text, alike whole text, joined, congr _ _ joined⟩

end Bundler.Writer
