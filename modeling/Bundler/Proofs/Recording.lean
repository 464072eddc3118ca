import Bundler.Proofs.Segments
import Bundler.Proofs.Texts
import Mathlib.Data.List.Forall2
import Mathlib.Data.List.Induction

/-!
# What a writer records

A writer is called in any order, and a call that comes at the wrong time fails. What its segments
are can be told from the calls alone:

* `IsOpen`: a segment is open while a start has not been followed by a finish;
* `Span`: a segment consists of the calls from a start that found none open to the next finish;
* `calls_recorded`: the segments of a writer are its spans, one by one, and each covers the bytes
  that its calls appended.
-/

namespace Bundler

namespace Writer

/-- The writer after some calls. -/
def after (w : Writer) (calls : List Call) : Writer := calls.foldl (fun w c => (w.call c).1) w

/-- What a call appends to the text. -/
def addition (w : Writer) : Call → String
  | .write pieces => String.join pieces
  | .writeLine pieces => String.join pieces ++ "\n"
  | .freshLine => if w.endsWithNewLine || w.isEmpty then "" else "\n"
  | .start _ | .finish => ""

/-- What calls append, one after the other. -/
def additions (w : Writer) : List Call → String
  | [] => ""
  | c :: rest => w.addition c ++ additions (w.call c).1 rest

/-- A segment has been started that no call has finished. -/
def IsOpen (calls : List Call) : Prop :=
  ∃ before module inside, calls = before ++ .start module :: inside ∧ .finish ∉ inside

/-- The calls that make a segment: those inside lie between its start and the next finish. -/
structure Span where
  before : List Call
  module : String
  inside : List Call

namespace Span

/-- All calls up to the end of the segment. -/
def calls (s : Span) : List Call := s.before ++ .start s.module :: s.inside ++ [.finish]

def textBefore (s : Span) : String := (after {} s.before).text

/-- What is appended while the segment is open. -/
def text (s : Span) : String := (after {} (s.before ++ [.start s.module])).additions s.inside

/-- The span is among the calls: its start found no segment open, and its finish is the first. -/
structure Within (s : Span) (calls : List Call) : Prop where
  free : ¬IsOpen s.before
  first : .finish ∉ s.inside
  made : s.calls <+: calls

/-- The segment tells where the text of the span stands. Line and column are those of the text
before it. -/
structure Recorded (s : Span) (text : String) (segment : Segment) : Prop where
  module : segment.module = s.module
  stands : ∃ rest, text = s.textBefore ++ s.text ++ rest
  startIndex : segment.startIndex = s.textBefore.utf8ByteSize
  endIndex : segment.endIndex = (s.textBefore ++ s.text).utf8ByteSize
  covers : slice segment text = Utf8.encode s.text
  startLine : segment.startLine = s.textBefore.toList.count '\n'
  startColumn : segment.startColumn =
    Text.utf8Size (Text.afterLast '\n' s.textBefore.toList)

end Span

variable {w : Writer} {calls more : List Call}

/-! ## Text -/

theorem after_append (w : Writer) (calls more : List Call) :
    w.after (calls ++ more) = (w.after calls).after more := List.foldl_append

theorem after_concat (w : Writer) (calls : List Call) (c : Call) :
    w.after (calls ++ [c]) = ((w.after calls).call c).1 := w.after_append calls [c]

theorem write_text (w : Writer) (pieces : List String) :
    (w.write pieces).text = w.text ++ String.join pieces := by
  induction pieces generalizing w with
  | nil => exact String.append_empty.symm
  | cons piece rest ih =>
    have first : (w.append piece).text = w.text ++ piece := rfl
    rw [String.join_cons, ← String.append_assoc, ← first]
    exact ih (w.append piece)

theorem call_text (w : Writer) (c : Call) : (w.call c).1.text = w.text ++ w.addition c := by
  cases c with
  | write pieces => exact w.write_text pieces
  | writeLine pieces =>
    show (w.write pieces).text ++ "\n" = _
    rw [write_text, String.append_assoc]
    rfl
  | freshLine =>
    simp only [call, freshLine, addition]
    split
    · exact String.append_empty.symm
    · rfl
  | start module => cases h : w.opened <;> simp [call, start, addition, h]
  | finish => cases h : w.opened <;> simp [call, finish, addition, h]

theorem after_text (w : Writer) (calls : List Call) :
    (w.after calls).text = w.text ++ w.additions calls := by
  induction calls generalizing w with
  | nil => exact String.append_empty.symm
  | cons c rest ih =>
    show ((w.call c).1.after rest).text = _
    rw [ih, call_text, String.append_assoc]
    rfl

theorem after_text_append (calls more : List Call) :
    ∃ rest, (after {} (calls ++ more)).text = (after {} calls).text ++ rest :=
  ⟨_, by rw [after_append, after_text]⟩

theorem after_length_mono {calls calls' : List Call} (h : calls <+: calls') :
    (after {} calls).length ≤ (after {} calls').length := by
  obtain ⟨more, rfl⟩ := h
  obtain ⟨rest, grown⟩ := after_text_append calls more
  rw [length, length, grown, String.utf8ByteSize_append]
  exact Nat.le_add_right _ _

/-! ## What every call keeps -/

/-- A property that appended pieces keep, and that does not depend on segments, is kept by calls. -/
theorem call_keeps {P : Writer → Prop} (append : ∀ w piece, P w → P (w.append piece))
    (segments : ∀ (w : Writer) segments opened, P w → P { w with segments, opened })
    (h : P w) (c : Call) : P (w.call c).1 := by
  have write (pieces : List String) : P (w.write pieces) := by
    unfold Writer.write
    induction pieces generalizing w with
    | nil => exact h
    | cons piece rest ih => exact ih (append w piece h)
  cases c with
  | write pieces => exact write pieces
  | writeLine pieces => exact append _ "\n" (write pieces)
  | freshLine =>
    simp only [call, freshLine]
    split
    · exact h
    · exact append w "\n" h
  | start module =>
    cases free : w.opened with
    | none => simpa [call, start_of_closed free] using segments w w.segments _ h
    | some o => simpa [call, start_of_opened free] using h
  | finish =>
    cases free : w.opened with
    | none => simpa [call, finish_of_closed free] using h
    | some o => simpa [call, finish_of_opened free] using segments w _ none h

theorem after_keeps {P : Writer → Prop} (append : ∀ w piece, P w → P (w.append piece))
    (segments : ∀ (w : Writer) segments opened, P w → P { w with segments, opened })
    (start : P {}) (calls : List Call) : P (after {} calls) := by
  induction calls using List.reverseRecOn with
  | nil => exact start
  | append_singleton calls c ih =>
    rw [after_concat]
    exact call_keeps append segments ih c

/-! ## Lines and columns -/

/-- Line and column are those of the end of the text. -/
structure Positioned (w : Writer) : Prop where
  line : w.line = w.text.toList.count '\n'
  column : w.column = Text.utf8Size (Text.afterLast '\n' w.text.toList)

theorem Positioned.append (h : w.Positioned) (piece : String) : (w.append piece).Positioned := by
  have text : (w.append piece).text.toList = w.text.toList ++ piece.toList := String.toList_append
  refine ⟨?_, ?_⟩
  · rw [text, List.count_append, ← h.line]
    rfl
  · rw [text]
    simp only [Writer.append]
    split
    · rename_i none
      rw [Text.afterLast_append_of_not_mem (List.count_eq_zero.1 none), Text.utf8Size_append,
        ← h.column, Text.utf8Size_toList]
    · rename_i some
      rw [Text.afterLast_append_of_mem (List.count_pos_iff.1 (Nat.pos_of_ne_zero some))]

theorem positioned_after (calls : List Call) : (after {} calls).Positioned := by
  refine after_keeps (P := Positioned) (fun _ piece h => h.append piece) ?segments ?start calls
  case segments => exact fun _ _ _ h => ⟨h.line, h.column⟩
  case start => exact ⟨rfl, rfl⟩

/-! ## Whether a segment is open -/

theorem isOpen_concat {c : Call} :
    IsOpen (calls ++ [c]) ↔ (∃ module, c = .start module) ∨ c ≠ .finish ∧ IsOpen calls := by
  constructor
  · rintro ⟨before, module, inside, split, unfinished⟩
    cases inside using List.reverseRecOn with
    | nil =>
      obtain ⟨_, last⟩ := List.append_inj' split rfl
      cases last
      exact .inl ⟨module, rfl⟩
    | append_singleton inside last =>
      rw [← List.cons_append, ← List.append_assoc] at split
      obtain ⟨rfl, same⟩ := List.append_inj' split rfl
      cases same
      refine .inr ⟨fun finish => ?_, before, module, inside, rfl, fun hf => ?_⟩
      · exact unfinished (finish ▸ List.mem_concat_self)
      · exact unfinished (List.mem_append_left _ hf)
  · rintro (⟨module, rfl⟩ | ⟨other, before, module, inside, rfl, unfinished⟩)
    · exact ⟨calls, module, [], rfl, List.not_mem_nil⟩
    · refine ⟨before, module, inside ++ [c], by simp, fun hf => ?_⟩
      rcases List.mem_append.1 hf with hf | hf
      · exact unfinished hf
      · exact other (List.mem_singleton.1 hf).symm

theorem not_isOpen_nil : ¬IsOpen [] := by
  rintro ⟨before, module, inside, split, _⟩
  exact absurd split (by simp)

/-- What is open after some more call. -/
def openAfter (w : Writer) : Call → Option OpenSegment
  | .start module => w.opened.or (some ⟨module, w.length, w.line, w.column⟩)
  | .finish => none
  | _ => w.opened

theorem call_opened (w : Writer) (c : Call) : (w.call c).1.opened = w.openAfter c := by
  have here := Extends.refl w
  cases c with
  | write pieces => exact (here.write pieces).opened
  | writeLine pieces => exact (here.writeLine pieces).opened
  | freshLine => exact here.freshLine.opened
  | start module => cases free : w.opened <;> simp [call, start, openAfter, free]
  | finish => cases free : w.opened <;> simp [call, finish, openAfter, free]

theorem opened_isSome (calls : List Call) : (after {} calls).opened.isSome ↔ IsOpen calls := by
  induction calls using List.reverseRecOn with
  | nil => exact iff_of_false Bool.false_ne_true not_isOpen_nil
  | append_singleton calls c ih =>
    rw [after_concat, call_opened, isOpen_concat, ← ih]
    cases c <;> simp [openAfter]

/-- The open segment after some calls was started when none was open, at the end of the text as it
was then. -/
structure Opened (calls : List Call) (o : OpenSegment) (before inside : List Call) : Prop where
  calls : calls = before ++ .start o.module :: inside
  free : ¬IsOpen before
  unfinished : .finish ∉ inside
  startIndex : o.startIndex = (after {} before).length
  line : o.line = (after {} before).line
  column : o.column = (after {} before).column

theorem Opened.finish {o : OpenSegment} {before inside : List Call}
    (h : Opened calls o before inside) :
    Span.calls ⟨before, o.module, inside⟩ = calls ++ [.finish] := by
  rw [h.calls]
  rfl

theorem Opened.concat {o : OpenSegment} {before inside : List Call} {c : Call}
    (h : Opened calls o before inside) (other : c ≠ .finish) :
    Opened (calls ++ [c]) o before (inside ++ [c]) := by
  refine ⟨by simp [h.calls], h.free, fun hf => ?_, h.startIndex, h.line, h.column⟩
  rcases List.mem_append.1 hf with hf | hf
  · exact h.unfinished hf
  · exact other (List.mem_singleton.1 hf).symm

theorem opened_after {calls : List Call} {o : OpenSegment} (h : (after {} calls).opened = some o) :
    ∃ before inside, Opened calls o before inside := by
  induction calls using List.reverseRecOn generalizing o with
  | nil => cases h
  | append_singleton calls c ih =>
    have kept (h : (after {} calls).opened = some o) (other : c ≠ .finish) :
        ∃ before inside, Opened (calls ++ [c]) o before inside := by
      obtain ⟨before, inside, opened⟩ := ih h
      exact ⟨before, inside ++ [c], opened.concat other⟩
    rw [after_concat, call_opened] at h
    cases c with
    | write pieces => exact kept h (by simp)
    | writeLine pieces => exact kept h (by simp)
    | freshLine => exact kept h (by simp)
    | finish => cases h
    | start module =>
      cases free : (after {} calls).opened with
      | some o' =>
        refine kept ?_ (by simp)
        rw [openAfter, free] at h
        exact free.trans h
      | none =>
        rw [openAfter, free] at h
        cases h
        have closed : ¬IsOpen calls := by
          rw [← opened_isSome, free]
          simp
        exact ⟨calls, [], rfl, closed, List.not_mem_nil, rfl, rfl, rfl⟩

/-! ## Closed segments -/

/-- The segment that a call closes. -/
def closedBy (w : Writer) : Call → Option Segment
  | .finish => w.opened.map fun o => ⟨o.module, o.startIndex, w.length, o.line, o.column⟩
  | _ => none

theorem closedBy_eq_some {c : Call} {s : Segment} : w.closedBy c = some s ↔
    c = .finish ∧ ∃ o, w.opened = some o ∧
      ⟨o.module, o.startIndex, w.length, o.line, o.column⟩ = s := by
  cases c <;> simp [closedBy]

theorem call_segments (w : Writer) (c : Call) :
    (w.call c).1.segments = w.segments ++ (w.closedBy c).toList := by
  have here := Extends.refl w
  cases c with
  | write pieces => simpa [call, closedBy] using (here.write pieces).segments
  | writeLine pieces => simpa [call, closedBy] using (here.writeLine pieces).segments
  | freshLine => simpa [call, closedBy] using here.freshLine.segments
  | start module => cases free : w.opened <;> simp [call, start, closedBy, free]
  | finish => cases free : w.opened <;> simp [call, finish, closedBy, free]

theorem after_segments_mono (w : Writer) (calls : List Call) :
    w.segments <+: (w.after calls).segments := by
  induction calls generalizing w with
  | nil => exact List.prefix_refl _
  | cons c rest ih =>
    refine List.IsPrefix.trans ?_ (ih (w.call c).1)
    rw [call_segments]
    exact List.prefix_append _ _

/-- Only one start can have opened the segment that is open. -/
theorem start_unique {before before' inside inside' : List Call} {module module' : String}
    (same : before ++ .start module :: inside = before' ++ .start module' :: inside')
    (free : ¬IsOpen before) (free' : ¬IsOpen before') (unfinished : .finish ∉ inside)
    (unfinished' : .finish ∉ inside') : before = before' ∧ module = module' ∧ inside = inside' := by
  have earlier {before inside inside' between : List Call} {module module' : String}
      (split : Call.start module :: inside = between ++ .start module' :: inside')
      (free : ¬IsOpen (before ++ between)) (unfinished : .finish ∉ inside) : between = [] := by
    cases between with
    | nil => rfl
    | cons first between =>
      obtain ⟨rfl, rfl⟩ := List.cons.inj split
      exact absurd ⟨before, module, between, rfl, fun hf => unfinished (List.mem_append_left _ hf)⟩
        free
  rcases List.append_eq_append_iff.1 same with ⟨between, rfl, split⟩ | ⟨between, rfl, split⟩
  · cases earlier split free' unfinished
    cases split
    exact ⟨(List.append_nil _).symm, rfl, rfl⟩
  · cases earlier split free unfinished'
    cases split
    exact ⟨List.append_nil _, rfl, rfl⟩

namespace Span

/-- The segment that the writer keeps of the span. -/
def segment (s : Span) : Segment :=
  let start := after {} s.before
  ⟨s.module, start.length, (after {} s.calls).length, start.line, start.column⟩

theorem within_concat {s : Span} {c : Call} : s.Within (calls ++ [c]) ↔
    s.Within calls ∨ ¬IsOpen s.before ∧ .finish ∉ s.inside ∧ s.calls = calls ++ [c] := by
  constructor
  · rintro ⟨free, first, made⟩
    rcases List.prefix_concat_iff.1 made with last | made
    · exact .inr ⟨free, first, last⟩
    · exact .inl ⟨free, first, made⟩
  · rintro (⟨free, first, made⟩ | ⟨free, first, last⟩)
    · exact ⟨free, first, made.trans (List.prefix_append _ _)⟩
    · exact ⟨free, first, last ▸ List.prefix_refl _⟩

/-- A span that ends before a segment was opened ends before its start. -/
theorem calls_prefix {s : Span} {before inside : List Call} {module : String}
    (made : s.calls <+: before ++ .start module :: inside) (unfinished : .finish ∉ inside) :
    s.calls <+: before := by
  obtain ⟨rest, split⟩ := made
  rcases List.append_eq_append_iff.1 split with ⟨between, rfl, _⟩ | ⟨between, last, split⟩
  · exact List.prefix_append _ _
  · cases between using List.reverseRecOn with
    | nil =>
      rw [List.append_nil] at last
      exact last ▸ List.prefix_refl _
    | append_singleton between c =>
      rw [← List.append_assoc] at last
      obtain ⟨_, finish⟩ := List.append_inj' last rfl
      cases finish
      have mem : Call.finish ∈ Call.start module :: inside := by
        rw [split]
        simp
      simp [unfinished] at mem

/-- A call that closes no segment makes no span. -/
theorem within_concat_of_none {c : Call} (closed : (after {} calls).closedBy c = none) (s : Span) :
    s.Within (calls ++ [c]) ↔ s.Within calls := by
  rw [within_concat]
  refine or_iff_left ?_
  rintro ⟨free, first, last⟩
  obtain ⟨rfl, finish⟩ := List.append_inj' last rfl
  cases finish
  have isOpen : IsOpen (s.before ++ .start s.module :: s.inside) := ⟨_, _, _, rfl, first⟩
  rw [← opened_isSome, Option.isSome_iff_exists] at isOpen
  obtain ⟨o, opened⟩ := isOpen
  rw [closedBy, opened] at closed
  cases closed

/-- The finish of an open segment makes the span of that segment. -/
theorem within_concat_of_opened {o : OpenSegment} {before inside : List Call}
    (history : Opened calls o before inside) (s : Span) :
    s.Within (calls ++ [.finish]) ↔ s.Within calls ∨ s = ⟨before, o.module, inside⟩ := by
  rw [within_concat]
  refine or_congr_right ⟨?_, ?_⟩
  · rintro ⟨free, first, made⟩
    have same := (List.append_inj' made rfl).1.trans history.calls
    obtain ⟨hb, hm, hi⟩ := start_unique same free history.free first history.unfinished
    cases s
    cases hb
    cases hm
    cases hi
    rfl
  · rintro rfl
    exact ⟨history.free, history.unfinished, history.finish⟩

end Span

/-- The segments are those of the spans among the calls, in order. -/
theorem segments_after (calls : List Call) :
    ∃ spans : List Span, (∀ span, span ∈ spans ↔ span.Within calls) ∧
      spans.Pairwise (fun s t => s.calls <+: t.before) ∧
      (after {} calls).segments = spans.map Span.segment := by
  induction calls using List.reverseRecOn with
  | nil =>
    refine ⟨[], fun span => ⟨fun h => absurd h List.not_mem_nil, fun h => ?_⟩, .nil, rfl⟩
    exact absurd (List.prefix_nil.1 h.made) (by simp [Span.calls])
  | append_singleton calls c ih =>
    obtain ⟨spans, within, ordered, segments⟩ := ih
    rw [after_concat, call_segments]
    cases closed : (after {} calls).closedBy c with
    | none =>
      refine ⟨spans, fun span => ?_, ordered, by rw [segments]; exact List.append_nil _⟩
      rw [within, Span.within_concat_of_none closed]
    | some segment =>
      obtain ⟨rfl, o, opened, rfl⟩ := closedBy_eq_some.1 closed
      obtain ⟨before, inside, history⟩ := opened_after opened
      let last : Span := ⟨before, o.module, inside⟩
      refine ⟨spans ++ [last], fun span => ?_, ?_, ?_⟩
      · rw [List.mem_append, List.mem_singleton, within, Span.within_concat_of_opened history]
      · refine List.pairwise_append.2 ⟨ordered, List.pairwise_singleton _ _, fun s hs t ht => ?_⟩
        cases List.mem_singleton.1 ht
        have made := ((within s).1 hs).made
        rw [history.calls] at made
        exact Span.calls_prefix made history.unfinished
      · have length : (after {} last.calls).length = (after {} calls).length := by
          rw [history.finish, after_concat, Writer.length, call_text, addition, String.append_empty]
          rfl
        rw [segments, List.map_append, List.map_singleton, Span.segment, length]
        simp [last, history.startIndex, history.line, history.column]

/-! ## What a segment covers -/

namespace Span

theorem calls_text (s : Span) : (after {} s.calls).text = s.textBefore ++ s.text := by
  have calls : s.calls = s.before ++ [.start s.module] ++ (s.inside ++ [.finish]) := by
    simp [Span.calls]
  have start : (after {} (s.before ++ [.start s.module])).text = s.textBefore := by
    rw [after_concat, call_text]
    exact String.append_empty
  rw [calls, after_append, ← after_append, ← List.append_assoc, after_concat, call_text, addition,
    String.append_empty, after_append, after_text, start]
  rfl

/-- The segment that is kept of a span says where its text stands. -/
theorem segment_recorded {s : Span} (h : s.Within calls) :
    s.Recorded (after {} calls).text s.segment := by
  obtain ⟨more, rfl⟩ := h.made
  obtain ⟨rest, stands⟩ := after_text_append s.calls more
  rw [calls_text] at stands
  have position := positioned_after s.before
  have endIndex : s.segment.endIndex = (s.textBefore ++ s.text).utf8ByteSize :=
    congrArg String.utf8ByteSize s.calls_text
  refine ⟨rfl, ⟨rest, stands⟩, rfl, endIndex, ?_, position.line, position.column⟩
  rw [stands, slice_append]
  · show slice ⟨_, s.textBefore.utf8ByteSize, s.segment.endIndex, _, _⟩ _ = _
    rw [endIndex, slice_new]
  · show s.textBefore.utf8ByteSize ≤ s.segment.endIndex
    rw [endIndex, String.utf8ByteSize_append]
    exact Nat.le_add_right _ _
  · rw [endIndex]

end Span

/-! ## Calls that fail -/

theorem call_start_fails (w : Writer) (module : String) :
    (∃ e, (w.call (.start module)).2 = .error e) ↔ w.opened.isSome := by
  cases free : w.opened with
  | none => simp [call, start_of_closed free, Except.map]
  | some o => simp [call, start_of_opened free, Except.map]

theorem call_finish_fails (w : Writer) :
    (∃ e, (w.call .finish).2 = .error e) ↔ ¬w.opened.isSome := by
  cases free : w.opened with
  | none => simp [call, finish_of_closed free, Except.map]
  | some o => simp [call, finish_of_opened free, Except.map]

theorem call_of_error {c : Call} {e : WriterError} (h : (w.call c).2 = .error e) :
    (w.call c).1 = w := by
  cases c with
  | write pieces => cases h
  | writeLine pieces => cases h
  | freshLine => cases h
  | start module =>
    cases free : w.opened with
    | none =>
      rw [call, start_of_closed free] at h
      cases h
    | some o => rw [call, start_of_opened free]
  | finish =>
    cases free : w.opened with
    | none => rw [call, finish_of_closed free]
    | some o =>
      rw [call, finish_of_opened free] at h
      cases h

/-- Finishing a segment answers how many bytes its calls have appended. -/
theorem finish_answers (h : IsOpen calls) : ∃ span : Span, span.calls = calls ++ [.finish] ∧
    span.Within (calls ++ [.finish]) ∧
    ((after {} calls).call .finish).2 = .ok (some span.text.utf8ByteSize) := by
  obtain ⟨o, opened⟩ := Option.isSome_iff_exists.1 ((opened_isSome calls).2 h)
  obtain ⟨before, inside, history⟩ := opened_after opened
  let span : Span := ⟨before, o.module, inside⟩
  have made : span.calls = calls ++ [.finish] := history.finish
  refine ⟨span, made, ⟨history.free, history.unfinished, made ▸ List.prefix_refl _⟩, ?_⟩
  have length : (after {} calls).length = (span.textBefore ++ span.text).utf8ByteSize := by
    rw [← Span.calls_text, made, after_concat, call_text]
    exact (congrArg String.utf8ByteSize String.append_empty).symm
  have start : o.startIndex = span.textBefore.utf8ByteSize := history.startIndex
  rw [call, finish_of_opened opened, length, start, String.utf8ByteSize_append,
    Nat.add_sub_cancel_left]
  rfl

/-! ## Main statement -/

/-- **Segments are what their calls appended.** After any calls the segments are those of the spans
among them, one by one: each lies in the text, before the next one, and covers the bytes that were
appended between its start and its finish, and line and column are those of the text before it. A
start fails if and only if a segment is open, a finish if and only if none is, and neither leaves a
trace then. A finish answers the number of bytes covered. No later call changes what was written or
closed. -/
theorem calls_recorded (calls : List Call) :
    let w := after {} calls
    (∃ spans : List Span, (∀ span, span ∈ spans ↔ span.Within calls) ∧
      spans.Pairwise (fun s t => s.calls <+: t.before) ∧
      List.Forall₂ (fun span segment => span.Recorded w.text segment) spans w.segments) ∧
    (∀ s ∈ w.segments, s.startIndex ≤ s.endIndex ∧ s.endIndex ≤ w.length) ∧
    w.segments.Pairwise (fun s t => s.endIndex ≤ t.startIndex) ∧
    (∀ module, (∃ e, (w.call (.start module)).2 = .error e) ↔ IsOpen calls) ∧
    ((∃ e, (w.call .finish).2 = .error e) ↔ ¬IsOpen calls) ∧
    (IsOpen calls → ∃ span : Span, span.calls = calls ++ [.finish] ∧
      span.Within (calls ++ [.finish]) ∧
      (w.call .finish).2 = .ok (some span.text.utf8ByteSize)) ∧
    (∀ c e, (w.call c).2 = .error e → (w.call c).1 = w) ∧
    ∀ more, (w.after more).text = w.text ++ w.additions more ∧
      w.segments <+: (w.after more).segments := by
  intro w
  obtain ⟨spans, within, ordered, segments⟩ := segments_after calls
  have recorded : ∀ span ∈ spans, span.Recorded w.text span.segment :=
    fun span hs => Span.segment_recorded ((within span).1 hs)
  have grows (s : Span) : (after {} s.before).length ≤ (after {} s.calls).length :=
    after_length_mono (by simp [Span.calls])
  refine ⟨⟨spans, within, ordered, ?_⟩, ?_, ?_, ?_, ?_, finish_answers, ?_, ?_⟩
  · rw [segments]
    exact List.forall₂_map_right_iff.2 (List.forall₂_same.2 recorded)
  · intro s hs
    rw [segments] at hs
    obtain ⟨span, hspan, rfl⟩ := List.mem_map.1 hs
    exact ⟨grows span, after_length_mono ((within span).1 hspan).made⟩
  · rw [segments, List.pairwise_map]
    exact ordered.imp after_length_mono
  · intro module
    rw [call_start_fails, opened_isSome]
  · rw [call_finish_fails, opened_isSome]
  · intro c e failed
    exact call_of_error failed
  · intro more
    exact ⟨w.after_text more, w.after_segments_mono more⟩

/-- A second start comes too early. -/
def misused : List Call :=
  [.write ["// é\n"], .start "a.js", .write ["x"], .start "b.js", .freshLine]

theorem misused_recorded : IsOpen misused ∧ ∃ span : Span, span.calls = misused ++ [.finish] ∧
    span.Within (misused ++ [.finish]) ∧
    ((after {} misused).call .finish).2 = .ok (some span.text.utf8ByteSize) := by
  have isOpen : IsOpen misused := ⟨[.write ["// é\n"]], "a.js", _, rfl, by decide⟩
  obtain ⟨_, _, _, _, _, answers, _⟩ := calls_recorded misused
  exact ⟨isOpen, answers isOpen⟩

example : (after {} (misused ++ [.finish])).segments = [⟨"a.js", 6, 8, 1, 0⟩] := by
  decide +kernel

end Writer

end Bundler
