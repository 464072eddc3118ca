import Bundler.Piece
import Mathlib.Data.List.Basic

/-!
# What the segments of a bundle hold

The writer keeps the position of a segment in bytes, and how a piece is written depends on where the
line stands. `Piece.write_texts` says that neither shows in the segments: a piece adds segments for
the modules it embeds, whose texts `Piece.texts` tells without any writer, and leaves those before
as they are.
-/

namespace Bundler

theorem bind_eq_ok {α β ε : Type} {x : Except ε α} {f : α → Except ε β} {b : β} :
    (x >>= f) = .ok b ↔ ∃ a, x = .ok a ∧ f a = .ok b := by
  cases x with
  | error e => simp [bind, Except.bind]
  | ok a => simp [bind, Except.bind]

namespace Utf8

theorem encode_append (s t : String) : encode (s ++ t) = encode s ++ encode t := by
  simp [encode]

theorem encode_length (s : String) : (encode s).length = s.utf8ByteSize := by
  simp [encode]

end Utf8

namespace Writer

/-- The second writer has more text, but the same segments. -/
structure Extends (w w' : Writer) : Prop where
  text : ∃ more, w'.text = w.text ++ more
  segments : w'.segments = w.segments
  opened : w'.opened = w.opened

/-- No segment is open, and the closed ones lie within the text, one behind the other. -/
structure Sound (w : Writer) : Prop where
  closed : w.opened = none
  within : ∀ s ∈ w.segments, s.startIndex ≤ s.endIndex ∧ s.endIndex ≤ w.length
  ordered : w.segments.Pairwise fun s t => s.endIndex ≤ t.startIndex

/-- The modules that have segments, each with the bytes of its segment. -/
def texts (w : Writer) : List (String × List UInt8) :=
  w.segments.map fun s => (s.module, slice s w.text)

/-- The texts of modules as bytes. -/
def encoded (texts : List (String × String)) : List (String × List UInt8) :=
  texts.map fun (module, text) => (module, Utf8.encode text)

theorem encoded_append (texts texts' : List (String × String)) :
    encoded (texts ++ texts') = encoded texts ++ encoded texts' := List.map_append

/-- Writing succeeds and adds segments with these texts. -/
def Gains (w : Writer) (texts : List (String × String)) (result : Except WriterError Writer) :
    Prop := ∃ w', result = .ok w' ∧ w'.Sound ∧ w'.texts = w.texts ++ encoded texts

variable {w w' w'' : Writer}

theorem sound_empty : Sound {} := ⟨rfl, fun _ hs => absurd hs List.not_mem_nil, .nil⟩

/-! ## Writing between segments -/

theorem Extends.refl (w : Writer) : w.Extends w := ⟨⟨"", by simp⟩, rfl, rfl⟩

theorem Extends.trans (h : w.Extends w') (h' : w'.Extends w'') : w.Extends w'' := by
  obtain ⟨s, hs⟩ := h.text
  obtain ⟨t, ht⟩ := h'.text
  refine ⟨⟨s ++ t, ?_⟩, h'.segments.trans h.segments, h'.opened.trans h.opened⟩
  rw [ht, hs, String.append_assoc]

theorem Extends.append (h : w.Extends w') (piece : String) : w.Extends (w'.append piece) :=
  h.trans ⟨⟨piece, rfl⟩, rfl, rfl⟩

theorem Extends.write (h : w.Extends w') (pieces : List String) : w.Extends (w'.write pieces) := by
  induction pieces generalizing w' with
  | nil => exact h
  | cons piece rest ih => exact ih (h.append piece)

theorem Extends.writeLine (h : w.Extends w') (pieces : List String) :
    w.Extends (w'.writeLine pieces) := (h.write pieces).append "\n"

theorem Extends.freshLine (h : w.Extends w') : w.Extends w'.freshLine := by
  unfold Writer.freshLine
  split
  · exact h
  · exact h.append "\n"

theorem Extends.foldl {α : Type} {f : Writer → α → Writer}
    (each : ∀ (w : Writer) a, w.Extends (f w a)) (h : w.Extends w') (as : List α) :
    w.Extends (as.foldl f w') := by
  induction as generalizing w' with
  | nil => exact h
  | cons a rest ih => exact ih (h.trans (each w' a))

theorem slice_append {s : Segment} {text : String} (start : s.startIndex ≤ s.endIndex)
    (within : s.endIndex ≤ text.utf8ByteSize) (more : String) :
    slice s (text ++ more) = slice s text := by
  have length := Utf8.encode_length text
  unfold slice Segment.length
  rw [Utf8.encode_append, List.drop_append_of_le_length (by omega),
    List.take_append_of_le_length (by rw [List.length_drop]; omega)]

theorem Extends.sound (h : w.Extends w') (sound : w.Sound) : w'.Sound := by
  obtain ⟨more, text⟩ := h.text
  refine ⟨h.opened.trans sound.closed, fun s hs => ?_, h.segments ▸ sound.ordered⟩
  rw [h.segments] at hs
  obtain ⟨start, within⟩ := sound.within s hs
  have grown : w'.length = w.length + more.utf8ByteSize := by
    rw [length, text, String.utf8ByteSize_append]
    rfl
  omega

/-- More text leaves the bytes of the segments as they are. -/
theorem Sound.map_slice (sound : w.Sound) (more : String) :
    (w.segments.map fun s => (s.module, slice s (w.text ++ more))) = w.texts := by
  apply List.map_congr_left
  intro s hs
  obtain ⟨start, within⟩ := sound.within s hs
  rw [slice_append start within]

theorem Extends.texts (h : w.Extends w') (sound : w.Sound) : w'.texts = w.texts := by
  obtain ⟨more, text⟩ := h.text
  rw [Writer.texts, h.segments, text]
  exact sound.map_slice more

/-! ## Writing segments -/

/-- Wherever it is written, the text is the same. -/
structure Adds (write : Writer → Writer) (text : String) : Prop where
  extended : ∀ w : Writer, w.Extends (write w)
  text : ∀ w : Writer, (write w).text = w.text ++ text

theorem append_adds (piece : String) : Adds (·.append piece) piece :=
  ⟨fun w => (Extends.refl w).append piece, fun _ => rfl⟩

theorem Adds.comp {write write' : Writer → Writer} {s t : String} (h : Adds write s)
    (h' : Adds write' t) : Adds (fun w => write' (write w)) (s ++ t) := by
  refine ⟨fun w => (h.extended w).trans (h'.extended _), fun w => ?_⟩
  rw [h'.text, h.text, String.append_assoc]

theorem slice_new {module : String} {line column : Nat} (before text : String) :
    slice ⟨module, before.utf8ByteSize, (before ++ text).utf8ByteSize, line, column⟩
      (before ++ text) = Utf8.encode text := by
  unfold slice Segment.length
  rw [Utf8.encode_append, ← Utf8.encode_length before, ← Utf8.encode_length, Utf8.encode_append,
    List.drop_left, List.length_append, Nat.add_sub_cancel_left, List.take_length]

theorem start_of_closed (closed : w.opened = none) (module : String) :
    w.start module =
      ({ w with opened := some ⟨module, w.length, w.line, w.column⟩ }, .ok ()) := by
  rw [Writer.start, closed]

theorem start_of_opened {o : OpenSegment} (opened : w.opened = some o) (module : String) :
    w.start module = (w, .error (.alreadyOpen o.module module)) := by
  rw [Writer.start, opened]

theorem finish_of_closed (closed : w.opened = none) : w.finish = (w, .error .noneOpen) := by
  have same : { w with opened := none } = w := by rw [← closed]
  rw [Writer.finish, closed, same]

theorem finish_of_opened {o : OpenSegment} (opened : w.opened = some o) :
    w.finish = ({ w with
      segments := w.segments ++ [⟨o.module, o.startIndex, w.length, o.line, o.column⟩]
      opened := none }, .ok (w.length - o.startIndex)) := by
  rw [Writer.finish, opened]
  rfl

/-- Where no segment is open, what is written between a start and a finish succeeds. -/
theorem segment_of_closed {module : String} {write : Writer → Writer} (closed : w.opened = none)
    (keeps : ∀ w : Writer, (write w).opened = w.opened) :
    w.segment module write = .ok (write (w.start module).1).finish.1 := by
  have still : (write (w.start module).1).opened =
      some ⟨module, w.length, w.line, w.column⟩ := by
    rw [keeps, start_of_closed closed]
  have started : (w.start module).2 = .ok () := by rw [start_of_closed closed]
  obtain ⟨length, finished⟩ : ∃ length, (write (w.start module).1).finish.2 = .ok length := by
    rw [finish_of_opened still]
    exact ⟨_, rfl⟩
  refine bind_eq_ok.2 ⟨(), started, bind_eq_ok.2 ⟨length, finished, rfl⟩⟩

/-- A segment covers what is written while it is open. -/
theorem segment_eq_ok {module text : String} {write : Writer → Writer} (adds : Adds write text)
    (closed : w.opened = none) :
    ∃ w', w.segment module write = .ok w' ∧ w'.text = w.text ++ text ∧ w'.opened = none ∧
      w'.segments = w.segments ++ [⟨module, w.length, w'.length, w.line, w.column⟩] := by
  have written : w.segment module write = .ok (write (w.start module).1).finish.1 :=
    segment_of_closed closed fun w => (adds.extended w).opened
  rw [start_of_closed closed] at written
  obtain ⟨_, segments, still⟩ :=
    adds.extended { w with opened := some ⟨module, w.length, w.line, w.column⟩ }
  rw [finish_of_opened still, segments] at written
  exact ⟨_, written, adds.text _, rfl, rfl⟩

theorem segment_gains {module text : String} {write : Writer → Writer} (adds : Adds write text)
    (sound : w.Sound) : w.Gains [(module, text)] (w.segment module write) := by
  obtain ⟨w', written, grown, closed, segments⟩ := segment_eq_ok adds sound.closed
  have length : w'.length = w.length + text.utf8ByteSize := by
    rw [Writer.length, grown, String.utf8ByteSize_append]
    rfl
  refine ⟨w', written, ⟨closed, fun s hs => ?_, ?_⟩, ?_⟩
  · rw [segments] at hs
    rcases List.mem_append.1 hs with hs | hs
    · have := sound.within s hs
      omega
    · cases List.mem_singleton.1 hs
      dsimp only
      omega
  · rw [segments]
    refine List.pairwise_append.2 ⟨sound.ordered, List.pairwise_singleton _ _, fun s hs t ht => ?_⟩
    cases List.mem_singleton.1 ht
    exact (sound.within s hs).2
  · rw [texts, segments, List.map_append, List.map_singleton, grown, sound.map_slice,
      Writer.length, Writer.length, grown, slice_new]
    rfl

theorem Extends.gains (h : w.Extends w') (sound : w.Sound) : w.Gains [] (.ok w') := by
  refine ⟨w', rfl, h.sound sound, ?_⟩
  rw [h.texts sound]
  exact (List.append_nil _).symm

theorem Gains.bind {texts texts' : List (String × String)} {result : Except WriterError Writer}
    {f : Writer → Except WriterError Writer} (h : w.Gains texts result)
    (h' : ∀ w' : Writer, w'.Sound → w'.Gains texts' (f w')) :
    w.Gains (texts ++ texts') (result >>= f) := by
  obtain ⟨next, first, sound, gained⟩ := h
  obtain ⟨last, second, sound', gained'⟩ := h' next sound
  refine ⟨last, bind_eq_ok.2 ⟨next, first, second⟩, sound', ?_⟩
  rw [gained', gained, encoded_append, List.append_assoc]

theorem Gains.extends {texts : List (String × String)} {result : Except WriterError Writer}
    (h : w'.Gains texts result) (extended : w.Extends w') (sound : w.Sound) :
    w.Gains texts result := by
  obtain ⟨last, written, sound', gained⟩ := h
  exact ⟨last, written, sound', by rw [gained, extended.texts sound]⟩

theorem Gains.foldlM {α : Type} {f : Writer → α → Except WriterError Writer}
    {texts : α → List (String × String)}
    (each : ∀ w : Writer, w.Sound → ∀ a, w.Gains (texts a) (f w a)) (sound : w.Sound)
    (as : List α) : w.Gains (as.flatMap texts) (as.foldlM f w) := by
  induction as generalizing w with
  | nil => exact ⟨w, rfl, sound, (List.append_nil _).symm⟩
  | cons a rest ih =>
    rw [List.foldlM_cons, List.flatMap_cons]
    exact (each w sound a).bind fun w' sound' => ih sound'

/-! ## Lines within a segment -/

/-- Two writers whose lines stand alike go on alike: the texts differ only in what came before. -/
structure Alike (before : String) (w v : Writer) : Prop where
  text : w.text = before ++ v.text
  mark : w.endsWithNewLine = v.endsWithNewLine
  filled : v.text ≠ ""

variable {v : Writer} {before : String}

theorem Alike.append (h : Alike before w v) (piece : String) :
    Alike before (w.append piece) (v.append piece) := by
  refine ⟨?_, ?_, ?_⟩
  · show w.text ++ piece = before ++ (v.text ++ piece)
    rw [h.text, String.append_assoc]
  · unfold Writer.append
    dsimp only
    split
    · exact h.mark
    · rfl
  · intro empty
    exact h.filled (String.append_eq_empty_iff.1 empty).1

theorem Alike.write (h : Alike before w v) (pieces : List String) :
    Alike before (w.write pieces) (v.write pieces) := by
  induction pieces generalizing w v with
  | nil => exact h
  | cons piece rest ih => exact ih (h.append piece)

theorem Alike.freshLine (h : Alike before w v) : Alike before w.freshLine v.freshLine := by
  have filled : w.text ≠ "" := by
    rw [h.text]
    intro empty
    exact h.filled (String.append_eq_empty_iff.1 empty).2
  have same : w.isEmpty = v.isEmpty := by
    rw [isEmpty, isEmpty, String.isEmpty_eq_false_iff.2 filled,
      String.isEmpty_eq_false_iff.2 h.filled]
  unfold Writer.freshLine
  rw [h.mark, same]
  split
  · exact h
  · exact h.append "\n"

theorem Alike.foldl {α : Type} {f : Writer → α → Writer}
    (each : ∀ {w v : Writer} a, Alike before w v → Alike before (f w a) (f v a))
    (h : Alike before w v) (as : List α) : Alike before (as.foldl f w) (as.foldl f v) := by
  induction as generalizing w v with
  | nil => exact h
  | cons a rest ih => exact ih (each a h)

end Writer

/-! ## Embeddings -/

namespace Embedding

/-- What an embedding is written as. -/
def text (e : Embedding) : String := (e.write {}).text

theorem write_extends (e : Embedding) (w : Writer) : w.Extends (e.write w) := by
  cases e with
  | literal text => exact (Writer.Extends.refl w).write _
  | function script globals eager =>
    have opening := (Writer.Extends.refl w).write
      [if eager then "(function()\x7b\n" else "function()\x7b\n", script]
    have globals := opening.foldl (f := writeGlobal)
      (fun w name => (Writer.Extends.refl w).freshLine.write _) globals
    exact globals.freshLine.write _

theorem write_adds (e : Embedding) : Writer.Adds e.write e.text := by
  refine ⟨e.write_extends, fun w => ?_⟩
  cases e with
  | literal text =>
    show w.text ++ _ = w.text ++ ("" ++ _)
    rw [String.empty_append]
  | function script globals eager =>
    -- the opening ends its line whatever came before
    have opening : Writer.Alike w.text
        (w.append (if eager then "(function()\x7b\n" else "function()\x7b\n"))
        (Writer.append {} (if eager then "(function()\x7b\n" else "function()\x7b\n")) := by
      cases eager
      · exact ⟨rfl, rfl, by decide⟩
      · exact ⟨rfl, rfl, by decide⟩
    have globals := (opening.append script).foldl (f := writeGlobal)
      (fun name h => h.freshLine.write _) globals
    exact (globals.freshLine.write _).text

end Embedding

namespace Entry

/-- What the entry is written as. -/
def text (e : Entry) : String := Json.quote e.module ++ ":" ++ e.embedding.text

theorem write_gains {w : Writer} (sound : w.Sound) (e : Entry) :
    w.Gains [(e.module, e.text)] (write w e) := by
  have key := (Writer.append_adds (Json.quote e.module)).comp (Writer.append_adds ":")
  exact Writer.segment_gains (key.comp e.embedding.write_adds) sound

theorem writeAll_gains {w : Writer} (sound : w.Sound) (entries : List Entry) :
    w.Gains (entries.map fun e => (e.module, e.text)) (writeAll w entries) := by
  cases entries with
  | nil => exact (Writer.Extends.refl w).gains sound
  | cons e rest =>
    have separated (w : Writer) (sound : w.Sound) (e : Entry) :
        w.Gains [(e.module, e.text)] (write (w.write [",\n"]) e) := by
      have comma := (Writer.Extends.refl w).write [",\n"]
      exact (write_gains (comma.sound sound) e).extends comma sound
    have all := (write_gains sound e).bind fun w' sound' =>
      Writer.Gains.foldlM separated sound' rest
    rwa [← List.map_eq_flatMap] at all

end Entry

/-! ## Pieces -/

theorem Configuration.write_extends (c : Configuration) (w : Writer) : w.Extends (c.write w) := by
  have here := Writer.Extends.refl w
  unfold Configuration.write
  refine Writer.Extends.writeLine (.foldl ?roots (.foldl ?properties ?opening _) _) _
  case opening => exact ((here.writeLine _).writeLine _).writeLine _
  case properties => exact fun w ⟨_, _⟩ => (Writer.Extends.refl w).writeLine _
  case roots => exact fun w ⟨_, _⟩ => (Writer.Extends.refl w).writeLine _

theorem Format.beforePreloads_extends (f : Format) (name : Option String) (w : Writer) :
    w.Extends (f.beforePreloads name w) := by
  have here := Writer.Extends.refl w
  cases f <;> cases name
  · exact ((here.writeLine _).writeLine _).writeLine _
  · exact (((here.writeLine _).writeLine _).writeLine _).writeLine _
  · exact here.writeLine _
  · exact here.writeLine _

theorem Format.afterPreloads_extends (f : Format) (name : Option String) (w : Writer) :
    w.Extends (f.afterPreloads name w) := by
  have here := Writer.Extends.refl w
  cases f <;> cases name
  · exact here.writeLine _
  · exact here.writeLine _
  · exact (here.write _).writeLine _
  · exact ((here.write _).write _).writeLine _

namespace Piece

/-- The modules that the piece embeds, each with the text of its segment. -/
def texts : Piece → List (String × String)
  | .raw module code | .predefine module code => [(module, code)]
  | .preloads _ entries => entries.map fun e => (e.module, e.text)
  | _ => []

theorem writeScript_gains {w : Writer} (sound : w.Sound) (module code : String) :
    w.Gains [(module, code)] (writeScript module code w) := by
  have fresh := (Writer.Extends.refl w).freshLine
  have embedded : w.Gains [(module, code)] (w.freshLine.segment module (·.write [code])) :=
    (Writer.segment_gains (Writer.append_adds code) (fresh.sound sound)).extends fresh sound
  exact embedded.bind fun w' sound' => (Writer.Extends.refl w').freshLine.gains sound'

/-- Writing a piece succeeds and adds segments with its texts. -/
theorem write_gains {w : Writer} (sound : w.Sound) (format : Format) (p : Piece) :
    w.Gains p.texts (p.write format w) := by
  have here := Writer.Extends.refl w
  cases p with
  | raw module code => exact writeScript_gains sound module code
  | predefine module code => exact writeScript_gains sound module code
  | preloads name entries =>
    have before := here.freshLine.trans (format.beforePreloads_extends name w.freshLine)
    have embedded := (Entry.writeAll_gains (before.sound sound) entries).extends before sound
    have closed := embedded.bind fun w' sound' => Writer.Extends.gains
      ((Writer.Extends.refl w').freshLine.trans (format.afterPreloads_extends name _)) sound'
    rwa [List.append_nil] at closed
  | optimizedMark => exact (here.writeLine _).gains sound
  | tryOpening => exact (here.writeLine _).gains sound
  | configuration c => exact (c.write_extends w).gains sound
  | declaration module => exact (here.freshLine.writeLine _).gains sound
  | announcement bundle modules => exact (here.freshLine.writeLine _).gains sound
  | require module => exact (here.freshLine.writeLine _).gains sound
  | boot => exact (here.freshLine.writeLine _).gains sound
  | tryClosing => exact (((here.freshLine.writeLine _).writeLine _).writeLine _).gains sound

theorem writeAll_gains (format : Format) (pieces : List Piece) :
    Writer.Gains {} (pieces.flatMap texts) (writeAll format pieces) :=
  .foldlM (fun _ sound p => write_gains sound format p) Writer.sound_empty pieces

/-- **Segments hold the texts of the pieces.** Written from the start, the pieces leave a segment
for each of their texts, in order, that covers the bytes of the text. -/
theorem writeAll_texts (format : Format) (pieces : List Piece) :
    ∃ w, writeAll format pieces = .ok w ∧ w.texts = Writer.encoded (pieces.flatMap texts) := by
  obtain ⟨w, written, _, gained⟩ := writeAll_gains format pieces
  exact ⟨w, written, gained⟩

theorem writeAll_sound {format : Format} {pieces : List Piece} {w : Writer}
    (h : writeAll format pieces = .ok w) : w.Sound := by
  obtain ⟨_, written, sound, _⟩ := writeAll_gains format pieces
  cases written.symm.trans h
  exact sound

end Piece

end Bundler
