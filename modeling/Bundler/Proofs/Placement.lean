import Bundler.Proofs.Segments
import Mathlib.Data.List.Induction

/-!
# Where pieces stand

Writing only ever adds to the text, so every piece has bytes of its own: `Piece.place` tells them.
The segments of a bundle lie in the bytes of the pieces that have their modules
(`Stands.of_segment`), and pieces stand in the order in which they are written (`Stands.compare`).
-/

namespace Bundler

namespace Writer

variable {w w' w'' : Writer}

/-- The second writer has more text, and more segments in what it has more. -/
structure Grows (w w' : Writer) : Prop where
  text : ∃ more, w'.text = w.text ++ more
  segments : ∃ new, w'.segments = w.segments ++ new ∧ ∀ s ∈ new, w.length ≤ s.startIndex

theorem Grows.length (h : w.Grows w') : w.length ≤ w'.length := by
  obtain ⟨more, text⟩ := h.text
  rw [Writer.length, Writer.length, text, String.utf8ByteSize_append]
  omega

theorem Extends.grows (h : w.Extends w') : w.Grows w' := by
  refine ⟨h.text, [], ?_, ?_⟩
  · rw [h.segments, List.append_nil]
  · simp

theorem Grows.refl (w : Writer) : w.Grows w := (Extends.refl w).grows

theorem Grows.trans (h : w.Grows w') (h' : w'.Grows w'') : w.Grows w'' := by
  have longer := h.length
  obtain ⟨⟨s, text⟩, new, segments, behind⟩ := h
  obtain ⟨⟨t, text'⟩, new', segments', behind'⟩ := h'
  refine ⟨⟨s ++ t, ?_⟩, new ++ new', ?_, ?_⟩
  · rw [text', text, String.append_assoc]
  · rw [segments', segments, List.append_assoc]
  · intro s hs
    rcases List.mem_append.1 hs with hs | hs
    · exact behind s hs
    · exact Nat.le_trans longer (behind' s hs)

theorem segment_grows {module text : String} {write : Writer → Writer} (adds : Adds write text)
    (h : w.segment module write = .ok w') : w.Grows w' := by
  have closed : w.opened = none := by
    cases free : w.opened with
    | none => rfl
    | some o =>
      rw [segment, start_of_opened free] at h
      cases h
  obtain ⟨_, written, grown, _, segments⟩ := segment_eq_ok adds closed
  cases written.symm.trans h
  refine ⟨⟨text, grown⟩, _, segments, ?_⟩
  simp

theorem foldlM_grows {α : Type} {f : Writer → α → Except WriterError Writer}
    (each : ∀ a w w', f w a = .ok w' → w.Grows w') {as : List α}
    (h : as.foldlM f w = .ok w') : w.Grows w' := by
  induction as generalizing w with
  | nil =>
    cases h
    exact .refl _
  | cons a rest ih =>
    obtain ⟨next, first, later⟩ := bind_eq_ok.1 h
    exact (each a w next first).trans (ih later)

end Writer

namespace Entry

theorem write_grows {e : Entry} {w w' : Writer} (h : write w e = .ok w') : w.Grows w' := by
  have key := (Writer.append_adds (Json.quote e.module)).comp (Writer.append_adds ":")
  exact Writer.segment_grows (key.comp e.embedding.write_adds) h

theorem writeAll_grows {entries : List Entry} {w w' : Writer} (h : writeAll w entries = .ok w') :
    w.Grows w' := by
  cases entries with
  | nil =>
    cases h
    exact .refl _
  | cons e rest =>
    obtain ⟨next, first, later⟩ := bind_eq_ok.1 h
    apply (write_grows first).trans
    apply Writer.foldlM_grows _ later
    intro e w w' h
    exact ((Writer.Extends.refl w).write [",\n"]).grows.trans (write_grows h)

end Entry

/-! ## Places -/

/-- Bytes `startIndex` to `endIndex` of the text are written for the piece. -/
structure Placed where
  piece : Piece
  startIndex : Nat
  endIndex : Nat

namespace Piece

/-- The pieces, each with its bytes, as they are written one after the other from `w` on. -/
def place (format : Format) (w : Writer) : List Piece → List Placed
  | [] => []
  | x :: rest =>
    match x.write format w with
    | .ok w' => ⟨x, w.length, w'.length⟩ :: place format w' rest
    | .error _ => []

variable {format : Format} {pieces before before' : List Piece} {x x' : Piece} {w w' : Writer}

theorem writeScript_grows {module code : String} (h : writeScript module code w = .ok w') :
    w.Grows w' := by
  obtain ⟨next, embedded, last⟩ := bind_eq_ok.1 h
  cases last
  apply (Writer.Extends.refl w).freshLine.grows.trans
  apply (Writer.segment_grows (Writer.append_adds code) embedded).trans
  exact (Writer.Extends.refl next).freshLine.grows

theorem write_grows (h : x.write format w = .ok w') : w.Grows w' := by
  have here := Writer.Extends.refl w
  cases x with
  | raw module code => exact writeScript_grows h
  | predefine module code => exact writeScript_grows h
  | preloads name entries =>
    obtain ⟨next, embedded, last⟩ := bind_eq_ok.1 h
    cases last
    apply (here.freshLine.trans (format.beforePreloads_extends name w.freshLine)).grows.trans
    apply (Entry.writeAll_grows embedded).trans
    apply (Writer.Extends.refl next).freshLine.grows.trans
    exact (format.afterPreloads_extends name next.freshLine).grows
  | configuration c =>
    cases h
    exact (c.write_extends w).grows
  | optimizedMark | tryOpening =>
    cases h
    exact (here.writeLine _).grows
  | declaration | announcement | require | boot =>
    cases h
    exact (here.freshLine.writeLine _).grows
  | tryClosing =>
    cases h
    exact (((here.freshLine.writeLine _).writeLine _).writeLine _).grows

/-- The piece is written from `next` to `next'`, behind the pieces `before`. -/
structure Stands (format : Format) (pieces before : List Piece) (x : Piece) (next next' : Writer) :
    Prop where
  split : ∃ after, pieces = before ++ x :: after
  reached : writeAll format before = .ok next
  written : x.write format next = .ok next'

variable {next next' last last' : Writer}

theorem exists_stands (format : Format) (before : List Piece) (x : Piece) (after : List Piece) :
    ∃ next next', Stands format (before ++ x :: after) before x next next' := by
  obtain ⟨next, reached, sound, _⟩ := writeAll_gains format before
  obtain ⟨next', written, _⟩ := write_gains sound format x
  exact ⟨next, next', ⟨after, rfl⟩, reached, written⟩

theorem Stands.append (h : Stands format pieces before x next next') (more : List Piece) :
    Stands format (pieces ++ more) before x next next' := by
  obtain ⟨after, rfl⟩ := h.split
  exact ⟨⟨after ++ more, by simp⟩, h.reached, h.written⟩

theorem writeAll_append {after : List Piece} : writeAll format (before ++ after) = .ok w ↔
    ∃ next, writeAll format before = .ok next ∧ after.foldlM (write format) next = .ok w := by
  unfold writeAll
  rw [List.foldlM_append, bind_eq_ok]

/-- What is written later only adds to what there is. -/
theorem Stands.grows (h : Stands format pieces before x next next')
    (all : writeAll format pieces = .ok w) : next'.Grows w := by
  obtain ⟨⟨after, rfl⟩, reached, written⟩ := h
  obtain ⟨_, again, rest⟩ := writeAll_append.1 all
  cases again.symm.trans reached
  obtain ⟨_, again, rest⟩ := bind_eq_ok.1 rest
  cases again.symm.trans written
  exact Writer.foldlM_grows (fun _ _ _ => write_grows) rest

/-- Of two pieces one stands before the other, unless they stand in the same place. -/
theorem Stands.compare (h : Stands format pieces before x next next')
    (h' : Stands format pieces before' x' last last') :
    (x ∈ before' ∧ next'.Grows last) ∨ (before = before' ∧ x = x') ∨
      (x' ∈ before ∧ last'.Grows next) := by
  obtain ⟨⟨after, rfl⟩, reached, written⟩ := h
  obtain ⟨⟨after', split⟩, reached', written'⟩ := h'
  rcases List.append_eq_append_iff.1 split with ⟨between, rfl, rest⟩ | ⟨between, rfl, rest⟩
  · cases between with
    | nil =>
      cases rest
      exact .inr (.inl ⟨(List.append_nil _).symm, rfl⟩)
    | cons y between =>
      cases rest
      have earlier : Stands format (before ++ x :: between) before x next next' :=
        ⟨⟨between, rfl⟩, reached, written⟩
      exact .inl ⟨by simp, earlier.grows reached'⟩
  · cases between with
    | nil =>
      cases rest
      exact .inr (.inl ⟨List.append_nil _, rfl⟩)
    | cons y between =>
      cases rest
      have earlier : Stands format (before' ++ x' :: between) before' x' last last' :=
        ⟨⟨between, rfl⟩, reached', written'⟩
      exact .inr (.inr ⟨by simp, earlier.grows reached⟩)

/-! ## Pieces in their places -/

theorem place_append {after : List Piece} (h : before.foldlM (write format) w = .ok w') :
    place format w (before ++ after) = place format w before ++ place format w' after := by
  induction before generalizing w with
  | nil =>
    cases h
    rfl
  | cons x rest ih =>
    obtain ⟨next, written, later⟩ := bind_eq_ok.1 h
    rw [List.cons_append, place, place, written]
    dsimp only
    rw [ih later, List.cons_append]

theorem place_pieces (h : pieces.foldlM (write format) w = .ok w') :
    (place format w pieces).map (·.piece) = pieces := by
  induction pieces generalizing w with
  | nil => rfl
  | cons x rest ih =>
    obtain ⟨next, written, later⟩ := bind_eq_ok.1 h
    rw [place, written]
    dsimp only
    rw [List.map_cons, ih later]

theorem Stands.mem_place (h : Stands format pieces before x next next') :
    ⟨x, next.length, next'.length⟩ ∈ place format {} pieces := by
  obtain ⟨⟨after, rfl⟩, reached, written⟩ := h
  rw [place_append reached, place, written]
  exact List.mem_append_right _ List.mem_cons_self

theorem exists_of_mem_place {t : Placed} (ht : t ∈ place format w pieces) :
    ∃ before after next next', pieces = before ++ t.piece :: after ∧
      before.foldlM (write format) w = .ok next ∧ t.piece.write format next = .ok next' ∧
      next.length = t.startIndex ∧ next'.length = t.endIndex := by
  induction pieces generalizing w with
  | nil => cases ht
  | cons x rest ih =>
    unfold place at ht
    split at ht
    · rename_i w' written
      rcases List.mem_cons.1 ht with rfl | ht
      · exact ⟨[], rest, w, w', rfl, rfl, written, rfl, rfl⟩
      · obtain ⟨before, after, next, next', rfl, reached, written', start, stop⟩ := ih ht
        exact ⟨x :: before, after, next, next', rfl, bind_eq_ok.2 ⟨w', written, reached⟩, written',
          start, stop⟩
    · cases ht

theorem stands_of_mem_place {t : Placed} (ht : t ∈ place format {} pieces) :
    ∃ before next next', Stands format pieces before t.piece next next' ∧
      next.length = t.startIndex ∧ next'.length = t.endIndex := by
  obtain ⟨before, after, next, next', rfl, reached, written, start, stop⟩ := exists_of_mem_place ht
  exact ⟨before, next, next', ⟨⟨after, rfl⟩, reached, written⟩, start, stop⟩

/-- The pieces have their bytes one behind the other. -/
theorem place_ordered (format : Format) (w : Writer) (pieces : List Piece) :
    (place format w pieces).Pairwise fun t u => t.endIndex ≤ u.startIndex := by
  induction pieces generalizing w with
  | nil => exact .nil
  | cons x rest ih =>
    unfold place
    split
    · rename_i w' _
      refine List.pairwise_cons.2 ⟨?_, ih w'⟩
      intro u hu
      obtain ⟨_, _, next, _, _, reached, _, start, _⟩ := exists_of_mem_place hu
      rw [← start]
      exact (Writer.foldlM_grows (fun _ _ _ => write_grows) reached).length
    · exact .nil

/-- What is written before a piece ends where it starts at the latest. -/
theorem Stands.exists_placed (h : Stands format pieces before x next next') (hx : x' ∈ before) :
    ∃ t ∈ place format {} pieces, t.piece = x' ∧ t.endIndex ≤ next.length := by
  obtain ⟨⟨after, rfl⟩, reached, _⟩ := h
  obtain ⟨first, between, rfl⟩ := List.append_of_mem hx
  obtain ⟨last, last', earlier⟩ := exists_stands format first x' between
  exact ⟨_, (earlier.append _).mem_place, rfl, (earlier.grows reached).length⟩

/-! ## Segments in their places -/

/-- A piece adds the segments of its texts. -/
theorem write_new (sound : next.Sound) (h : x.write format next = .ok next') :
    ∃ new, next'.segments = next.segments ++ new ∧
      (∀ s ∈ new, next.length ≤ s.startIndex ∧ s.endIndex ≤ next'.length) ∧
      (new.map fun s => (s.module, Writer.slice s next'.text)) = Writer.encoded x.texts := by
  obtain ⟨_, again, sound', gained⟩ := write_gains sound format x
  cases again.symm.trans h
  obtain ⟨⟨more, text⟩, new, segments, behind⟩ := write_grows h
  refine ⟨new, segments, ?_, ?_⟩
  · intro s hs
    exact ⟨behind s hs, (sound'.within s (segments ▸ List.mem_append_right _ hs)).2⟩
  · rw [Writer.texts, segments, List.map_append, text, sound.map_slice more] at gained
    rw [text]
    exact List.append_cancel_left gained

/-- A segment lies in the bytes of a piece that has its module, and holds what the piece has. -/
theorem stands_of_segment (all : writeAll format pieces = .ok w) {s : Segment}
    (hs : s ∈ w.segments) :
    ∃ before x next next' text, Stands format pieces before x next next' ∧
      (s.module, text) ∈ x.texts ∧ Writer.slice s w.text = Utf8.encode text ∧
      next.length ≤ s.startIndex ∧ s.endIndex ≤ next'.length := by
  induction pieces using List.reverseRecOn generalizing w with
  | nil =>
    cases all
    cases hs
  | append_singleton before x ih =>
    obtain ⟨next, reached, rest⟩ := writeAll_append.1 all
    obtain ⟨_, written, last⟩ := bind_eq_ok.1 rest
    cases last
    have sound := writeAll_sound reached
    obtain ⟨new, segments, within, texts⟩ := write_new sound written
    rw [segments] at hs
    rcases List.mem_append.1 hs with hs | hs
    · obtain ⟨before, x, first, first', text, stands, mem, slice, start, stop⟩ := ih reached hs
      obtain ⟨more, grown⟩ := (write_grows written).text
      obtain ⟨ordered, within⟩ := sound.within s hs
      refine ⟨before, x, first, first', text, stands.append _, mem, ?_, start, stop⟩
      rw [grown, Writer.slice_append ordered within, slice]
    · have mem := List.mem_map_of_mem (f := fun s => (s.module, Writer.slice s w.text)) hs
      rw [texts] at mem
      obtain ⟨⟨module, text⟩, mem, same⟩ := List.mem_map.1 mem
      obtain ⟨rfl, slice⟩ := Prod.mk.inj same
      obtain ⟨start, stop⟩ := within s hs
      exact ⟨before, x, next, w, text, ⟨⟨[], rfl⟩, reached, written⟩, mem, slice.symm, start, stop⟩

/-- What a piece has gets a segment in the bytes of the piece. -/
theorem Stands.exists_segment (h : Stands format pieces before x next next')
    (all : writeAll format pieces = .ok w) {module text : String}
    (mem : (module, text) ∈ x.texts) :
    ∃ s ∈ w.segments, s.module = module ∧ Writer.slice s w.text = Utf8.encode text ∧
      next.length ≤ s.startIndex ∧ s.endIndex ≤ next'.length := by
  have sound := writeAll_sound h.reached
  obtain ⟨new, segments, within, texts⟩ := write_new sound h.written
  have encoded : (module, Utf8.encode text) ∈ Writer.encoded x.texts :=
    List.mem_map.2 ⟨(module, text), mem, rfl⟩
  rw [← texts] at encoded
  obtain ⟨s, hs, same⟩ := List.mem_map.1 encoded
  obtain ⟨name, slice⟩ := Prod.mk.inj same
  obtain ⟨start, stop⟩ := within s hs
  obtain ⟨_, again, sound', _⟩ := write_gains sound format x
  cases again.symm.trans h.written
  have grows := h.grows all
  obtain ⟨later, kept, _⟩ := grows.segments
  obtain ⟨more, text⟩ := grows.text
  have here : s ∈ next'.segments := segments ▸ List.mem_append_right _ hs
  refine ⟨s, kept ▸ List.mem_append_left _ here, name, ?_, start, stop⟩
  obtain ⟨ordered, ends⟩ := sound'.within s here
  rw [text, Writer.slice_append ordered ends, slice]

theorem exists_segment (all : writeAll format pieces = .ok w) (hx : x ∈ pieces)
    {module text : String} (mem : (module, text) ∈ x.texts) :
    ∃ s ∈ w.segments, s.module = module := by
  obtain ⟨before, after, rfl⟩ := List.append_of_mem hx
  obtain ⟨next, next', stands⟩ := exists_stands format before x after
  obtain ⟨s, hs, name, _⟩ := stands.exists_segment all mem
  exact ⟨s, hs, name⟩

end Piece

end Bundler
