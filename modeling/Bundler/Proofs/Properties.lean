import Bundler.Json.Document
import Bundler.Literal
import Bundler.Pool
import Mathlib.Data.List.Basic

/-!
# Properties texts

A properties text is read from left to right. A backslash escapes a UTF-16 unit or a single
character, and all else is read as it is: `Properties.read`. `Literal.properties` looks at no
context, so what a text denotes is kept unless it escapes a character beyond ASCII
(`properties_read`). One that does comes to denote more than before (`escapes_flatMap`).
-/

namespace Bundler.Properties

/-- What is read at one place of a text. -/
inductive Token where
  | unit (n : Nat)
  /-- A character behind a backslash, which may stand for another one. -/
  | escaped (c : Char)
  deriving DecidableEq, Repr

/-- Reads `count` hexadecimal digits more, where `n` has been read so far. -/
def digits? (count n : Nat) (s : List Char) : Option (Nat × List Char) :=
  match count, s with
  | 0, s => some (n, s)
  | _ + 1, [] => none
  | count + 1, c :: s => (Document.hexValue? c).bind fun digit => digits? count (n * 16 + digit) s

/-- Reads what makes a backslash in front the escape of a UTF-16 unit. -/
def unit? : List Char → Option (Nat × List Char)
  | 'u' :: s => digits? 4 0 s
  | _ => none

theorem digits_suffix {count n m : Nat} {s rest : List Char}
    (h : digits? count n s = some (m, rest)) : rest <:+ s := by
  induction count generalizing n s with
  | zero =>
    cases h
    exact List.suffix_refl _
  | succ count ih =>
    cases s with
    | nil => cases h
    | cons c s =>
      obtain ⟨digit, _, h⟩ := Option.bind_eq_some_iff.1 h
      exact (ih h).trans (List.suffix_cons c s)

theorem unit_suffix {n : Nat} {s rest : List Char} (h : unit? s = some (n, rest)) :
    rest <:+ s := by
  unfold unit? at h
  split at h
  · exact (digits_suffix h).trans (List.suffix_cons _ _)
  · cases h

/-- The tokens of a text. A backslash at its end is read as it is. -/
def read : List Char → List Token
  | [] => []
  | c :: s =>
    if c = '\\' then
      match h : unit? s with
      | some (n, rest) =>
        have := (unit_suffix h).length_le
        .unit n :: read rest
      | none =>
        match s with
        | [] => [.unit c.toNat]
        | d :: rest => .escaped d :: read rest
    else (Literal.units c).map .unit ++ read s
termination_by s => s.length

/-- What escaped ASCII characters denote is left open, since some of them are the names of others.
All other characters denote themselves. -/
def Token.denote (meaning : Char → List Nat) : Token → List Nat
  | .unit n => [n]
  | .escaped c => if c.toNat < 128 then meaning c else Literal.units c

/-- The UTF-16 units that a text denotes. -/
def denoted (meaning : Char → List Nat) (s : List Char) : List Nat :=
  (read s).flatMap (Token.denote meaning)

/-- The text escapes no character beyond ASCII but by its units. -/
def Plain (s : List Char) : Prop := ∀ c, .escaped c ∈ read s → c.toNat < 128

variable {c : Char} {n : Nat} {s rest : List Char}

/-! ## Reading -/

theorem read_other (h : c ≠ '\\') : read (c :: s) = (Literal.units c).map .unit ++ read s := by
  rw [read, if_neg h]

theorem read_unit (h : unit? s = some (n, rest)) : read ('\\' :: s) = .unit n :: read rest := by
  rw [read, if_pos rfl]
  split
  · rename_i found
    cases found.symm.trans h
    rfl
  · rename_i none
    cases none.symm.trans h

theorem read_escaped (h : unit? (c :: s) = none) :
    read ('\\' :: c :: s) = .escaped c :: read s := by
  rw [read, if_pos rfl]
  split
  · rename_i found
    cases found.symm.trans h
  · rfl

theorem read_end : read ['\\'] = [.unit '\\'.toNat] := by
  rw [read, if_pos rfl]
  split
  · rename_i found
    cases found
  · rfl

/-! ## Escaped units -/

theorem hexValue_hexDigit {d : Nat} (h : d < 16) :
    Document.hexValue? (hexDigit true d) = some d := by
  have all : ∀ d < 16, Document.hexValue? (hexDigit true d) = some d := by decide
  exact all d h

theorem unit_hex4 (h : n < 0x10000) : unit? ('u' :: hex4 true n ++ rest) = some (n, rest) := by
  have digits : digits? 4 0 (hex4 true n ++ rest) = some (n, rest) := by
    have first : n / 4096 < 16 := by omega
    have value :
        (((0 * 16 + n / 4096) * 16 + n / 256 % 16) * 16 + n / 16 % 16) * 16 + n % 16 = n := by
      omega
    simp only [hex4, List.map_cons, List.map_nil, List.cons_append, List.nil_append, digits?,
      hexValue_hexDigit first, hexValue_hexDigit (Nat.mod_lt _ (by decide : 0 < 16)),
      Option.bind_some, value]
  exact digits

/-- The digits are neither backslashes nor beyond ASCII. -/
theorem hex4_plain (h : n < 0x10000) : ∀ c ∈ hex4 true n, c ≠ '\\' ∧ c.toNat < 128 := by
  have all : ∀ d < 16, hexDigit true d ≠ '\\' ∧ (hexDigit true d).toNat < 128 := by decide
  intro c hc
  simp only [hex4, List.map_cons, List.map_nil, List.mem_cons, List.not_mem_nil, or_false] at hc
  rcases hc with rfl | rfl | rfl | rfl <;> exact all _ (by omega)

theorem units_lt (c : Char) : ∀ n ∈ Literal.units c, n < 0x10000 := by
  have bound : c.toNat < 0x110000 := by
    have := c.valid
    simp only [UInt32.isValidChar, Nat.isValidChar] at this
    simp only [Char.toNat]
    omega
  intro n hn
  simp only [Literal.units] at hn
  split at hn
  · cases List.mem_singleton.1 hn
    assumption
  · simp only [List.mem_cons, List.not_mem_nil, or_false] at hn
    omega

theorem read_units {units : List Nat} (h : ∀ n ∈ units, n < 0x10000) :
    read ((units.flatMap fun n => '\\' :: 'u' :: hex4 true n) ++ rest) =
      units.map .unit ++ read rest := by
  induction units with
  | nil => rfl
  | cons n units ih =>
    obtain ⟨first, others⟩ := List.forall_mem_cons.1 h
    rw [List.flatMap_cons, List.append_assoc, List.cons_append, read_unit (unit_hex4 first),
      ih others]
    rfl

theorem escapeUnits_ascii (h : c.toNat < 128) : Literal.escapeUnits c = [c] := if_pos h

theorem escapeUnits_other (h : ¬c.toNat < 128) :
    Literal.escapeUnits c = (Literal.units c).flatMap fun n => '\\' :: 'u' :: hex4 true n :=
  if_neg h

/-- What is no backslash is read alike before and after. -/
theorem read_escapeUnits (h : c ≠ '\\') :
    read (Literal.escapeUnits c ++ rest) = (Literal.units c).map .unit ++ read rest := by
  by_cases ascii : c.toNat < 128
  · rw [escapeUnits_ascii ascii]
    exact read_other h
  · rw [escapeUnits_other ascii]
    exact read_units (units_lt c)

/-! ## What is read after escaping -/

/-- The escapes of a character beyond ASCII begin with a backslash. -/
theorem escapeUnits_head (h : ¬c.toNat < 128) :
    ∃ rest, Literal.escapeUnits c = '\\' :: 'u' :: rest := by
  rw [escapeUnits_other h]
  simp only [Literal.units]
  split <;> exact ⟨_, rfl⟩

theorem hexValue_other (h : ¬c.toNat < 128) : Document.hexValue? c = none := by
  simp only [Document.hexValue?, Char.le_def, UInt32.le_iff_toNat_le, Char.toNat] at h ⊢
  have digit : '9'.val.toNat = 57 := rfl
  have lower : 'f'.val.toNat = 102 := rfl
  have upper : 'F'.val.toNat = 70 := rfl
  rw [if_neg (by omega), if_neg (by omega), if_neg (by omega)]

/-- Neither a character beyond ASCII nor its escape goes on with a number. -/
theorem digits_escaped (count n : Nat) (s : List Char) :
    digits? count n (s.flatMap Literal.escapeUnits) =
      (digits? count n s).map (Prod.map id (·.flatMap Literal.escapeUnits)) := by
  induction count generalizing n s with
  | zero => cases s <;> rfl
  | succ count ih =>
    cases s with
    | nil => rfl
    | cons c s =>
      rw [List.flatMap_cons]
      by_cases ascii : c.toNat < 128
      · rw [escapeUnits_ascii ascii]
        cases value : Document.hexValue? c with
        | none => simp [digits?, value]
        | some digit => simp [digits?, value, ih]
      · obtain ⟨rest, escape⟩ := escapeUnits_head ascii
        have backslash : Document.hexValue? '\\' = none := rfl
        simp [escape, digits?, backslash, hexValue_other ascii]

theorem unit_escaped (s : List Char) : unit? (s.flatMap Literal.escapeUnits) =
    (unit? s).map (Prod.map id (·.flatMap Literal.escapeUnits)) := by
  cases s with
  | nil => rfl
  | cons c s =>
    rw [List.flatMap_cons]
    by_cases ascii : c.toNat < 128
    · rw [escapeUnits_ascii ascii]
      by_cases marked : c = 'u'
      · subst marked
        exact digits_escaped 4 0 s
      · simp [unit?, marked]
    · obtain ⟨rest, escape⟩ := escapeUnits_head ascii
      have other : c ≠ 'u' := by
        rintro rfl
        exact ascii (by decide)
      simp [escape, unit?, other]

theorem escapeUnits_isAscii (c : Char) : ∀ d ∈ Literal.escapeUnits c, d.toNat < 128 := by
  intro d hd
  by_cases ascii : c.toNat < 128
  · rw [escapeUnits_ascii ascii] at hd
    cases List.mem_singleton.1 hd
    exact ascii
  · rw [escapeUnits_other ascii] at hd
    obtain ⟨n, hn, hd⟩ := List.mem_flatMap.1 hd
    rcases List.mem_cons.1 hd with rfl | hd
    · decide
    · rcases List.mem_cons.1 hd with rfl | hd
      · decide
      · exact (hex4_plain (units_lt c n hn) d hd).2

theorem read_unit_escaped (h : unit? s = some (n, rest)) :
    read (('\\' :: s).flatMap Literal.escapeUnits) =
      .unit n :: read (rest.flatMap Literal.escapeUnits) := by
  have escaped : unit? (s.flatMap Literal.escapeUnits) =
      some (n, rest.flatMap Literal.escapeUnits) := by
    rw [unit_escaped, h]
    rfl
  exact read_unit escaped

theorem read_escaped_ascii (h : unit? (c :: s) = none) (ascii : c.toNat < 128) :
    read (('\\' :: c :: s).flatMap Literal.escapeUnits) =
      .escaped c :: read (s.flatMap Literal.escapeUnits) := by
  have escaped : unit? (c :: s.flatMap Literal.escapeUnits) = none := by
    have whole := unit_escaped (c :: s)
    rw [h, List.flatMap_cons, escapeUnits_ascii ascii] at whole
    exact whole
  rw [List.flatMap_cons, List.flatMap_cons, escapeUnits_ascii ascii]
  exact read_escaped escaped

/-- What is neither a backslash nor beyond ASCII is read as it is. -/
theorem read_append {t : List Char} (h : ∀ c ∈ t, c ≠ '\\' ∧ c.toNat < 128) :
    read (t ++ rest) = (t.map Char.toNat).map .unit ++ read rest := by
  induction t with
  | nil => rfl
  | cons c t ih =>
    obtain ⟨⟨other, ascii⟩, later⟩ := List.forall_mem_cons.1 h
    have units : Literal.units c = [c.toNat] := if_pos (by omega)
    rw [List.cons_append, read_other other, units, ih later]
    rfl

/-- A backslash in front of a character beyond ASCII escapes the one that is written for it. -/
theorem read_escaped_other (h : ¬c.toNat < 128) : ∃ n more, Literal.units c = n :: more ∧
    read (('\\' :: c :: s).flatMap Literal.escapeUnits) =
      (.escaped '\\' :: (('u' :: hex4 true n).map Char.toNat ++ more).map .unit) ++
        read (s.flatMap Literal.escapeUnits) := by
  have known : ∃ n more, Literal.units c = n :: more := by
    unfold Literal.units
    dsimp only
    split <;> exact ⟨_, _, rfl⟩
  obtain ⟨n, more, units⟩ := known
  have small := units_lt c
  rw [units] at small
  obtain ⟨first, others⟩ := List.forall_mem_cons.1 small
  have plain : ∀ d ∈ 'u' :: hex4 true n, d ≠ '\\' ∧ d.toNat < 128 :=
    List.forall_mem_cons.2 ⟨by decide, hex4_plain first⟩
  have none (t : List Char) : unit? ('\\' :: t) = none := rfl
  refine ⟨n, more, units, ?_⟩
  rw [List.map_append, List.cons_append, List.append_assoc, ← read_units others,
    ← read_append plain, ← read_escaped (none _), List.flatMap_cons, List.flatMap_cons,
    escapeUnits_other h, units, List.flatMap_cons, List.append_assoc]
  rfl

/-! ## What a text denotes before and after -/

variable {meaning : Char → List Nat} {s' rest' : List Char} {tokens : List Token}

theorem denote_cons_units (t : Token) (units : List Nat) :
    (t :: units.map .unit).flatMap (Token.denote meaning) = t.denote meaning ++ units := by
  rw [List.flatMap_cons, List.flatMap_map]
  exact congrArg (t.denote meaning ++ ·) (List.flatMap_singleton' units)

theorem denoted_of_read (h : read s = tokens ++ read rest) :
    denoted meaning s = tokens.flatMap (Token.denote meaning) ++ denoted meaning rest := by
  rw [denoted, h, List.flatMap_append]
  rfl

/-- A plain text is read as before. Any other one denotes more. -/
structure Escapes (meaning : Char → List Nat) (s s' : List Char) : Prop where
  same : Plain s → read s' = read s
  longer : ¬Plain s → (denoted meaning s).length < (denoted meaning s').length

theorem Escapes.of_plain (plain : Plain s) (same : read s' = read s) : Escapes meaning s s' :=
  ⟨fun _ => same, fun escaping => absurd plain escaping⟩

theorem plain_iff (h : read s = tokens ++ read rest) :
    Plain s ↔ (∀ c, .escaped c ∈ tokens → c.toNat < 128) ∧ Plain rest := by
  simp only [Plain, h, List.mem_append, or_imp, forall_and]

/-- The same tokens may stand in front. -/
theorem Escapes.step (later : Escapes meaning rest rest') (h : read s = tokens ++ read rest)
    (h' : read s' = tokens ++ read rest') (ascii : ∀ c, .escaped c ∈ tokens → c.toNat < 128) :
    Escapes meaning s s' := by
  constructor
  · intro plain
    rw [h, h', later.same ((plain_iff h).1 plain).2]
  · intro escaping
    have escaping : ¬Plain rest := fun plain => escaping ((plain_iff h).2 ⟨ascii, plain⟩)
    have := later.longer escaping
    rw [denoted_of_read h, denoted_of_read h', List.length_append, List.length_append]
    omega

theorem Escapes.length_le (h : Escapes meaning s s') :
    (denoted meaning s).length ≤ (denoted meaning s').length := by
  by_cases plain : Plain s
  · have same : denoted meaning s' = denoted meaning s := by rw [denoted, denoted, h.same plain]
    exact Nat.le_of_eq (congrArg List.length same.symm)
  · exact Nat.le_of_lt (h.longer plain)

theorem escapes_flatMap (meaning : Char → List Nat) (s : List Char) :
    Escapes meaning s (s.flatMap Literal.escapeUnits) := by
  induction s using read.induct with
  | case1 => exact .of_plain (by simp [Plain, read]) rfl
  | case2 s n rest found _ ih =>
    have here : read ('\\' :: s) = [.unit n] ++ read rest := read_unit found
    exact ih.step here (read_unit_escaped found) (by simp)
  | case3 => exact .of_plain (by simp [Plain, read_end]) rfl
  | case4 d rest other ih =>
    have here : read ('\\' :: d :: rest) = [.escaped d] ++ read rest := read_escaped other
    by_cases ascii : d.toNat < 128
    · exact ih.step here (read_escaped_ascii other ascii) (by simpa using ascii)
    · constructor
      · intro plain
        exact absurd (((plain_iff here).1 plain).1 d List.mem_cons_self) ascii
      · intro _
        obtain ⟨n, more, units, there⟩ := read_escaped_other (s := rest) ascii
        have rest_le := ih.length_le
        have before : denoted meaning ('\\' :: d :: rest) = n :: more ++ denoted meaning rest := by
          simp [denoted_of_read here, Token.denote, ascii, units]
        have after : denoted meaning (('\\' :: d :: rest).flatMap Literal.escapeUnits) = _ :=
          denoted_of_read there
        rw [denote_cons_units] at after
        rw [before, after]
        simp [hex4]
        omega
  | case5 c s other ih =>
    rw [List.flatMap_cons]
    exact ih.step (read_other other) (read_escapeUnits other) (by simp)

/-! ## Main statement -/

/-- **Escaping keeps what a text denotes, unless a character beyond ASCII is escaped already.** A
properties text is written in ASCII. Whatever escaped ASCII characters stand for, it denotes the
same as before if and only if no backslash in it escapes a character beyond ASCII. -/
theorem properties_read (meaning : Char → List Nat) (text : String) :
    (∀ c ∈ (Literal.properties text).toList, c.toNat < 128) ∧
    (denoted meaning (Literal.properties text).toList = denoted meaning text.toList ↔
      Plain text.toList) := by
  have written : (Literal.properties text).toList = text.toList.flatMap Literal.escapeUnits :=
    String.toList_ofList
  rw [written]
  constructor
  · intro c hc
    obtain ⟨d, _, hc⟩ := List.mem_flatMap.1 hc
    exact escapeUnits_isAscii d c hc
  · have escapes := escapes_flatMap meaning text.toList
    constructor
    · intro same
      by_contra escaping
      have longer := escapes.longer escaping
      rw [same] at longer
      exact Nat.lt_irrefl _ longer
    · intro plain
      rw [denoted, denoted, escapes.same plain]

/-- A backslash and an umlaut. -/
def escapedUmlaut : Resource := { name := "i18n.properties", content := [0x5C, 0xE4] }

/-- The backslash comes to escape the one that is written for the umlaut, whose escape is read as
the letters that it consists of. -/
theorem umlaut_misread :
    let text := escapedUmlaut.latin1Text
    Literal.properties text = "\\\\u00E4" ∧ denoted Literal.units text.toList = ['ä'.toNat] ∧
      denoted Literal.units "\\u00E4".toList = ['ä'.toNat] ∧
      denoted Literal.units (Literal.properties text).toList = "\\u00E4".toList.map Char.toNat ∧
      denoted Literal.units (Literal.properties text).toList ≠
        denoted Literal.units text.toList := by
  intro text
  have written : Literal.properties text = "\\\\u00E4" := by decide +kernel
  have before : denoted Literal.units text.toList = ['ä'.toNat] := by decide +kernel
  have right : denoted Literal.units "\\u00E4".toList = ['ä'.toNat] := by decide +kernel
  have after : denoted Literal.units (Literal.properties text).toList =
      "\\u00E4".toList.map Char.toNat := by
    rw [written]
    decide +kernel
  refine ⟨written, before, right, after, ?_⟩
  rw [before, after]
  decide

end Bundler.Properties
