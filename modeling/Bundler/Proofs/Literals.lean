import Bundler.Json.Document
import Bundler.Literal
import Bundler.Script.Token
import Mathlib.Data.List.Induction

/-!
# Reading string literals back

`Literal.script` writes any text as a string literal. Whatever follows it, the literal is one token
of the script, from its first quote to its last, and denotes the text that was written
(`script_denotes`). What a literal denotes is said for all escapes of the grammar, also for those
that `Literal.script` never writes: `Literal.decode?`.
-/

namespace Bundler.Literal

/-- The UTF-16 units of a code point. -/
def pointUnits (n : Nat) : List Nat :=
  if n < 0x10000 then [n] else [0xD800 + (n - 0x10000) / 0x400, 0xDC00 + (n - 0x10000) % 0x400]

/-- What a single character behind a backslash denotes. -/
def meaning : Char → Char
  | 'b' => '\x08'
  | 't' => '\t'
  | 'n' => '\n'
  | 'v' => '\x0b'
  | 'f' => '\x0c'
  | 'r' => '\r'
  | c => c

/-- The units that an escape denotes and its length after the backslash. A line end behind a backslash
denotes nothing. Numbers are no escapes in strict scripts, but for a zero alone. -/
def escape? : List Char → Option (List Nat × Nat)
  | [] => none
  | 'x' :: a :: b :: _ =>
    if Script.isHex a && Script.isHex b then some ([Script.hexNumber [a, b]], 3) else none
  | 'x' :: _ => none
  | 'u' :: s => (Script.unicodeEscape? s).map fun e => (pointUnits e.1, e.2 + 1)
  | '\r' :: '\n' :: _ => some ([], 2)
  | '0' :: s => if s.head?.any Char.isDigit then none else some ([0], 1)
  | c :: _ =>
    if Script.isLineEnd c then some ([], 1)
    else if c.isDigit then none
    else some (units (meaning c), 1)

/-- The units that the body of a single-quoted literal denotes, after the `skip` characters of an
escape that was read. -/
def decodeFrom : Nat → List Char → Option (List Nat)
  | _, [] => some []
  | skip + 1, _ :: s => decodeFrom skip s
  | 0, c :: s =>
    if c = '\\' then
      match escape? s with
      | some (denoted, length) => (decodeFrom length s).map (denoted ++ ·)
      | none => none
    else if c = '\x27' ∨ c = '\n' ∨ c = '\r' then none
    else (decodeFrom 0 s).map (units c ++ ·)

/-- The text that the body of a literal denotes, if its units pair up to characters. -/
def decode? (body : List Char) : Option (List Char) :=
  (decodeFrom 0 body).bind fun denoted => Document.joinPieces (denoted.map .unit)

/-- The number of backslashes that a text ends with. -/
def backslashes (s : List Char) : Nat := (s.reverse.takeWhile (· = '\\')).length

/-- How a literal between single quotes holds a text. -/
structure Denotes (body : List Char) (literal text : String) : Prop where
  quoted : literal.toList = '\x27' :: body ++ ['\x27']
  /-- An odd number of backslashes stands before every quote, so the last of them escapes it. -/
  escaped : ∀ quote ∈ ['\x27', '\x22'], ∀ before after, body = before ++ quote :: after →
    backslashes before % 2 = 1
  oneLine : ∀ c ∈ body, Script.isLineEnd c = false
  token : ∀ start rest, Script.readLexeme ⟨start, literal.toList ++ rest⟩ =
    some (.string (String.ofList body), ⟨start + literal.length, rest⟩)
  text : decode? body = some text.toList

variable {c d : Char} {n : Nat} {s t rest : List Char}

/-! ## How a character is written -/

/-- Characters behind a backslash with those they denote. -/
def marks : List (Char × Char) :=
  [('\x27', '\x27'), ('\x22', '\x22'), ('\\', '\\'), ('t', '\t'), ('n', '\n'), ('r', '\r'),
    ('f', '\x0c')]

inductive Written (c : Char) : List Char → Prop
  | mark (d : Char) (known : (d, c) ∈ marks) : Written c ['\\', d]
  | unit (small : c.toNat < 0x10000) : Written c ('\\' :: 'u' :: hex4 false c.toNat)
  | plain (single : c ≠ '\x27') (double : c ≠ '\x22') (backslash : c ≠ '\\')
      (oneLine : Script.isLineEnd c = false) : Written c [c]

theorem escapeChar_written (c : Char) : Written c (escapeChar c) := by
  unfold escapeChar
  iterate 6
    split
    · next h => exact .mark _ (by simp [marks, h])
  split
  · next h =>
    have feed : c = '\x0c' := Char.toNat_inj.1 h
    exact .mark _ (by simp [marks, feed])
  split
  · exact .unit (by omega)
  · next single double backslash _ newline carriage _ separator =>
    refine .plain single double backslash ?_
    simp only [Script.isLineEnd]
    simpa [newline, carriage] using separator

/-- No mark is read as more than the character it stands for. -/
theorem mark_escapes (h : (d, c) ∈ marks) : ∀ s, Script.stringEscape? (d :: s) = some 1 ∧
    escape? (d :: s) = some (units c, 1) := by
  have all : ∀ m ∈ marks, ∀ s, Script.stringEscape? (m.1 :: s) = some 1 ∧
      escape? (m.1 :: s) = some (units m.2, 1) := by
    simp only [marks, List.forall_mem_cons]
    exact ⟨fun _ => ⟨rfl, rfl⟩, fun _ => ⟨rfl, rfl⟩, fun _ => ⟨rfl, rfl⟩, fun _ => ⟨rfl, rfl⟩,
      fun _ => ⟨rfl, rfl⟩, fun _ => ⟨rfl, rfl⟩, fun _ => ⟨rfl, rfl⟩, by simp⟩
  exact all _ h

/-! ## Escaped units -/

theorem hexValue_lower {d : Nat} (h : d < 16) :
    Script.hexValue? (hexDigit false d) = some d := by
  have all : ∀ d < 16, Script.hexValue? (hexDigit false d) = some d := by decide
  exact all d h

theorem unicodeEscape_hex4 (h : n < 0x10000) :
    Script.unicodeEscape? (hex4 false n ++ rest) = some (n, 4) := by
  have first : n / 4096 < 16 := by omega
  have second : n / 256 % 16 < 16 := by omega
  have third : n / 16 % 16 < 16 := by omega
  have fourth : n % 16 < 16 := by omega
  have brace : ∀ d < 16, hexDigit false d ≠ '\x7b' := by decide
  simp only [hex4, List.map_cons, List.map_nil, List.cons_append, List.nil_append]
  unfold Script.unicodeEscape?
  split
  · next opened => exact absurd (List.cons.inj opened).1 (brace _ first)
  · simp [Script.hexNumber, Script.isHex, hexValue_lower, first, second, third, fourth]
    omega

/-- The digits are neither quotes nor backslashes nor ends of lines. -/
theorem hex4_lower (h : n < 0x10000) : ∀ d ∈ hex4 false n,
    d ≠ '\x27' ∧ d ≠ '\x22' ∧ d ≠ '\\' ∧ Script.isLineEnd d = false := by
  have all : ∀ d < 16, hexDigit false d ≠ '\x27' ∧ hexDigit false d ≠ '\x22' ∧
      hexDigit false d ≠ '\\' ∧ Script.isLineEnd (hexDigit false d) = false := by decide
  intro d hd
  simp only [hex4, List.map_cons, List.map_nil, List.mem_cons, List.not_mem_nil, or_false] at hd
  rcases hd with rfl | rfl | rfl | rfl <;> exact all _ (by omega)

/-! ## What is written for one character -/

theorem Written.oneLine (h : Written c t) : ∀ d ∈ t, Script.isLineEnd d = false := by
  cases h with
  | mark d known =>
    have all : ∀ m ∈ marks, Script.isLineEnd m.1 = false := by decide
    simpa [Script.isLineEnd] using all _ known
  | unit small =>
    have digits := fun d hd => (hex4_lower small d hd).2.2.2
    simpa [Script.isLineEnd] using digits
  | plain _ _ _ oneLine => simpa using oneLine

/-- A quote is written behind one backslash. -/
theorem Written.quote {quote : Char} {front back : List Char}
    (h : Written c (front ++ quote :: back)) (isQuote : quote ∈ ['\x27', '\x22']) :
    front = ['\\'] := by
  generalize written : front ++ quote :: back = t at h
  have mem : quote ∈ t := by simp [← written]
  simp only [List.mem_cons, List.not_mem_nil, or_false] at isQuote
  cases h with
  | mark d known =>
    have other : quote ≠ '\\' := by rintro rfl; simp at isQuote
    rcases front with _ | ⟨first, _ | ⟨second, more⟩⟩
    · exact absurd (List.cons.inj written).1 other
    · rw [(List.cons.inj written).1]
    · simpa using congrArg List.length written
  | unit small =>
    have digit := hex4_lower small quote
    rcases isQuote with rfl | rfl <;> simp at mem digit <;> exact absurd mem digit
  | plain single double _ _ =>
    rcases isQuote with rfl | rfl <;> simp at mem
    · exact absurd mem.symm single
    · exact absurd mem.symm double

/-! ## Backslashes -/

theorem backslashes_concat (h : c ≠ '\\') : backslashes (s ++ [c]) = 0 := by
  simp [backslashes, h]

theorem backslashes_backslash : backslashes (s ++ ['\\']) = backslashes s + 1 := by
  simp [backslashes]

/-- Only for a backslash does the text end with more of them, and then with two. -/
theorem Written.backslashes (h : Written c t) (even : backslashes s % 2 = 0) :
    backslashes (s ++ t) % 2 = 0 := by
  cases h with
  | mark d known =>
    have last : s ++ ['\\', d] = s ++ ['\\'] ++ [d] := by simp
    rw [last]
    by_cases backslash : d = '\\'
    · rw [backslash, backslashes_backslash, backslashes_backslash]
      omega
    · rw [backslashes_concat backslash]
  | unit small =>
    have digit := (hex4_lower small (hexDigit false (c.toNat % 16)) (by simp [hex4])).2.2.1
    have last : s ++ '\\' :: 'u' :: hex4 false c.toNat =
        (s ++ '\\' :: 'u' :: (hex4 false c.toNat).take 3) ++ [hexDigit false (c.toNat % 16)] := by
      simp [hex4]
    rw [last, backslashes_concat digit]
  | plain _ _ backslash _ => rw [backslashes_concat backslash]

theorem backslashes_flatMap (s : List Char) : backslashes (s.flatMap escapeChar) % 2 = 0 := by
  induction s using List.reverseRecOn with
  | nil => rfl
  | append_singleton s c ih =>
    rw [List.flatMap_append, List.flatMap_singleton]
    exact (escapeChar_written c).backslashes ih

/-- A place in a flattened list lies in what one element was replaced by. -/
theorem exists_of_flatMap_eq {f : Char → List Char} {before after : List Char}
    (h : s.flatMap f = before ++ c :: after) :
    ∃ (done : List Char) (a : Char) (front back : List Char),
      f a = front ++ c :: back ∧ before = done.flatMap f ++ front := by
  induction s generalizing before with
  | nil => simp at h
  | cons a s ih =>
    rw [List.flatMap_cons] at h
    rcases List.append_eq_append_iff.1 h with ⟨later, rfl, rest⟩ | ⟨back, first, rest⟩
    · obtain ⟨done, b, front, back, found, rfl⟩ := ih rest
      exact ⟨a :: done, b, front, back, found, by simp⟩
    · cases back with
      | nil =>
        have here : s.flatMap f = [] ++ c :: after := rest.symm
        obtain ⟨done, b, front, back, found, none⟩ := ih here
        exact ⟨a :: done, b, front, back, found, by simp [← none, first]⟩
      | cons d back =>
        obtain ⟨rfl, -⟩ := List.cons.inj rest
        exact ⟨[], a, before, back, first, rfl⟩

theorem quote_escaped {quote : Char} {before after : List Char}
    (isQuote : quote ∈ ['\x27', '\x22']) (h : s.flatMap escapeChar = before ++ quote :: after) :
    backslashes before % 2 = 1 := by
  obtain ⟨done, a, front, back, found, rfl⟩ := exists_of_flatMap_eq h
  have written := escapeChar_written a
  rw [found] at written
  have even := backslashes_flatMap done
  rw [written.quote isQuote, backslashes_backslash]
  omega

/-! ## Scanning and decoding -/

theorem scanString_skip (quote : Char) (s rest : List Char) (n : Nat) :
    Script.scanString quote s.length n (s ++ rest) =
      Script.scanString quote 0 (n + s.length) rest := by
  induction s generalizing n with
  | nil => rfl
  | cons c s ih =>
    simp only [List.length_cons, List.cons_append, Script.scanString, ih]
    congr 1
    omega

theorem decodeFrom_skip (s rest : List Char) :
    decodeFrom s.length (s ++ rest) = decodeFrom 0 rest := by
  induction s with
  | nil => rfl
  | cons c s ih => exact ih

theorem scanString_escape {quote : Char} (h : Script.stringEscape? (s ++ rest) = some s.length) :
    Script.scanString quote 0 n ('\\' :: s ++ rest) =
      Script.scanString quote 0 (n + (s.length + 1)) rest := by
  simp [Script.scanString, h, scanString_skip]
  congr 1
  omega

theorem decodeFrom_escape {denoted : List Nat} (h : escape? (s ++ rest) = some (denoted, s.length)) :
    decodeFrom 0 ('\\' :: s ++ rest) = (decodeFrom 0 rest).map (denoted ++ ·) := by
  simp [decodeFrom, h, decodeFrom_skip]

theorem Written.scanString (h : Written c t) :
    Script.scanString '\x27' 0 n (t ++ rest) = Script.scanString '\x27' 0 (n + t.length) rest := by
  cases h with
  | mark d known => exact scanString_escape (s := [d]) (mark_escapes known rest).1
  | unit small =>
    apply scanString_escape (s := 'u' :: hex4 false c.toNat)
    simp [Script.stringEscape?, unicodeEscape_hex4 small]
    rfl
  | plain single _ backslash oneLine =>
    simp [Script.isLineEnd] at oneLine
    simp [Script.scanString, single, backslash, oneLine]

theorem Written.decodeFrom (h : Written c t) :
    decodeFrom 0 (t ++ rest) = (decodeFrom 0 rest).map (units c ++ ·) := by
  cases h with
  | mark d known => exact decodeFrom_escape (s := [d]) (mark_escapes known rest).2
  | unit small =>
    have denoted : pointUnits c.toNat = units c := rfl
    apply decodeFrom_escape (s := 'u' :: hex4 false c.toNat)
    rw [List.cons_append, escape?, unicodeEscape_hex4 small, Option.map_some, denoted]
    rfl
  | plain single _ backslash oneLine =>
    simp [Script.isLineEnd] at oneLine
    simp [Literal.decodeFrom, single, backslash, oneLine]

/-- The units of a character pair up to it. -/
theorem joinPieces_units (c : Char) (rest : List Document.Piece) :
    Document.joinPieces ((units c).map .unit ++ rest) =
      (Document.joinPieces rest).map (c :: ·) := by
  have valid := c.valid
  simp only [UInt32.isValidChar, Nat.isValidChar] at valid
  have same : Char.ofNat c.toNat = c := Char.ofNat_toNat c
  simp only [Char.toNat] at same
  unfold units
  simp only [Char.toNat]
  split
  · rw [List.map_singleton, List.singleton_append, Document.joinPieces.eq_def]
    simp only
    rw [if_pos (by omega), same]
  · have value : 0x10000 + (0xD800 + (c.val.toNat - 0x10000) / 0x400 - 0xD800) * 0x400 +
        (0xDC00 + (c.val.toNat - 0x10000) % 0x400 - 0xDC00) = c.val.toNat := by omega
    simp only [List.map_cons, List.map_nil, List.cons_append, List.nil_append, Document.joinPieces]
    rw [if_neg (by omega), if_neg (by omega), if_pos (by omega), value, same]

/-! ## Whole literals -/

theorem scanString_flatMap (s rest : List Char) (n : Nat) :
    Script.scanString '\x27' 0 n (s.flatMap escapeChar ++ rest) =
      Script.scanString '\x27' 0 (n + (s.flatMap escapeChar).length) rest := by
  induction s generalizing n with
  | nil => rfl
  | cons c s ih =>
    rw [List.flatMap_cons, List.append_assoc, (escapeChar_written c).scanString, ih,
      List.length_append, Nat.add_assoc]

theorem decodeFrom_flatMap (s : List Char) :
    decodeFrom 0 (s.flatMap escapeChar) = some (s.flatMap units) := by
  induction s with
  | nil => rfl
  | cons c s ih =>
    rw [List.flatMap_cons, (escapeChar_written c).decodeFrom, ih]
    rfl

theorem joinPieces_flatMap (s : List Char) :
    Document.joinPieces ((s.flatMap units).map .unit) = some s := by
  induction s with
  | nil => rfl
  | cons c s ih =>
    rw [List.flatMap_cons, List.map_append, joinPieces_units, ih]
    rfl

theorem decode_flatMap (s : List Char) : decode? (s.flatMap escapeChar) = some s := by
  rw [decode?, decodeFrom_flatMap]
  exact joinPieces_flatMap s

theorem readLexeme_quote (start : Nat) (s : List Char) :
    Script.readLexeme ⟨start, '\x27' :: s⟩ = (Script.scanString '\x27' 0 (start + 1) s).map
      fun after => (.string (String.ofList (s.take (after.offset - start - 2))), after) := rfl

/-- The token ends with the second quote of the literal, whatever follows. -/
theorem readLexeme_quoted (start : Nat) (s rest : List Char) :
    Script.readLexeme ⟨start, '\x27' :: s.flatMap escapeChar ++ ['\x27'] ++ rest⟩ =
      some (.string (String.ofList (s.flatMap escapeChar)),
        ⟨start + ((s.flatMap escapeChar).length + 2), rest⟩) := by
  have scanned : Script.scanString '\x27' 0 (start + 1)
      (s.flatMap escapeChar ++ (['\x27'] ++ rest)) =
        some ⟨start + ((s.flatMap escapeChar).length + 2), rest⟩ := by
    have stop : start + ((s.flatMap escapeChar).length + 2) =
        start + 1 + (s.flatMap escapeChar).length + 1 := by omega
    rw [scanString_flatMap, stop]
    rfl
  have length : start + ((s.flatMap escapeChar).length + 2) - start - 2 =
      (s.flatMap escapeChar).length := by omega
  rw [List.cons_append, List.cons_append, List.append_assoc, readLexeme_quote, scanned,
    Option.map_some]
  dsimp only
  rw [length, List.take_left]

/-! ## Main statement -/

/-- **String literals read back as the text they were written for.** So no two texts have the same
literal. -/
theorem script_denotes :
    (∀ text, ∃ body, Denotes body (script text) text) ∧ Function.Injective script := by
  have each (text : String) : Denotes (text.toList.flatMap escapeChar) (script text) text := by
    have quoted : (script text).toList =
        '\x27' :: text.toList.flatMap escapeChar ++ ['\x27'] := String.toList_ofList
    constructor
    case quoted => exact quoted
    case escaped => exact fun quote isQuote before after h => quote_escaped isQuote h
    case oneLine =>
      intro d hd
      obtain ⟨c, _, hd⟩ := List.mem_flatMap.1 hd
      exact (escapeChar_written c).oneLine d hd
    case token =>
      intro start rest
      have length : (script text).length = (text.toList.flatMap escapeChar).length + 2 := by
        rw [← String.length_toList, quoted]
        simp
      rw [quoted, length]
      exact readLexeme_quoted start text.toList rest
    case text => exact decode_flatMap text.toList
  refine ⟨fun text => ⟨_, each text⟩, fun a b same => ?_⟩
  have bodies : a.toList.flatMap escapeChar = b.toList.flatMap escapeChar := by
    have quoted := (each a).quoted
    rw [same, (each b).quoted] at quoted
    exact (List.append_cancel_right (List.cons.inj quoted).2).symm
  have texts : some a.toList = some b.toList := by
    rw [← (each a).text, bodies, (each b).text]
  exact String.toList_inj.1 (Option.some.inj texts)

end Bundler.Literal
