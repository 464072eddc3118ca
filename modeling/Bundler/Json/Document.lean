import Bundler.Json.Basic
import Bundler.Decimal
import Bundler.Text.Basic
import Bundler.Width

/-!
# JSON documents

A `Document` is the tree a text spells, before it is asked what it denotes: members keep every
occurrence of a key, and a well-formed literal that denotes nothing (a number beyond the binary64
range, a string with a lone surrogate) is kept as `none`. Such literals and deep nesting only matter
where a value is read, so a reader that skips a member does not see them.
-/

namespace Bundler

inductive Document where
  | null
  | bool (b : Bool)
  | number (n : Option Number)
  | string (s : Option String)
  | array (items : List Document)
  | object (members : List (Option String × Document))
  deriving Inhabited

namespace Document

/-- Arrays and objects may be nested this deep, counted from the root of the text. -/
def maxDepth : Nat := 127

/-- Later members replace the value of an earlier one with the same key, at its place. -/
def insertMember {α : Type} (key : String) (value : α) : List (String × α) → List (String × α)
  | [] => [(key, value)]
  | (k, v) :: rest => if k = key then (k, value) :: rest else (k, v) :: insertMember key value rest

mutual

/-- The value of a document that may still nest `depth` levels. -/
def value? (depth : Nat) : Document → Option Json
  | .null => some .null
  | .bool b => some (.bool b)
  | .number n => n.map .number
  | .string s => s.map .string
  | .array items => if depth = 0 then none else (values? (depth - 1) items).map .array
  | .object members => if depth = 0 then none else (members? (depth - 1) members []).map .object

def values? (depth : Nat) : List Document → Option (List Json)
  | [] => some []
  | d :: rest => do
    let v ← value? depth d
    let vs ← values? depth rest
    return v :: vs

def members? (depth : Nat) :
    List (Option String × Document) → List (String × Json) → Option (List (String × Json))
  | [], seen => some seen
  | (key, d) :: rest, seen => do
    let key ← key
    let v ← value? depth d
    members? depth rest (insertMember key v seen)

end

mutual

def ofJson : Json → Document
  | .null => .null
  | .bool b => .bool b
  | .number n => .number (some n)
  | .string s => .string (some s)
  | .array items => .array (ofItems items)
  | .object members => .object (ofMembers members)

def ofItems : List Json → List Document
  | [] => []
  | j :: rest => ofJson j :: ofItems rest

def ofMembers : List (String × Json) → List (Option String × Document)
  | [] => []
  | (k, j) :: rest => (some k, ofJson j) :: ofMembers rest

end

/-! ## Reading text -/

def isBlank (c : Char) : Bool := c = ' ' || c = '\n' || c = '\r' || c = '\t'

def skipBlanks (s : List Char) : List Char := s.dropWhile isBlank

def hexValue? (c : Char) : Option Nat :=
  if '0' ≤ c ∧ c ≤ '9' then some (c.toNat - 48)
  else if 'a' ≤ c ∧ c ≤ 'f' then some (c.toNat - 87)
  else if 'A' ≤ c ∧ c ≤ 'F' then some (c.toNat - 55)
  else none

def hex4? (a b c d : Char) : Option Nat := do
  return (((← hexValue? a) * 16 + (← hexValue? b)) * 16 + (← hexValue? c)) * 16 + (← hexValue? d)

/-- A piece of a string literal: a character or a UTF-16 unit written as an escape. -/
inductive Piece where
  | char (c : Char)
  | unit (n : Nat)

/-- The text of the pieces, where units pair up to characters; `none` for a unit without its
partner. -/
def joinPieces : List Piece → Option (List Char)
  | [] => some []
  | .char c :: rest => (joinPieces rest).map (c :: ·)
  | .unit n :: rest =>
    if n < 0xD800 ∨ 0xDFFF < n then (joinPieces rest).map (Char.ofNat n :: ·)
    else if 0xDBFF < n then none
    else match rest with
      | .unit m :: rest =>
        if 0xDC00 ≤ m ∧ m ≤ 0xDFFF then
          (joinPieces rest).map (Char.ofNat (0x10000 + (n - 0xD800) * 0x400 + (m - 0xDC00)) :: ·)
        else none
      | _ => none

def simpleEscape? : Char → Option Char
  | '\x22' => some '\x22'
  | '\\' => some '\\'
  | '/' => some '/'
  | 'b' => some '\x08'
  | 'f' => some '\x0c'
  | 'n' => some '\n'
  | 'r' => some '\r'
  | 't' => some '\t'
  | _ => none

/-- The rest of a string literal after its opening quote; `seen` is what was read, backwards. -/
def readPieces (seen : List Piece) : List Char → Option (List Piece × List Char)
  | '\x22' :: rest => some (seen.reverse, rest)
  | '\\' :: 'u' :: a :: b :: c :: d :: rest => do
    let n ← hex4? a b c d
    readPieces (.unit n :: seen) rest
  | '\\' :: c :: rest => do
    let c ← simpleEscape? c
    readPieces (.char c :: seen) rest
  | c :: rest => if c.toNat < 32 ∨ c = '\\' then none else readPieces (.char c :: seen) rest
  | [] => none

def readString (s : List Char) : Option (Option String × List Char) := do
  let (pieces, rest) ← readPieces [] s
  return ((joinPieces pieces).map String.ofList, rest)

def natOfDigits (ds : List Char) : Nat := ds.foldl (fun n d => n * 10 + (d.toNat - 48)) 0

def signed (negative : Bool) (bits : Nat) : Number :=
  .float (UInt64.ofNat (if negative then bits + Binary64.signBit else bits))

/-- The number of an integer literal below `limit64`: exact within 64 bits with the sign, else the
nearest binary64 value. -/
def integerNumber (negative : Bool) (n : Nat) : Option Number :=
  if !negative then some (.int n)
  else if n = 0 ∨ signLimit64 < n then (Binary64.ofDecimal n 0).map (signed true)
  else some (.int (-n))

/-- The number that the digits spell behind `n`, as long as it stays below `limit64`, and the digits
that are left over then. -/
def takeDigits (n : Nat) : List Char → Nat × List Char
  | [] => (n, [])
  | d :: rest =>
    let next := n * 10 + (d.toNat - 48)
    if next < limit64 then takeDigits next rest else (n, d :: rest)

/-- The largest exponent of a power of ten that is a finite value. -/
def maxPower : Nat := 308

def powerOfTen (n : Nat) : Option Nat := Binary64.ofDecimal 1 n

/-- A value divided by a power of ten, `maxPower` places at a time. -/
def scaleDown (bits places : Nat) : Option Nat :=
  if places ≤ maxPower then do Binary64.div bits (← powerOfTen places)
  else if bits = 0 then some 0
  else do scaleDown (← Binary64.div bits (← powerOfTen maxPower)) (places - maxPower)
termination_by places
decreasing_by
  have : 0 < maxPower := by decide
  omega

/-- A value multiplied by a power of ten. -/
def scaleUp (bits places : Nat) : Option Nat :=
  if places ≤ maxPower then do Binary64.mul bits (← powerOfTen places)
  else if bits = 0 then some 0
  else none

/-- The value of a numeral, which is rounded at every step: the significand, and then its product
with a power of ten or its quotient by some. -/
def scaled (significand : Nat) (exponent : Int) : Option Nat := do
  let bits ← Binary64.ofDecimal significand 0
  if exponent < 0 then scaleDown bits (-exponent).toNat else scaleUp bits exponent.toNat

/-- This need not be the nearest value to the numeral. -/
example : scaled 9485376417132965 (-13) ≠ Binary64.ofDecimal 9485376417132965 (-13) := by
  decide +kernel

/-- Digits of an exponent with its sign, if one follows. -/
def readExponent (s : List Char) : Option (Option Int × List Char) :=
  match s with
  | 'e' :: rest | 'E' :: rest =>
    let (negative, rest) := match rest with
      | '+' :: r => (false, r)
      | '-' :: r => (true, r)
      | r => (false, r)
    let digits := rest.takeWhile Char.isDigit
    if digits.isEmpty then none
    else
      let n : Int := natOfDigits digits
      some (some (if negative then -n else n), rest.dropWhile Char.isDigit)
  | _ => some (none, s)

def readFraction (s : List Char) : Option (Option (List Char) × List Char) :=
  match s with
  | '.' :: rest =>
    let digits := rest.takeWhile Char.isDigit
    if digits.isEmpty then none else some (some digits, rest.dropWhile Char.isDigit)
  | _ => some (none, s)

def readNumber (s : List Char) : Option (Option Number × List Char) := do
  let (negative, s) := match s with
    | '-' :: r => (true, r)
    | r => (false, r)
  let digits := s.takeWhile Char.isDigit
  let rest := s.dropWhile Char.isDigit
  if digits.isEmpty ∨ (digits.head? = some '0' ∧ 1 < digits.length) then none
  let (fraction, rest) ← readFraction rest
  let (exponent, rest) ← readExponent rest
  let (whole, further) := takeDigits 0 digits
  if fraction.isNone ∧ exponent.isNone ∧ further.isEmpty then
    return (integerNumber negative whole, rest)
  let decimals := fraction.getD []
  let (significand, unread) := takeDigits whole decimals
  let bits := scaled significand
    (exponent.getD 0 + further.length + unread.length - decimals.length)
  return (bits.map (signed negative), rest)

mutual

def read : Nat → List Char → Option (Document × List Char)
  | 0, _ => none
  | fuel + 1, s =>
    match skipBlanks s with
    | 'n' :: 'u' :: 'l' :: 'l' :: rest => some (.null, rest)
    | 't' :: 'r' :: 'u' :: 'e' :: rest => some (.bool true, rest)
    | 'f' :: 'a' :: 'l' :: 's' :: 'e' :: rest => some (.bool false, rest)
    | '\x22' :: rest => (readString rest).map fun (s, rest) => (.string s, rest)
    | '[' :: rest =>
      match skipBlanks rest with
      | ']' :: rest => some (.array [], rest)
      | rest => readItems fuel rest []
    | '\x7b' :: rest =>
      match skipBlanks rest with
      | '\x7d' :: rest => some (.object [], rest)
      | rest => readMembers fuel rest []
    | rest => (readNumber rest).map fun (n, rest) => (.number n, rest)

def readItems : Nat → List Char → List Document → Option (Document × List Char)
  | 0, _, _ => none
  | fuel + 1, s, seen => do
    let (d, rest) ← read fuel s
    match skipBlanks rest with
    | ',' :: rest => readItems fuel rest (d :: seen)
    | ']' :: rest => return (.array (d :: seen).reverse, rest)
    | _ => none

def readMembers :
    Nat → List Char → List (Option String × Document) → Option (Document × List Char)
  | 0, _, _ => none
  | fuel + 1, s, seen =>
    match skipBlanks s with
    | '\x22' :: rest => do
      let (key, rest) ← readString rest
      match skipBlanks rest with
      | ':' :: rest =>
        let (d, rest) ← read fuel rest
        match skipBlanks rest with
        | ',' :: rest => readMembers fuel rest ((key, d) :: seen)
        | '\x7d' :: rest => return (.object ((key, d) :: seen).reverse, rest)
        | _ => none
      | _ => none
    | _ => none

end

/-- The document a text spells, with nothing but blanks around it. Every level of nesting and every
step over an item or a member uses at least one character, so twice the length is fuel enough. -/
def parse (text : String) : Option Document := do
  let s := text.toList
  let (d, rest) ← read (2 * s.length + 2) s
  if (skipBlanks rest).isEmpty then return d else none

end Document

/-- The value of a JSON text. -/
def Json.parse (text : String) : Option Json :=
  Document.parse text >>= Document.value? Document.maxDepth

end Bundler
