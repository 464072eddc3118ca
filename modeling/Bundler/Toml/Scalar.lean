import Bundler.Json.Document
import Bundler.Toml.Datetime

/-!
# Scalars of configuration texts

Booleans, integers, floats, dates and times, all of which are written without quotes. Underscores
may stand between digits. What is not a number becomes null, and a date becomes an object with one
member.
-/

namespace Bundler.Toml

/-- The only key of the object that stands for a date or time. -/
def datetimeKey : String := "$__toml_private_datetime"

namespace Scalar

/-- The digits of a numeral without the underscores, each of which stands between two digits. -/
def digits? (isDigit : Char → Bool) : List Char → Option (List Char)
  | [] => none
  | [c] => if isDigit c then some [c] else none
  | c :: '_' :: rest => if isDigit c then (digits? isDigit rest).map (c :: ·) else none
  | c :: rest => if isDigit c then (digits? isDigit rest).map (c :: ·) else none

def natOf (base : Nat) (digits : List Char) : Nat :=
  digits.foldl (fun n d => n * base + (Document.hexValue? d).getD 0) 0

/-- Whether digits are a decimal numeral without a needless zero in front. -/
def isPlain : List Char → Bool
  | '0' :: _ :: _ => false
  | _ => true

def sign : List Char → Bool × List Char
  | '-' :: rest => (true, rest)
  | '+' :: rest => (false, rest)
  | s => (false, s)

/-- Integers of 64 bits, with or without sign, are exact. Up to 128 bits they are well-formed but
denote nothing. -/
def ofInt (n : Int) : Option Document :=
  if -signLimit64 ≤ n ∧ n < limit64 then some (.number (some (.int n)))
  else if -signLimit128 ≤ n ∧ n < limit128 then some (.number none)
  else none

def isBinary (c : Char) : Bool := c = '0' || c = '1'

def isOctal (c : Char) : Bool := '0' ≤ c && c ≤ '7'

def isHex (c : Char) : Bool := (Document.hexValue? c).isSome

def integer? : List Char → Option Document
  | '0' :: 'x' :: rest => do ofInt (natOf 16 (← digits? isHex rest))
  | '0' :: 'o' :: rest => do ofInt (natOf 8 (← digits? isOctal rest))
  | '0' :: 'b' :: rest => do ofInt (natOf 2 (← digits? isBinary rest))
  | s => do
    let (negative, s) := sign s
    let digits ← digits? Char.isDigit s
    if isPlain digits then
      let n : Int := natOf 10 digits
      ofInt (if negative then -n else n)
    else none

def isNumeral (c : Char) : Bool := c.isDigit || c = '_'

def fraction? : List Char → Option (List Char × List Char)
  | '.' :: rest =>
    (digits? Char.isDigit (rest.takeWhile isNumeral)).map (·, rest.dropWhile isNumeral)
  | s => some ([], s)

def exponent? : List Char → Option Int
  | [] => some 0
  | c :: rest => do
    if c ≠ 'e' ∧ c ≠ 'E' then none
    let (negative, s) := sign rest
    let n : Int := natOf 10 (← digits? Char.isDigit s)
    return if negative then -n else n

/-- A numeral with a fraction or an exponent. -/
def decimal? (negative : Bool) (s : List Char) : Option Document := do
  let whole ← digits? Char.isDigit (s.takeWhile isNumeral)
  if !isPlain whole then none
  let (decimals, s) ← fraction? (s.dropWhile isNumeral)
  let exponent ← exponent? s
  let bits ← Binary64.ofDecimal (natOf 10 (whole ++ decimals)) (exponent - decimals.length)
  return .number (some (Document.signed negative bits))

def float? (s : List Char) : Option Document :=
  match sign s with
  | (_, ['i', 'n', 'f']) | (_, ['n', 'a', 'n']) => some .null
  | (negative, s) => decimal? negative s

def datetime? (s : List Char) : Option Document :=
  (Datetime.ofChars? s).map fun d => .object [(some datetimeKey, .string d.text)]

def bool? (s : List Char) : Option Document :=
  if s = "true".toList then some (.bool true)
  else if s = "false".toList then some (.bool false)
  else none

def ofChars? (s : List Char) : Option Document :=
  bool? s <|> integer? s <|> datetime? s <|> float? s

end Scalar

end Bundler.Toml
