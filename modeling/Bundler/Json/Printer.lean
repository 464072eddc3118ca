import Bundler.Json.Basic
import Bundler.Decimal
import Bundler.Text.Basic

/-!
# Compact JSON text

Strings escape only quotes, backslashes and control characters. A binary64 value is written with its
shortest digits: positionally for decimal exponents from -5 to 15, else with an exponent and its
sign, and always with a point or an exponent.
-/

namespace Bundler

def hexDigit (upper : Bool) (n : Nat) : Char :=
  if n < 10 then Char.ofNat (48 + n) else Char.ofNat ((if upper then 55 else 87) + n)

/-- Four hexadecimal digits of a number below `2 ^ 16`. -/
def hex4 (upper : Bool) (n : Nat) : List Char :=
  [n / 4096, n / 256 % 16, n / 16 % 16, n % 16].map (hexDigit upper)

namespace Json

def escapeChar (c : Char) : List Char :=
  if c = '\x22' then ['\\', '\x22']
  else if c = '\\' then ['\\', '\\']
  else if c.toNat = 8 then ['\\', 'b']
  else if c.toNat = 9 then ['\\', 't']
  else if c.toNat = 10 then ['\\', 'n']
  else if c.toNat = 12 then ['\\', 'f']
  else if c.toNat = 13 then ['\\', 'r']
  else if c.toNat < 32 then '\\' :: 'u' :: hex4 false c.toNat
  else [c]

/-- The text as a JSON string literal. -/
def quote (s : String) : String :=
  String.ofList ('\x22' :: s.toList.flatMap escapeChar ++ ['\x22'])

end Json

namespace Binary64

/-- The numeral `0.d₁d₂… * 10 ^ point` written positionally. -/
def positional (digits : List Char) (point : Int) : List Char :=
  if point ≤ 0 then '0' :: '.' :: List.replicate (-point).toNat '0' ++ digits
  else
    let k := point.toNat
    if digits.length ≤ k then digits ++ List.replicate (k - digits.length) '0' ++ ['.', '0']
    else digits.take k ++ '.' :: digits.drop k

def scientific (digits : List Char) (exponent : Int) : List Char :=
  let mantissa := match digits with
    | d :: r@(_ :: _) => d :: '.' :: r
    | ds => ds
  let magnitude := Nat.toDigits 10 exponent.natAbs
  mantissa ++ 'e' :: (if exponent < 0 then '-' else '+') :: magnitude

def textOfMagnitude (bits : Nat) : List Char :=
  if bits = 0 then ['0', '.', '0']
  else
    let (c, p) := shortest bits
    let all := Nat.toDigits 10 c
    let point := p + all.length
    let digits := (all.reverse.dropWhile (· == '0')).reverse
    if -5 ≤ point - 1 ∧ point - 1 ≤ 15 then positional digits point
    else scientific digits (point - 1)

def text (bits : UInt64) : String :=
  let n := bits.toNat
  if n < signBit then String.ofList (textOfMagnitude n)
  else String.ofList ('-' :: textOfMagnitude (n - signBit))

end Binary64

namespace Number

def text : Number → String
  | .int n => toString n
  | .float bits => Binary64.text bits

end Number

namespace Json

mutual

def text : Json → String
  | .null => "null"
  | .bool b => if b then "true" else "false"
  | .number n => n.text
  | .string s => quote s
  | .array items => "[" ++ itemsText items ++ "]"
  | .object members => "\x7b" ++ membersText members ++ "\x7d"

def itemsText : List Json → String
  | [] => ""
  | [j] => j.text
  | j :: rest => j.text ++ "," ++ itemsText rest

def membersText : List (String × Json) → String
  | [] => ""
  | [(k, j)] => quote k ++ ":" ++ j.text
  | (k, j) :: rest => quote k ++ ":" ++ j.text ++ "," ++ membersText rest

end

end Json

end Bundler
