import Bundler.Json.Printer

/-!
# Texts as literals

`Literal.script` writes a text as a string literal of a script, `Literal.properties` makes a
properties text independent of its encoding.
-/

namespace Bundler.Literal

def escapeChar (c : Char) : List Char :=
  if c = '\x27' then ['\\', '\x27']
  else if c = '\x22' then ['\\', '\x22']
  else if c = '\\' then ['\\', '\\']
  else if c = '\t' then ['\\', 't']
  else if c = '\n' then ['\\', 'n']
  else if c = '\r' then ['\\', 'r']
  else if c.toNat = 12 then ['\\', 'f']
  else if c.toNat = 0x2028 ∨ c.toNat = 0x2029 then '\\' :: 'u' :: hex4 false c.toNat
  else [c]

/-- A single-quoted string literal. -/
def script (text : String) : String :=
  String.ofList ('\x27' :: text.toList.flatMap escapeChar ++ ['\x27'])

/-- The UTF-16 units of a character. -/
def units (c : Char) : List Nat :=
  let n := c.toNat
  if n < 0x10000 then [n]
  else [0xD800 + (n - 0x10000) / 0x400, 0xDC00 + (n - 0x10000) % 0x400]

def escapeUnits (c : Char) : List Char :=
  if c.toNat < 128 then [c]
  else (units c).flatMap fun n => '\\' :: 'u' :: hex4 true n

/-- Every character beyond ASCII is written as an escape of each of its UTF-16 units. -/
def properties (text : String) : String := String.ofList (text.toList.flatMap escapeUnits)

end Bundler.Literal
