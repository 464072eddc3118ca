/-!
# Bytes and characters

`Utf8.decode` reads any bytes as text: each maximal run of bytes that begins a character and cannot
be completed becomes one replacement character. `Utf8.decode?` takes nothing but text. `Latin1.decode` reads each byte as the character of
the same number.
-/

namespace Bundler

namespace Utf8

def replacement : Char := '\uFFFD'

/-- A character whose first bytes were read: its bits so far, how many bytes are missing and the
range of the next one. -/
structure Begun where
  bits : Nat
  missing : Nat
  low : Nat
  high : Nat

/-- The bytes after a first byte lie in `80..BF`, with a narrower range for the second byte where
that keeps out overlong forms, surrogates and numbers above `10FFFF`. -/
def first (b : Nat) : List Char × Option Begun :=
  if b < 0x80 then ([Char.ofNat b], none)
  else if 0xC2 ≤ b ∧ b ≤ 0xDF then ([], some ⟨b - 0xC0, 1, 0x80, 0xBF⟩)
  else if b = 0xE0 then ([], some ⟨0, 2, 0xA0, 0xBF⟩)
  else if b = 0xED then ([], some ⟨0xD, 2, 0x80, 0x9F⟩)
  else if 0xE1 ≤ b ∧ b ≤ 0xEF then ([], some ⟨b - 0xE0, 2, 0x80, 0xBF⟩)
  else if b = 0xF0 then ([], some ⟨0, 3, 0x90, 0xBF⟩)
  else if 0xF1 ≤ b ∧ b ≤ 0xF3 then ([], some ⟨b - 0xF0, 3, 0x80, 0xBF⟩)
  else if b = 0xF4 then ([], some ⟨4, 3, 0x80, 0x8F⟩)
  else ([replacement], none)

def feed : Option Begun → Nat → List Char × Option Begun
  | none, b => first b
  | some s, b =>
    if s.low ≤ b ∧ b ≤ s.high then
      let bits := s.bits * 64 + (b - 0x80)
      if s.missing ≤ 1 then ([Char.ofNat bits], none)
      else ([], some ⟨bits, s.missing - 1, 0x80, 0xBF⟩)
    else
      let (cs, next) := first b
      (replacement :: cs, next)

def decodeFrom : Option Begun → List UInt8 → List Char
  | none, [] => []
  | some _, [] => [replacement]
  | s, b :: rest =>
    let (cs, next) := feed s b.toNat
    cs ++ decodeFrom next rest

def decode (bytes : List UInt8) : String := String.ofList (decodeFrom none bytes)

def encode (text : String) : List UInt8 := text.toUTF8.data.toList

/-- Bytes that are no text are not what their replacement is written as. -/
def decode? (bytes : List UInt8) : Option String :=
  let text := decode bytes
  if encode text = bytes then some text else none

end Utf8

namespace Latin1

def decode (bytes : List UInt8) : String := String.ofList (bytes.map fun b => Char.ofNat b.toNat)

end Latin1

end Bundler
