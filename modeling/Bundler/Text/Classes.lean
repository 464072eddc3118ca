import Bundler.Text.Ranges

/-!
# Classes of characters

Blanks, word characters and the characters of identifiers, over all of Unicode.
-/

namespace Bundler.Text

def isAscii (c : Char) : Bool := c.toNat < 128

/-- Characters with the property `White_Space`. -/
def isBlank (c : Char) : Bool := Ranges.holds Ranges.blanks c

def isIdentifierStart (c : Char) : Bool :=
  if isAscii c then c.isAlpha || c = '$' || c = '_' else Ranges.holds Ranges.letters c

def isIdentifierPart (c : Char) : Bool :=
  if isAscii c then c.isAlphanum || c = '$' || c = '_'
  else Ranges.holds Ranges.letters c || Ranges.holds Ranges.marks c

/-- Alphabetic characters, marks, decimal digits, connectors and join controls. -/
def isWord (c : Char) : Bool :=
  if isAscii c then c.isAlphanum || c = '_'
  else Ranges.holds Ranges.enclosing c ||
    ((Ranges.holds Ranges.letters c || Ranges.holds Ranges.marks c) &&
      !Ranges.holds Ranges.compatibility c)

def trim (s : List Char) : List Char :=
  ((s.dropWhile isBlank).reverse.dropWhile isBlank).reverse

end Bundler.Text
