import Bundler.Text.Classes
import Bundler.Text.Basic

/-!
# Minifiers

A minifier turns the script of a module into a shorter one or says why it cannot. Comments that
`isCopyright` recognises must survive it.
-/

namespace Bundler

/-- The shorter script of a module, or the reason why there is none. -/
abbrev Minifier := String → String → Except String String

namespace Minifier

/-- Deletes every occurrence of a text, except in the modules it fails on. -/
def deleting (text : String) (fails : List String) : Minifier := fun module code =>
  if module ∈ fails then .error "unexpected token"
  else .ok (String.ofList (Text.deleteAll text.toList code.toList))

/-! ## Comments to keep -/

/-- Whether two characters differ at most in case. Besides the letters of ASCII, the long s and the
kelvin sign are letters in this sense. -/
def sameLetter (c d : Char) : Bool :=
  let fold (c : Char) : Char :=
    if c = '\u017F' then 's' else if c = '\u212A' then 'k' else c.toLower
  fold c == fold d

def afterWord? (word s : List Char) : Option (List Char) :=
  match word, s with
  | [], s => some s
  | _, [] => none
  | w :: word, c :: s => if sameLetter w c then afterWord? word s else none

def beginsWith (word : String) (s : List Char) : Bool := (afterWord? word.toList s).isSome

def isLetterOrDigit (c : Char) : Bool :=
  c.isAlphanum || c = '\u017F' || c = '\u212A'

/-- `(c)` and a number, or blanks and a letter or digit. -/
def beginsWithClaim (s : List Char) : Bool :=
  match afterWord? "(c)".toList s with
  | none => false
  | some rest =>
    (rest.head?.any Char.isDigit) ||
      (rest.head?.any Text.isBlank && (rest.dropWhile Text.isBlank).head?.any isLetterOrDigit)

def beginsWithNotice (s : List Char) : Bool :=
  beginsWith "copyright" s || beginsWithClaim s || beginsWith "released under" s ||
    beginsWith "license" s || s.head? == some '\u00A9'

def holdsNotice : List Char → Bool
  | [] => false
  | c :: rest => beginsWithNotice (c :: rest) || holdsNotice rest

/-- A comment is kept for a copyright notice anywhere in it or for a bundle mark at its start. -/
def isCopyright (comment : String) : Bool :=
  holdsNotice comment.toList || beginsWith "@ui5-bundle-raw-include " comment.toList ||
    beginsWith "@ui5-bundle " comment.toList

end Minifier

end Bundler
