/-!
# Text over lists of characters

Cutting, searching and replacing on `List Char`, the form in which the library computes with text.
-/

namespace Bundler.Text

/-- What stands before the suffix `t`, if `s` ends with it. -/
def before? (t s : List Char) : Option (List Char) := List.isSuffixOf? t s

/-- What follows `t` at the start of `s`, if `s` starts with it. -/
def after? (t s : List Char) : Option (List Char) := List.isPrefixOf? t s

/-- The part after the last occurrence of `c`; all of `s` where there is none. -/
def afterLast (c : Char) (s : List Char) : List Char := (s.reverse.takeWhile (· != c)).reverse

/-- The part up to and with the last occurrence of `c`; nothing where there is none. -/
def throughLast (c : Char) (s : List Char) : List Char := (s.reverse.dropWhile (· != c)).reverse

def hasInfix (t s : List Char) : Bool :=
  t.isPrefixOf s || match s with
    | [] => false
    | _ :: r => hasInfix t r

/-- The first occurrence of `t` in `s` gives way to `u`. -/
def replaceFirst (t u s : List Char) : List Char :=
  match after? t s with
  | some rest => u ++ rest
  | none => match s with
    | [] => []
    | c :: r => c :: replaceFirst t u r

/-- The leftmost, disjoint occurrences of `t` in `s`, after the next `skip` characters, are
deleted. -/
def deleteAllFrom (t : List Char) : Nat → List Char → List Char
  | _, [] => []
  | skip + 1, _ :: r => deleteAllFrom t skip r
  | 0, c :: r => if t.isPrefixOf (c :: r) then deleteAllFrom t (t.length - 1) r
    else c :: deleteAllFrom t 0 r

/-- Every occurrence of `t` is deleted; an empty `t` changes nothing. -/
def deleteAll (t s : List Char) : List Char := if t.isEmpty then s else deleteAllFrom t 0 s

def utf8Size (s : List Char) : Nat := s.foldl (fun n c => n + c.utf8Size) 0

end Bundler.Text
