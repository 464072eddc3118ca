import Bundler.Text.Basic
import Bundler.Text.Classes

/-!
# Markup

`Markup.minify` drops comments and the blanks between tags, unless a `pre` tag makes blanks
significant.
-/

namespace Bundler.Markup

/-- Drops the letters of a word in either case and tells what follows. -/
def afterLetters? (word s : List Char) : Option (List Char) :=
  match word, s with
  | [], s => some s
  | _, [] => none
  | w :: word, c :: s => if c.toLower = w then afterLetters? word s else none

/-- `pre` with no word character behind it. -/
def beginsWithPre (s : List Char) : Bool :=
  match afterLetters? ['p', 'r', 'e'] s with
  | some rest => !(rest.head?.any Text.isWord)
  | none => false

/-- A `pre` tag after its opening bracket, possibly with a namespace before it. -/
def beginsWithPreTag (s : List Char) : Bool :=
  beginsWithPre s ||
    match s.dropWhile Text.isWord with
    | ':' :: rest => s.head?.any Text.isWord && beginsWithPre rest
    | _ => false

def hasSignificantBlanks : List Char → Bool
  | [] => false
  | c :: rest => (c = '<' && beginsWithPreTag rest) || hasSignificantBlanks rest

/-- What follows the first `-->`. -/
def afterComment? : List Char → Option (List Char)
  | '-' :: '-' :: '>' :: rest => some rest
  | [] => none
  | _ :: rest => afterComment? rest

theorem length_afterComment {s rest : List Char} (h : afterComment? s = some rest) :
    rest.length < s.length := by
  fun_induction afterComment? s with
  | case1 r =>
    cases h
    simp
    omega
  | case2 => cases h
  | case3 _ r _ ih =>
    have := ih h
    simp
    omega

/-- The text without its comments, each from `<!--` to the next `-->`. What is left is not searched
again, and a comment without an end is none. -/
def withoutComments : List Char → List Char
  | [] => []
  | '<' :: '!' :: '-' :: '-' :: rest =>
    match h : afterComment? rest with
    | some after =>
      have := length_afterComment h
      withoutComments after
    | none => '<' :: withoutComments ('!' :: '-' :: '-' :: rest)
  | c :: rest => c :: withoutComments rest
termination_by s => s.length

/-- Drops the blanks that stand directly between the end of one tag and the start of the next. -/
def collapse : List Char → List Char
  | [] => []
  | c :: rest =>
    let after := rest.dropWhile Text.isBlank
    have : (rest.dropWhile Text.isBlank).length ≤ rest.length :=
      (List.dropWhile_suffix _).length_le
    if c = '>' && after.head? == some '<' then c :: collapse after
    else c :: collapse rest
termination_by s => s.length

def minify (text : String) : String :=
  let s := text.toList
  if hasSignificantBlanks s then text
  else String.ofList (Text.trim (collapse (withoutComments s)))

end Bundler.Markup
