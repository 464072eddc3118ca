import Bundler.Text.Utf8
import Bundler.Text.Basic

/-!
# Globs

`Glob.parse` reads a pattern in which `*` and `?` stay within one path segment and `**` between
slashes spans segments. `Glob.remainders` says what can be left of a name after a token, and a glob
accepts a name of which nothing may be left. Globs compare bytes: `?` is one byte, and a class that
holds other characters than ASCII holds their bytes.
-/

namespace Bundler

inductive GlobError where
  | unclosedClass
  | invalidRange (first last : Char)
  | unopenedAlternates
  | unclosedAlternates
  | danglingEscape
  deriving DecidableEq, Repr

namespace GlobError

def message : GlobError → String
  | .unclosedClass => "unclosed character class; missing ']'"
  | .invalidRange first last => s!"invalid range; '{first}' > '{last}'"
  | .unopenedAlternates =>
    "unopened alternate group; missing '\x7b' (maybe escape '\x7d' with '[\x7d]'?)"
  | .unclosedAlternates =>
    "unclosed alternate group; missing '\x7d' (maybe escape '\x7b' with '[\x7b]'?)"
  | .danglingEscape => "dangling '\\'"

end GlobError

namespace Glob

inductive Token where
  | literal (c : Char)
  | any
  | zeroOrMore
  /-- `**/` at the start: any number of leading segments. -/
  | leading
  /-- `/**` at the end: everything below. -/
  | trailing
  /-- `/**/`: any number of segments between. -/
  | between
  | charClass (negated : Bool) (ranges : List (Char × Char))
  | alternates (branches : List (List Token))
  deriving Inhabited

/-! ## Reading -/

/-- A group being read: what stands before it and its finished branches, both reversed. -/
structure Group where
  before : List Token
  finished : List (List Token)

/-- The tokens of the current branch, reversed, and the groups around it. -/
structure Progress where
  branch : List Token := []
  groups : List Group := []

namespace Progress

def push (p : Progress) (t : Token) : Progress := { p with branch := t :: p.branch }

def openGroup (p : Progress) : Progress := ⟨[], ⟨p.branch, []⟩ :: p.groups⟩

def nextBranch (p : Progress) : Progress :=
  match p.groups with
  | [] => p.push (.literal ',')
  | g :: gs => ⟨[], { g with finished := p.branch.reverse :: g.finished } :: gs⟩

def closeGroup (p : Progress) : Except GlobError Progress :=
  match p.groups with
  | [] => .error .unopenedAlternates
  | g :: gs =>
    .ok ⟨.alternates (p.branch.reverse :: g.finished).reverse :: g.before, gs⟩

def finish (p : Progress) : Except GlobError (List Token) :=
  if p.groups.isEmpty then .ok p.branch.reverse else .error .unclosedAlternates

/-- Two stars that do not stand between slashes mean no more than one. -/
def stars (p : Progress) : Progress := (p.push .zeroOrMore).push .zeroOrMore

/-- Two stars after a slash, which they replace unless segments may be skipped there already. -/
def spanning (p : Progress) (last : Bool) : Progress :=
  match p.branch with
  | .leading :: _ | .trailing :: _ => p
  | _ :: rest => { p with branch := (if last then .trailing else .between) :: rest }
  | [] => p

/-- The effect of `**` between the characters `previous` and those of `rest`, with what remains. -/
def doubleStar (p : Progress) (previous : Option Char) (rest : List Char) :
    Progress × List Char :=
  let inGroup := !p.groups.isEmpty
  if p.branch.isEmpty then
    match rest with
    | [] => (p.push .leading, [])
    | '/' :: r => (p.push .leading, r)
    | _ => (p.stars, rest)
  else if previous = some '/' ∨ (inGroup ∧ (previous = some ',' ∨ previous = some '\x7b')) then
    match rest with
    | [] => (p.spanning true, [])
    | '/' :: r => (p.spanning false, r)
    | c :: _ =>
      if inGroup ∧ (c = ',' ∨ c = '\x7d') then (p.spanning true, rest) else (p.stars, rest)
  else (p.stars, rest)

end Progress

/-- The members of a class read so far, the latest first; `range` after a dash that may join two. -/
structure ClassProgress where
  ranges : List (Char × Char) := []
  range : Bool := false

namespace ClassProgress

def add (a : ClassProgress) (c : Char) : Except GlobError ClassProgress :=
  match a.range, a.ranges with
  | true, (first, _) :: rest =>
    if c < first then .error (.invalidRange first c) else .ok ⟨(first, c) :: rest, false⟩
  | _, _ => .ok ⟨(c, c) :: a.ranges, false⟩

def finish (a : ClassProgress) : List (Char × Char) :=
  (if a.range then ('-', '-') :: a.ranges else a.ranges).reverse

end ClassProgress

/-- The members of a class up to its closing bracket, which counts as a member in first place. -/
def readClass : Bool → ClassProgress → List Char →
    Except GlobError (List (Char × Char) × List Char)
  | _, _, [] => .error .unclosedClass
  | first, a, c :: rest =>
    if c = ']' ∧ !first then .ok (a.finish, rest)
    else if c = '-' ∧ !first ∧ !a.range then readClass false { a with range := true } rest
    else do readClass false (← a.add c) rest

/-- Reads a pattern, at most `fuel` tokens of it. -/
def parseFrom : Nat → Progress → Option Char → List Char → Except GlobError (List Token)
  | 0, p, _, _ => p.finish
  | _ + 1, p, _, [] => p.finish
  | fuel + 1, p, previous, c :: rest => do
    match c with
    | '?' => parseFrom fuel (p.push .any) (some c) rest
    | '*' =>
      match rest with
      | '*' :: rest =>
        let (p, remaining) := p.doubleStar previous rest
        let previous := if remaining.length < rest.length then some '/' else some '*'
        parseFrom fuel p previous remaining
      | _ => parseFrom fuel (p.push .zeroOrMore) (some c) rest
    | '[' =>
      let (negated, members) := match rest with
        | '!' :: r | '^' :: r => (true, r)
        | r => (false, r)
      let (ranges, rest) ← readClass true {} members
      parseFrom fuel (p.push (.charClass negated ranges)) (some ']') rest
    | '\x7b' => parseFrom fuel p.openGroup (some c) rest
    | '\x7d' => parseFrom fuel (← p.closeGroup) (some c) rest
    | ',' => parseFrom fuel p.nextBranch (some c) rest
    | '\\' =>
      match rest with
      | [] => .error .danglingEscape
      | e :: rest => parseFrom fuel (p.push (.literal e)) (some e) rest
    | _ => parseFrom fuel (p.push (.literal c)) (some c) rest

def parse (pattern : String) : Except GlobError (List Token) :=
  let s := pattern.toList
  parseFrom (s.length + 1) {} none s

/-! ## Matching -/

def slash : UInt8 := 47

/-- The members of a class as ranges of bytes. -/
def byteRanges (range : Char × Char) : List (UInt8 × UInt8) :=
  let single (b : UInt8) : UInt8 × UInt8 := (b, b)
  let first := String.utf8EncodeChar range.1
  let last := String.utf8EncodeChar range.2
  if range.1 = range.2 then first.map single
  else match first.getLast?, last with
    | some a, b :: rest => first.dropLast.map single ++ (a, b) :: rest.map single
    | _, _ => []

def classHolds (negated : Bool) (ranges : List (Char × Char)) (b : UInt8) : Bool :=
  let held := (ranges.flatMap byteRanges).any fun r => r.1 ≤ b && b ≤ r.2
  held != negated

/-- What can follow any number of bytes that are no slashes. -/
def withinSegment : List UInt8 → List (List UInt8)
  | [] => [[]]
  | b :: rest => (b :: rest) :: (if b = slash then [] else withinSegment rest)

/-- What can follow a slash anywhere in the rest. -/
def afterSlashes : List UInt8 → List (List UInt8)
  | [] => []
  | b :: rest => if b = slash then rest :: afterSlashes rest else afterSlashes rest

def suffixes : List UInt8 → List (List UInt8)
  | [] => [[]]
  | b :: rest => (b :: rest) :: suffixes rest

mutual

/-- Whether a token stands for nothing at all, as a group of empty branches does. -/
def Token.isVoid : Token → Bool
  | .alternates branches => allVoid branches
  | _ => false

def isVoid : List Token → Bool
  | [] => true
  | t :: rest => t.isVoid && isVoid rest

def allVoid : List (List Token) → Bool
  | [] => true
  | b :: rest => isVoid b && allVoid rest

end

mutual

/-- All that can be left of `name` after the token. A group takes one of its branches that are not
void, if it has any. -/
def Token.remainders (name : List UInt8) : Token → List (List UInt8)
  | .literal c => (List.isPrefixOf? (String.utf8EncodeChar c) name).toList
  | .any => match name with
    | b :: rest => if b = slash then [] else [rest]
    | [] => []
  | .zeroOrMore => withinSegment name
  | .leading => name :: (match name with
    | b :: rest => if b = slash then [rest] else []
    | [] => []) ++ afterSlashes name
  | .trailing => match name with
    | b :: rest => if b = slash then suffixes rest else []
    | [] => []
  | .between => match name with
    | b :: rest => if b = slash then rest :: afterSlashes rest else []
    | [] => []
  | .charClass negated ranges => match name with
    | b :: rest => if classHolds negated ranges b then [rest] else []
    | [] => []
  | .alternates branches =>
    if allVoid branches then [name] else branchRemainders name branches

def remainders (names : List (List UInt8)) : List Token → List (List UInt8)
  | [] => names
  | t :: rest => remainders (names.flatMap fun name => t.remainders name).eraseDups rest

def branchRemainders (name : List UInt8) : List (List Token) → List (List UInt8)
  | [] => []
  | b :: rest => (if isVoid b then [] else remainders [name] b) ++ branchRemainders name rest

end

/-- The glob `**` alone accepts every name. -/
def isUniversal : List Token → Bool
  | [.leading] => true
  | _ => false

def accepts (tokens : List Token) (name : String) : Bool :=
  isUniversal tokens || (remainders [Utf8.encode name] tokens).any List.isEmpty

end Glob

end Bundler
