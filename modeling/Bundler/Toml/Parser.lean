import Bundler.Toml.Quoted
import Bundler.Toml.Scalar
import Bundler.Toml.Table

/-!
# Parsing configuration texts

A configuration text in TOML is a list of lines: headers, which name the table that what follows
belongs to, and assignments of values to dotted keys. `Toml.parse` reads the document it spells.
-/

namespace Bundler.Toml

open Quoted (isBlank isPlain afterBreak?)

def skipBlanks (s : List Char) : List Char := s.dropWhile isBlank

/-- Skips blanks, line breaks and comments, where a comment holds no control characters. -/
def skipGaps (inComment : Bool) : List Char → Option (List Char)
  | [] => some []
  | '\n' :: rest => skipGaps false rest
  | '\r' :: '\n' :: rest => skipGaps false rest
  | c :: rest =>
    if inComment then if isPlain c then skipGaps true rest else none
    else if isBlank c then skipGaps false rest
    else if c = '#' then skipGaps true rest
    else some (c :: rest)

/-! ## Keys -/

def isBare (c : Char) : Bool := c.isAlphanum || c = '_' || c = '-'

/-- One key: bare or quoted, but not over several lines. -/
def readPart (s : List Char) : Option (String × List Char) :=
  match s with
  | '\x22' :: '\x22' :: '\x22' :: _ | '\x27' :: '\x27' :: '\x27' :: _ => none
  | '\x22' :: _ | '\x27' :: _ => (Quoted.readLine? s).map fun (key, rest) => (String.ofList key, rest)
  | s =>
    let key := s.takeWhile isBare
    if key.isEmpty then none else some (String.ofList key, s.dropWhile isBare)

def readKeys : Nat → List Char → Option (List String × List Char)
  | 0, _ => none
  | fuel + 1, s => do
    let (key, rest) ← readPart (skipBlanks s)
    match skipBlanks rest with
    | '.' :: rest =>
      let (keys, rest) ← readKeys fuel rest
      return (key :: keys, rest)
    | rest => return ([key], rest)

/-- A dotted key and the blanks after it. -/
def readKey (s : List Char) : Option (List String × List Char) := readKeys (s.length + 1) s

/-! ## Values -/

def isScalar (c : Char) : Bool := !(isBlank c || "\r\n#,[]\x7b\x7d=".toList.contains c)

/-- A scalar; a date and a time may have one blank between them. -/
def readScalar (s : List Char) : Option (Document × List Char) := do
  let word := s.takeWhile isScalar
  let rest := s.dropWhile isScalar
  let (word, rest) := match Datetime.readDate word, rest with
    | some (_, []), ' ' :: c :: more =>
      if c.isDigit then
        (word ++ ' ' :: (c :: more).takeWhile isScalar, (c :: more).dropWhile isScalar)
      else (word, rest)
    | _, _ => (word, rest)
  return (← Scalar.ofChars? word, rest)

/-- Arrays and inline tables may be nested this deep. -/
def maxDepth : Nat := 80

mutual

def readValue : Nat → Nat → List Char → Option (Document × List Char)
  | 0, _, _ => none
  | fuel + 1, depth, s =>
    match s with
    | '\x22' :: _ | '\x27' :: _ =>
      (Quoted.read? s).map fun (text, rest) => (.string (String.ofList text), rest)
    | '[' :: rest => if depth = 0 then none else readItems fuel (depth - 1) rest []
    | '\x7b' :: rest => if depth = 0 then none else readMembers fuel (depth - 1) rest []
    | s => readScalar s

/-- The rest of an array after its bracket or a comma; `seen` is what was read, backwards. -/
def readItems : Nat → Nat → List Char → List Document → Option (Document × List Char)
  | 0, _, _, _ => none
  | fuel + 1, depth, s, seen => do
    match ← skipGaps false s with
    | ']' :: rest => return (.array seen.reverse, rest)
    | s =>
      let (d, rest) ← readValue fuel depth s
      match ← skipGaps false rest with
      | ',' :: rest => readItems fuel depth rest (d :: seen)
      | ']' :: rest => return (.array (d :: seen).reverse, rest)
      | _ => none

/-- The rest of an inline table after its brace or a comma. -/
def readMembers : Nat → Nat → List Char → Table → Option (Document × List Char)
  | 0, _, _, _ => none
  | fuel + 1, depth, s, table => do
    match ← skipGaps false s with
    | '\x7d' :: rest => return (table.document, rest)
    | s =>
      let (keys, rest) ← readKey s
      match rest with
      | '=' :: rest =>
        let (d, rest) ← readValue fuel depth (skipBlanks rest)
        let table ← table.assign d keys
        match ← skipGaps false rest with
        | ',' :: rest => readMembers fuel depth rest table
        | '\x7d' :: rest => return (table.document, rest)
        | _ => none
      | _ => none

end

/-! ## Lines -/

/-- The tables so far and the keys of the header that the next assignments belong to. -/
structure State where
  root : Table := []
  header : List String := []

namespace State

def openTable (st : State) (keys : List String) : Option State := do
  let key ← keys.getLast?
  return ⟨← st.root.update (Table.openTable key) keys.dropLast, keys⟩

def openElement (st : State) (keys : List String) : Option State := do
  let key ← keys.getLast?
  return ⟨← st.root.update (Table.openElement key) keys.dropLast, keys⟩

def assign (st : State) (keys : List String) (d : Document) : Option State := do
  return { st with root := ← st.root.update (Table.assign d keys) st.header }

/-- Reads a header or an assignment. -/
def readLine (st : State) (s : List Char) : Option (State × List Char) :=
  match s with
  | '[' :: '[' :: rest => do
    let (keys, rest) ← readKey rest
    match rest with
    | ']' :: ']' :: rest => return (← st.openElement keys, rest)
    | _ => none
  | '[' :: rest => do
    let (keys, rest) ← readKey rest
    match rest with
    | ']' :: rest => return (← st.openTable keys, rest)
    | _ => none
  | s => do
    let (keys, rest) ← readKey s
    match rest with
    | '=' :: rest =>
      let (d, rest) ← readValue (2 * s.length + 2) maxDepth (skipBlanks rest)
      return (← st.assign keys d, rest)
    | _ => none

/-- Whether nothing but a comment follows on the line. -/
def endsLine (s : List Char) : Bool :=
  match skipBlanks s with
  | [] | '#' :: _ => true
  | rest => (afterBreak? rest).isSome

def readLines : Nat → State → List Char → Option State
  | 0, _, _ => none
  | fuel + 1, st, s => do
    match ← skipGaps false s with
    | [] => return st
    | s =>
      let (st, rest) ← st.readLine s
      if endsLine rest then readLines fuel st rest else none

end State

/-- The document that a text spells. A byte order mark may stand in front. -/
def parse (text : String) : Option Document := do
  let s := match text.toList with
    | '\uFEFF' :: rest => rest
    | s => s
  let st ← State.readLines (s.length + 1) {} s
  return st.root.document

end Bundler.Toml
