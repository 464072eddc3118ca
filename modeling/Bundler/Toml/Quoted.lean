import Bundler.Json.Document

/-!
# Quoted texts of configurations

Basic texts have escapes, literal texts have none. Both may run over several lines between triple
quotes; a line break right after the opening quotes is dropped, and in a basic text a backslash at
the end of a line drops the break and all blanks after it.
-/

namespace Bundler.Toml.Quoted

/-- A tab or anything that is no control character. -/
def isPlain (c : Char) : Bool := c = '\t' || (32 ≤ c.toNat && c.toNat ≠ 127)

def isBlank (c : Char) : Bool := c = ' ' || c = '\t'

/-- What follows a line break, which is a line feed with or without a carriage return. -/
def afterBreak? : List Char → Option (List Char)
  | '\n' :: rest => some rest
  | '\r' :: '\n' :: rest => some rest
  | _ => none

/-- A character written as hexadecimal digits. -/
def readHex (count : Nat) (s : List Char) : Option (Char × List Char) := do
  let digits ← (s.take count).mapM Document.hexValue?
  if digits.length ≠ count then none
  let n := digits.foldl (fun n d => n * 16 + d) 0
  if h : n.isValidChar then return (Char.ofNatAux n h, s.drop count)
  none

/-- The character of an escape, after its backslash. -/
def readEscape : List Char → Option (Char × List Char)
  | 'b' :: rest => some ('\x08', rest)
  | 't' :: rest => some ('\t', rest)
  | 'n' :: rest => some ('\n', rest)
  | 'f' :: rest => some ('\x0c', rest)
  | 'r' :: rest => some ('\r', rest)
  | 'e' :: rest => some ('\x1b', rest)
  | '\x22' :: rest => some ('\x22', rest)
  | '\\' :: rest => some ('\\', rest)
  | 'x' :: rest => readHex 2 rest
  | 'u' :: rest => readHex 4 rest
  | 'U' :: rest => readHex 8 rest
  | _ => none

/-- The rest of a basic text on one line; `seen` is what was read, backwards. -/
def readBasic : Nat → List Char → List Char → Option (List Char × List Char)
  | 0, _, _ => none
  | fuel + 1, s, seen =>
    match s with
    | '\x22' :: rest => some (seen.reverse, rest)
    | '\\' :: rest => do
      let (c, rest) ← readEscape rest
      readBasic fuel rest (c :: seen)
    | c :: rest => if isPlain c then readBasic fuel rest (c :: seen) else none
    | [] => none

def readLiteral (s : List Char) : Option (List Char × List Char) :=
  let text := s.takeWhile fun c => isPlain c && c ≠ '\x27'
  match s.drop text.length with
  | '\x27' :: rest => some (text, rest)
  | _ => none

/-- Quotes that end a text on several lines: three, after up to two that belong to the text. -/
def closing? (quote : Char) (s : List Char) : Option (List Char × List Char) :=
  let count := min 5 (s.takeWhile (· == quote)).length
  if count < 3 then none else some (List.replicate (count - 3) quote, s.drop count)

/-- What follows a backslash at the end of a line: the next character that is neither a blank nor
a break, which must be on a later line. -/
def afterContinuation? (broken : Bool) : List Char → Option (List Char)
  | '\r' :: '\n' :: rest => afterContinuation? true rest
  | '\n' :: rest => afterContinuation? true rest
  | c :: rest =>
    if isBlank c then afterContinuation? broken rest
    else if broken then some (c :: rest) else none
  | [] => if broken then some [] else none

/-- The rest of a text on several lines, where `escapes` tells whether backslashes are special. -/
def readLines (quote : Char) (escapes : Bool) :
    Nat → List Char → List Char → Option (List Char × List Char)
  | 0, _, _ => none
  | fuel + 1, s, seen =>
    match closing? quote s with
    | some (quotes, rest) => some (seen.reverse ++ quotes, rest)
    | none =>
      match s with
      | '\r' :: '\n' :: rest => readLines quote escapes fuel rest ('\n' :: '\r' :: seen)
      | '\n' :: rest => readLines quote escapes fuel rest ('\n' :: seen)
      | c :: rest =>
        if escapes && c = '\\' then
          match afterContinuation? false rest with
          | some rest => readLines quote escapes fuel rest seen
          | none => do
            let (c, rest) ← readEscape rest
            readLines quote escapes fuel rest (c :: seen)
        else if isPlain c then readLines quote escapes fuel rest (c :: seen)
        else none
      | [] => none

def readBlock (quote : Char) (escapes : Bool) (s : List Char) : Option (List Char × List Char) :=
  readLines quote escapes (s.length + 1) ((afterBreak? s).getD s) []

/-- A quoted text on one line, from its opening quote. -/
def readLine? : List Char → Option (List Char × List Char)
  | '\x22' :: rest => readBasic (rest.length + 1) rest []
  | '\x27' :: rest => readLiteral rest
  | _ => none

/-- A quoted text, on one line or between triple quotes. -/
def read? : List Char → Option (List Char × List Char)
  | '\x22' :: '\x22' :: '\x22' :: rest => readBlock '\x22' true rest
  | '\x27' :: '\x27' :: '\x27' :: rest => readBlock '\x27' false rest
  | s => readLine? s

end Bundler.Toml.Quoted
