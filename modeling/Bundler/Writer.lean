import Bundler.Text.Utf8
import Bundler.Text.Basic

/-!
# The writer

`Writer` holds the text of a bundle and which ranges of its bytes belong to which module. Line,
column and the new-line mark are kept up to date piece by piece. At most one segment is open.
-/

namespace Bundler

/-- Bytes `startIndex` to `endIndex` of the text, which begin at a line and byte column. -/
structure Segment where
  module : String
  startIndex : Nat
  endIndex : Nat
  startLine : Nat
  startColumn : Nat
  deriving DecidableEq, Repr, Inhabited

namespace Segment

def length (s : Segment) : Nat := s.endIndex - s.startIndex

def isEmpty (s : Segment) : Bool := s.startIndex == s.endIndex

end Segment

structure OpenSegment where
  module : String
  startIndex : Nat
  line : Nat
  column : Nat
  deriving DecidableEq, Repr, Inhabited

inductive WriterError where
  | alreadyOpen (module requested : String)
  | noneOpen
  deriving DecidableEq, Repr

namespace WriterError

def message : WriterError → String
  | .alreadyOpen module requested =>
    s!"cannot start segment for '{requested}': segment for '{module}' is still open"
  | .noneOpen => "cannot end segment: no segment is open"

end WriterError

structure Writer where
  text : String := ""
  line : Nat := 0
  column : Nat := 0
  endsWithNewLine : Bool := false
  segments : List Segment := []
  opened : Option OpenSegment := none
  deriving DecidableEq, Repr, Inhabited

namespace Writer

def length (w : Writer) : Nat := w.text.utf8ByteSize

def isEmpty (w : Writer) : Bool := w.text.isEmpty

def isPadding (c : Char) : Bool := c = ' ' || c = '\t'

def isNewLine (c : Char) : Bool := c = '\n' || c = '\r'

/-- Appends one piece. A piece of spaces and tabs alone leaves the new-line mark as it is. -/
def append (w : Writer) (piece : String) : Writer :=
  let s := piece.toList
  let newLines := s.count '\n'
  { w with
    text := w.text ++ piece
    line := w.line + newLines
    column :=
      if newLines = 0 then w.column + piece.utf8ByteSize
      else Text.utf8Size (Text.afterLast '\n' s)
    endsWithNewLine :=
      match s.reverse.dropWhile isPadding with
      | [] => w.endsWithNewLine
      | c :: _ => isNewLine c }

def write (w : Writer) (pieces : List String) : Writer := pieces.foldl append w

def writeLine (w : Writer) (pieces : List String) : Writer := (w.write pieces).append "\n"

/-- Begins a new line unless the text is empty or its last line holds nothing but padding. -/
def freshLine (w : Writer) : Writer :=
  if w.endsWithNewLine || w.isEmpty then w else w.append "\n"

/-- Opens a segment. The answer is an error if one is open, which stays open then. -/
def start (w : Writer) (module : String) : Writer × Except WriterError Unit :=
  match w.opened with
  | some s => (w, .error (.alreadyOpen s.module module))
  | none => ({ w with opened := some ⟨module, w.length, w.line, w.column⟩ }, .ok ())

/-- Closes the open segment and answers how many bytes it covers. -/
def finish (w : Writer) : Writer × Except WriterError Nat :=
  let closed : Writer := { w with opened := none }
  match w.opened with
  | none => (closed, .error .noneOpen)
  | some s =>
    let segment : Segment := ⟨s.module, s.startIndex, w.length, s.line, s.column⟩
    ({ closed with segments := w.segments ++ [segment] }, .ok segment.length)

/-- One use of a writer. -/
inductive Call where
  | write (pieces : List String)
  | writeLine (pieces : List String)
  | freshLine
  | start (module : String)
  | finish
  deriving DecidableEq, Repr

/-- The writer after a call, and what the call answered: the bytes of a segment that it closed, or
an error. -/
def call (w : Writer) : Call → Writer × Except WriterError (Option Nat)
  | .write pieces => (w.write pieces, .ok none)
  | .writeLine pieces => (w.writeLine pieces, .ok none)
  | .freshLine => (w.freshLine, .ok none)
  | .start module =>
    let (w', answer) := w.start module
    (w', answer.map fun _ => none)
  | .finish =>
    let (w', answer) := w.finish
    (w', answer.map some)

/-- The segment text runs from its start to its end. -/
def slice (s : Segment) (text : String) : List UInt8 :=
  ((Utf8.encode text).drop s.startIndex).take s.length

end Writer

end Bundler
