/-!
# Edits

An edit puts a text in place of a range. `Edit.apply` performs edits from the back to the front, so
that the offsets of those still to come stay valid; of two insertions at one place the earlier in the
list comes first in the result. Texts are lists of characters or of bytes, and offsets count in the
same unit.
-/

namespace Bundler

structure Edit (α : Type) where
  start : Nat
  stop : Nat
  text : List α
  deriving DecidableEq, Repr, Inhabited

namespace Edit

variable {α : Type}

def insert (place : Nat) (text : List α) : Edit α := ⟨place, place, text⟩

def splice (source : List α) (e : Edit α) : List α :=
  source.take e.start ++ e.text ++ source.drop e.stop

/-- Whether the first edit is performed before the second: one further back comes first, and of two
at one place the one recorded later. -/
def before (a b : Nat × Edit α) : Bool :=
  b.2.start < a.2.start || (b.2.start == a.2.start && b.1 ≤ a.1)

def apply (source : List α) (edits : List (Edit α)) : List α :=
  let numbered := (List.range edits.length).zip edits
  (numbered.mergeSort before).foldl (fun s e => splice s e.2) source

end Edit

end Bundler
