import Bundler.Measured
import Bundler.Resolve

/-!
# Splitting definitions

A definition is split into parts of about the same size. Every part lists its modules explicitly.
Only preload sections are cut: a part is closed before a module that would lie beyond its share by
more than half, until the last part is being filled. Every part has all require sections.
-/

namespace Bundler

/-- How many parts there are to be, and the total size that they share. -/
structure Share where
  template : String
  parts : Nat
  total : Nat

/-- The parts so far. `fragment` holds the modules of the section that is being distributed and have
been put into the current part. -/
structure Parts where
  closed : List Definition := []
  current : Definition
  size : Nat
  fragment : List String := []
  deriving Inhabited

namespace Parts

def addSection (p : Parts) (s : Section) (size : Nat) : Parts :=
  { p with current := p.current.withSection s, size := p.size + size }

/-- The fragment becomes a section of the current part. -/
def finishFragment (p : Parts) (s : Measured) : Parts :=
  if p.fragment.isEmpty then p
  else { p with current := p.current.withSection (s.explicit p.fragment), fragment := [] }

def close (p : Parts) (share : Share) : Run Parts := do
  Run.log1 (.closingPart p.current.name p.size)
  let closed := p.closed ++ [p.current]
  return { closed, current := { name := Name.part share.template closed.length }, size := 0 }

/-- Whether a module of this size goes into a new part: half of it would lie beyond the share of the
current part, and that is not the last one. The products are exact, as those of machine words are
where they stay below `limit64`. None of them exceeds the parts times twice the total. -/
def isFull (p : Parts) (share : Share) (size : Nat) : Bool :=
  p.closed.length + 1 < share.parts && 2 * share.total < share.parts * (2 * p.size + size)

def place (share : Share) (s : Measured) (p : Parts) (entry : String × Nat) : Run Parts := do
  let p ← if p.isFull share entry.2 then (p.finishFragment s).close share else pure p
  return { p with fragment := p.fragment ++ [entry.1], size := p.size + entry.2 }

def distribute (share : Share) (p : Parts) (s : Measured) : Run Parts :=
  match s.mode with
  | .provided => return p
  | .raw | .require | .bundleInfo => return p.addSection (s.explicit s.modules) s.size
  | .preload => return (← s.entries.foldlM (place share s) p).finishFragment s

end Parts

namespace Definition

def withMissing (d : Definition) (s : Section) : Definition :=
  if d.sections.contains s then d else d.withSection s

/-- The parts, numbered from 0, of a definition whose sections are measured. -/
def distribute (d : Definition) (parts : Nat) (sections : List Measured) :
    Run (List Definition) := do
  let total := configurationSize d.configuration + Measured.total (sections.map Measured.size)
  let share : Share := ⟨Name.partTemplate d.name, parts, total⟩
  Run.log1 (.splitting d.name total parts (total / parts))
  let first : Definition :=
    { name := Name.part share.template 0, configuration := d.configuration }
  let p ← sections.foldlM (Parts.distribute share)
    { current := first, size := configurationSize d.configuration }
  Run.log1 (.closingPart p.current.name p.size)
  let requires := (sections.filter (·.mode = .require)).map fun s => s.explicit s.modules
  let all := (p.closed ++ [p.current]).map fun part => requires.foldl withMissing part
  Run.log1 (.split d.name all.length)
  return all

/-- Splits a definition into at most `parts` parts, where none counts as one. -/
def split (d : Definition) (source : Source) (ignoreMissing : Bool) (parts : Nat) :
    Run (List Definition) := do
  let resolved ← d.resolve source.pool ignoreMissing
  d.distribute (max parts 1) (← resolved.sections.mapM (Measured.ofSection source))

end Definition

end Bundler
