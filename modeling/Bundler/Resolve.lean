import Bundler.Graph
import Bundler.Resolved
import Bundler.Walk

/-!
# Resolving definitions

The sections of a definition are searched one after the other. What a section has selected no later
one selects again, except that require sections are searched each on its own.
-/

namespace Bundler

namespace Search

/-- A plain list of resources is visited as listed, otherwise all that the pool has. -/
def roots (s : Search) : List Visit :=
  (s.filters.resources?.getD s.pool.names).map fun name => { name }

/-- Walks a section from its roots and tells what it selects. -/
def collect (s : Search) (w : Walk) : Run (Walk × List String) := do
  if s.criteria.mode = .require then
    let alone ← s.walk {} s.roots
    return ({ w with repeats := w.repeats + alone.repeats }, alone.selected.names)
  else
    let w' ← s.walk w s.roots
    return (w', w'.selected.names.drop w.selected.names.length)

/-- The modules of a section in the order in which they are emitted. -/
def arrange (s : Search) (modules : List String) : Run (List String) := do
  if s.criteria.mode = .raw && s.criteria.sort then
    (← ModuleGraph.ofPool s.pool modules).loadOrder
  else return modules

end Search

namespace Section

def search (pool : Pool) (ignoreMissing : Bool) (s : Section) : Except InvalidPattern Search :=
  (FilterList.parse s.filters).map fun filters => { pool, ignoreMissing, criteria := s, filters }

end Section

namespace ResolvedSection

def ofSection (pool : Pool) (ignoreMissing : Bool) (w : Walk) (s : Section) :
    Run (Walk × ResolvedSection) := do
  let search ← Run.ofExcept .invalidPattern (s.search pool ignoreMissing)
  let (w, modules) ← search.collect w
  let modules ← search.arrange modules
  Run.log1 (.resolvedSection s.mode s.name modules.length)
  return (w, ⟨s, modules⟩)

def ofSections (pool : Pool) (ignoreMissing : Bool) (w : Walk) :
    List Section → Run (Walk × List ResolvedSection)
  | [] => return (w, [])
  | s :: rest => do
    let (w, resolved) ← ofSection pool ignoreMissing w s
    let (w, others) ← ofSections pool ignoreMissing w rest
    return (w, resolved :: others)

end ResolvedSection

namespace Definition

def resolve (d : Definition) (pool : Pool) (ignoreMissing : Bool) : Run Resolved := do
  Run.log1 (.resolving d.name)
  let (w, sections) ← ResolvedSection.ofSections pool ignoreMissing {} d.sections
  if 0 < w.repeats then Run.log1 (.repeatedVisits w.repeats d.name)
  return ⟨d, sections⟩

end Definition

end Bundler
