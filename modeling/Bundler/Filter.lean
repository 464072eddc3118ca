import Bundler.Glob
import Bundler.Name

/-!
# Filters

A section picks modules by an ordered list of patterns: `pattern` includes, `!pattern` excludes and
`+pattern` includes again. A pattern without a star accepts the name itself and everything below it;
one with a star is a glob. `FilterList.selects` lets the last pattern that accepts a name decide.
-/

namespace Bundler

inductive Matcher where
  | directory (path : String)
  | glob (tokens : List Glob.Token)
  deriving Inhabited

namespace Matcher

def acceptsBelow (path name : List Char) : Bool :=
  if path.isEmpty then false
  else if path.getLast? = some '/' then path.isPrefixOf name
  else match Text.after? path name with
    | none => false
    | some [] => true
    | some (c :: _) => c = '/'

def accepts : Matcher → String → Bool
  | .directory path, name => acceptsBelow path.toList name.toList
  | .glob tokens, name => Glob.accepts tokens name

end Matcher

/-- A pattern that is no glob, as it was read. -/
structure InvalidPattern where
  pattern : String
  cause : GlobError
  deriving DecidableEq, Repr

namespace InvalidPattern

def message (e : InvalidPattern) : String :=
  s!"Invalid module filter pattern '{e.pattern}': error parsing glob '{e.pattern}': " ++
    e.cause.message

end InvalidPattern

structure Filter where
  includes : Bool
  matcher : Matcher
  deriving Inhabited

namespace Filter

/-- A star pattern that ends with a slash means all below. -/
def completed (pattern : List Char) : List Char :=
  if pattern.getLast? = some '/' then pattern ++ ['*', '*'] else pattern

def matcherOf (pattern : List Char) : Except InvalidPattern Matcher :=
  if !pattern.contains '*' then .ok (.directory (String.ofList pattern))
  else
    let text := String.ofList (completed pattern)
    match Glob.parse text with
    | .ok tokens => .ok (.glob tokens)
    | .error cause => .error ⟨text, cause⟩

def parse (pattern : String) : Except InvalidPattern Filter :=
  match pattern.toList with
  | '!' :: rest => (matcherOf rest).map (⟨false, ·⟩)
  | '+' :: rest => (matcherOf rest).map (⟨true, ·⟩)
  | s => (matcherOf s).map (⟨true, ·⟩)

/-- The resource that the filter names outright: an included one with a dot in its last segment. -/
def resource? (f : Filter) : Option String :=
  match f.includes, f.matcher with
  | true, .directory name => if (Name.file name).contains '.' then some name else none
  | _, _ => none

end Filter

abbrev FilterList := List Filter

namespace FilterList

def parse (patterns : List String) : Except InvalidPattern FilterList := patterns.mapM Filter.parse

/-- Whether a section takes `name`. What is `required` is taken unless an exclusion says otherwise,
a candidate only if an inclusion does; a filter is asked only where it could change that. -/
def selects (filters : FilterList) (name : String) (required : Bool) : Bool :=
  filters.foldl
    (fun accepted f =>
      if accepted != f.includes && f.matcher.accepts name then f.includes else accepted)
    required

/-- The listed resources, if the filters are a plain list of them. -/
def resources? (filters : FilterList) : Option (List String) :=
  match filters with
  | [] => none
  | _ => filters.mapM Filter.resource?

end FilterList

end Bundler
