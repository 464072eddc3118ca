import Bundler.Text.Basic

/-!
# File trees

A `FileTree` holds the files below a root, addressed by paths. Two paths are the same place if they
agree after `Path.normalize`.
-/

namespace Bundler

namespace Path

def separator : Char := '/'

/-- The segments of a path: between its slashes, with a slash in front for an absolute path. -/
def segments (path : String) : List String :=
  let parts := (path.splitOn "/").filter fun part => part ≠ "" ∧ part ≠ "."
  if path.startsWith "/" then "/" :: parts else parts

def stepUp : List String → List String
  | [] => []
  | ["/"] => ["/"]
  | parts => parts.dropLast

def step (place : List String) (part : String) : List String :=
  if part = ".." then stepUp place else place ++ [part]

/-- The places on the way along some segments. -/
def placesFrom (place : List String) : List String → List (List String)
  | [] => [place]
  | part :: parts => place :: placesFrom (step place part) parts

/-- The places on the way of a path, from its start to where it leads. -/
def places (path : String) : List (List String) := placesFrom [] (segments path)

/-- The segments of the place a path leads to. -/
def normalize (path : String) : List String := (places path).getLastD []

/-- The path without its last segment. -/
def parent (path : String) : String :=
  String.ofList ((Text.throughLast '/' path.toList).dropLast)

/-- The path of `name` seen from a directory. -/
def join (directory name : String) : String :=
  if name.startsWith "/" ∨ directory = "" then name
  else if directory.endsWith "/" then directory ++ name
  else directory ++ "/" ++ name

/-- A path that ends like this names no file. -/
def namesDirectory (path : String) : Bool :=
  path = "" || (path.splitOn "/").getLast?.any fun part => part = "" || part = "." || part = ".."

end Path

structure FileTree where
  /-- Directories that exist whether they hold files or not. -/
  directories : List (List String) := []
  files : List (List String × List UInt8) := []
  deriving Inhabited

namespace FileTree

def holdsDirectory (t : FileTree) (place : List String) : Bool :=
  place = [] || place = ["/"] || t.directories.contains place ||
    t.files.any fun f => place.isPrefixOf f.1 && place.length < f.1.length

/-- The place that a path leads to, if all that it leads through are directories. -/
def locate? (t : FileTree) (path : String) : Option (List String) :=
  if (Path.places path).dropLast.all t.holdsDirectory then some (Path.normalize path) else none

def read? (t : FileTree) (path : String) : Option (List UInt8) :=
  if Path.namesDirectory path then none else t.locate? path >>= fun place => t.files.lookup place

def isFile (t : FileTree) (path : String) : Bool := (t.read? path).isSome

def isDirectory (t : FileTree) (path : String) : Bool := (t.locate? path).any t.holdsDirectory

/-- The segments below a directory of all its files. -/
def filesBelow (t : FileTree) (path : String) : List (List String) :=
  t.files.filterMap fun f => (Path.normalize path).isPrefixOf? f.1

/-- The tree with a file; a file at the same place is replaced. -/
def insert (t : FileTree) (path : String) (content : List UInt8) : FileTree :=
  let place := Path.normalize path
  { t with files := t.files.filter (fun f => f.1 ≠ place) ++ [(place, content)] }

def erase (t : FileTree) (path : String) : FileTree :=
  { t with files := t.files.filter fun f => f.1 ≠ Path.normalize path }

/-- A segment that a file may have: of at most 255 bytes, none of them null. -/
def isSegment (part : String) : Bool := part.utf8ByteSize ≤ 255 && !part.toList.contains '\x00'

/-- Writes a file and creates the directories on its way. This fails where one of them is a file,
where the file itself is a directory, and for segments that no file may have. -/
def write? (t : FileTree) (path : String) (content : List UInt8) : Option FileTree :=
  let blocked := (Path.places path).dropLast.any fun place => (t.files.lookup place).isSome
  if Path.namesDirectory path || blocked || t.holdsDirectory (Path.normalize path) ||
      !(Path.segments path).all isSegment then none
  else some (t.insert path content)

end FileTree

end Bundler
