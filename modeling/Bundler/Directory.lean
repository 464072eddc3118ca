import Bundler.Codec
import Bundler.FileTree
import Bundler.Pool
import Bundler.Run

/-!
# Pools over directories

Every file below a directory is a resource, named by its path from there. A manifest at the root may
give records of them. Files are read when they are looked up, so one that has gone by then cannot be
read any more, though the pool still knows its name.
-/

namespace Bundler

def manifestName : String := ".module-info.json"

/-- Why a directory cannot serve as a pool. -/
inductive ScanError where
  | missing (root : String)
  | unreadableManifest (path : String)
  | malformedManifest (path : String)
  deriving DecidableEq, Repr

namespace ScanError

def message : ScanError → String
  | .missing root => s!"Failed to scan resource directory {root}"
  | .unreadableManifest path => s!"Failed to read {path}"
  | .malformedManifest path => s!"Failed to parse {path}"

end ScanError

structure Directory where
  root : String
  /-- The paths of the resources, in order of their names. -/
  paths : List (String × String)
  records : List (String × ModuleInfo)
  deriving Inhabited

namespace Directory

def nameOf (parts : List String) : String := String.intercalate "/" parts

/-- A root that is a file itself is the only resource, without a name. -/
def pathOf (root : String) (parts : List String) : String :=
  if parts.isEmpty then root else Path.join root (nameOf parts)

def pathsIn (tree : FileTree) (root : String) : List (String × String) :=
  let all := (tree.filesBelow root).map fun parts => (nameOf parts, pathOf root parts)
  (all.filter fun (name, _) => name ≠ manifestName).mergeSort fun a b => a.1 ≤ b.1

/-- The records of a manifest; one without a name gets that of its resource. -/
def recordsOf (text : String) : Option (List (String × ModuleInfo)) := do
  let records ← (Decoder.entries (ModuleInfo.decode .json)).run (← Document.parse text)
  return records.map fun (name, info) =>
    (name, if info.name.isEmpty then { info with name } else info)

def readRecords (tree : FileTree) (root : String) : Except ScanError (List (String × ModuleInfo)) :=
  let path := Path.join root manifestName
  match tree.read? path with
  | none => .ok []
  | some bytes =>
    match Utf8.decode? bytes with
    | none => .error (.unreadableManifest path)
    | some text =>
      match recordsOf text with
      | none => .error (.malformedManifest path)
      | some records => .ok records

def scan (tree : FileTree) (root : String) : Except ScanError Directory :=
  if tree.isFile root || tree.isDirectory root then
    (readRecords tree root).map fun records => ⟨root, pathsIn tree root, records⟩
  else .error (.missing root)

def opened (d : Directory) : Event := .openedPool d.root d.paths.length d.records.length

/-- The look-up of a resource among the files that are there now. -/
def find (d : Directory) (tree : FileTree) (name : String) : Except PoolError Resource :=
  match d.paths.lookup name with
  | none => .error (.notFound name)
  | some path =>
    match tree.read? path with
    | none => .error (.unreadable name path)
    | some content =>
      .ok { name, path := some path, content, info := some ((d.records.lookup name).getD { name }) }

theorem mem_of_lookup {paths : List (String × String)} {name path : String}
    (h : paths.lookup name = some path) : name ∈ paths.map (·.1) := by
  induction paths with
  | nil => cases h
  | cons p rest ih =>
    rw [List.lookup_cons] at h
    split at h
    · rename_i e
      exact List.mem_map.2 ⟨p, List.mem_cons_self, (beq_iff_eq.1 e).symm⟩
    · exact List.mem_cons_of_mem _ (ih h)

theorem known_of_find {d : Directory} {tree : FileTree} {name : String} {r : Resource}
    (h : d.find tree name = .ok r) : name ∈ d.paths.map (·.1) := by
  unfold find at h
  split at h
  · cases h
  · exact mem_of_lookup (by assumption)

/-- A pool that reads the files as they are in `tree`. -/
def toPool (d : Directory) (tree : FileTree) : Pool :=
  { Pool.ofFind (d.paths.map (·.1)) (d.find tree) fun _ _ h => known_of_find h with
    contains := fun name => (d.paths.lookup name).isSome }

end Directory

end Bundler
