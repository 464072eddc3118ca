import Bundler.Fault
import Bundler.ModuleInfo
import Bundler.Text.Utf8

/-!
# Pools

A pool finds resources by name. `findable` bounds what it can find, so that following references
through a pool comes to an end.
-/

namespace Bundler

structure Resource where
  name : String
  path : Option String := none
  content : List UInt8
  info : Option ModuleInfo := none
  deriving Inhabited

namespace Resource

/-- The content as UTF-8 text, with replacement characters for what is none. -/
def text (r : Resource) : String := Utf8.decode r.content

/-- The content as ISO-8859-1 text, the encoding of properties files. -/
def latin1Text (r : Resource) : String := Latin1.decode r.content

def size (r : Resource) : Nat := r.content.length

end Resource

structure Pool where
  /-- All known resources, in a stable order. -/
  names : List String
  find : String → Except PoolError Resource
  findWithInfo : String → Except PoolError Resource
  info : String → Except PoolError ModuleInfo
  contains : String → Bool
  findable : List String
  mem_findable : ∀ name r, findWithInfo name = .ok r → name ∈ findable

namespace Pool

/-- What is found gets an empty record if it carries none. -/
def describe (name : String) (found : Except PoolError Resource) : Except PoolError Resource :=
  found.map fun r => { r with info := some (r.info.getD { name }) }

def recordOf (name : String) (found : Except PoolError Resource) : Except PoolError ModuleInfo :=
  found.map fun r => r.info.getD { name }

theorem ok_of_describe {name : String} {found : Except PoolError Resource} {r : Resource}
    (h : describe name found = .ok r) : ∃ r', found = .ok r' := by
  cases found with
  | error e => simp [describe, Except.map] at h
  | ok r' => exact ⟨r', rfl⟩

/-- The pool of a look-up that knows the given names. -/
def ofFind (names : List String) (find : String → Except PoolError Resource)
    (known : ∀ name r, find name = .ok r → name ∈ names) : Pool where
  names := names
  find := find
  findWithInfo name := describe name (find name)
  info name := recordOf name (describe name (find name))
  contains name := (find name).isOk
  findable := names
  mem_findable name _ h := let ⟨r, hr⟩ := ok_of_describe h; known name r hr

def findIn (resources : List Resource) (name : String) : Except PoolError Resource :=
  match resources.find? fun r => r.name = name with
  | some r => .ok r
  | none => .error (.notFound name)

theorem mem_of_findIn {resources : List Resource} {name : String} {r : Resource}
    (h : findIn resources name = .ok r) : name ∈ resources.map (·.name) := by
  unfold findIn at h
  split at h
  · rename_i found hf
    have hm := List.mem_of_find?_eq_some hf
    have hn : found.name = name := by simpa using List.find?_some hf
    exact hn ▸ List.mem_map_of_mem hm
  · cases h

/-- A pool over a list of resources as they are. -/
def ofResources (resources : List Resource) : Pool :=
  ofFind (resources.map (·.name)) (findIn resources) fun _ _ h => mem_of_findIn h

/-- The ways to look something up in a pool. -/
inductive Lookup where
  | plain
  | withInfo
  | record
  deriving DecidableEq, Repr

def findUnless (hidden : Bool) (resources : List Resource) (name : String) :
    Except PoolError Resource :=
  if hidden then .error (.notFound name) else findIn resources name

theorem mem_of_findUnless {hidden : Bool} {resources : List Resource} {name : String} {r : Resource}
    (h : findUnless hidden resources name = .ok r) : name ∈ resources.map (·.name) := by
  unfold findUnless at h
  split at h
  · cases h
  · exact mem_of_findIn h

/-- A pool whose ways to look something up answer independently: each misses the names hidden from
it, and resources are found as they are, with or without a record. -/
def ofHidden (resources : List Resource) (hides : Lookup → String → Bool) : Pool where
  names := resources.map (·.name)
  find name := findUnless (hides .plain name) resources name
  findWithInfo name := findUnless (hides .withInfo name) resources name
  info name := recordOf name (findUnless (hides .record name) resources name)
  contains name := (findUnless (hides .plain name) resources name).isOk
  findable := resources.map (·.name)
  mem_findable _ _ h := mem_of_findUnless h

end Pool

/-! ## Pools in memory -/

/-- Resources in order of their addition. -/
structure MemoryPool where
  resources : List Resource := []
  deriving Inhabited

namespace MemoryPool

def replaceOrAppend (r : Resource) : List Resource → List Resource
  | [] => [r]
  | s :: rest => if s.name = r.name then r :: rest else s :: replaceOrAppend r rest

/-- A resource of the same name is replaced at its place. A resource without a record gets an empty
one. -/
def add (p : MemoryPool) (r : Resource) : MemoryPool :=
  ⟨replaceOrAppend { r with info := some (r.info.getD { name := r.name }) } p.resources⟩

def addModule (p : MemoryPool) (info : ModuleInfo) (content : String) : MemoryPool :=
  p.add { name := info.name, content := Utf8.encode content, info := some info }

def ofResources (resources : List Resource) : MemoryPool := resources.foldl add {}

def toPool (p : MemoryPool) : Pool := Pool.ofResources p.resources

end MemoryPool

end Bundler
