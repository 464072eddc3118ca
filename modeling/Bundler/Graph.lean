import Bundler.NameSet
import Bundler.Pool
import Bundler.Run

/-!
# Graphs of modules

A `ModuleGraph` records which of its modules depend on which. `ModuleGraph.layout` puts them into
load order: again and again the earliest module with no dependency left is taken out. Modules on a
cycle, and those that depend on one, never become free and are left over in the order of addition.
-/

namespace Bundler

structure Dependency where
  dependent : String
  dependency : String
  deriving DecidableEq, Repr

structure ModuleGraph where
  /-- In order of their addition. -/
  modules : NameSet := ∅
  dependencies : List Dependency := []
  nodup : dependencies.Nodup := by simp
  known : ∀ d ∈ dependencies, d.dependent ∈ modules ∧ d.dependency ∈ modules := by simp
  irreflexive : ∀ d ∈ dependencies, d.dependent ≠ d.dependency := by simp

namespace ModuleGraph

def empty : ModuleGraph := {}

def index? (g : ModuleGraph) (name : String) : Option Nat := g.modules.names.idxOf? name

def addModule (g : ModuleGraph) (name : String) : ModuleGraph where
  modules := g.modules.insert name
  dependencies := g.dependencies
  nodup := g.nodup
  known d hd :=
    ⟨NameSet.mem_insert.2 (.inl (g.known d hd).1), NameSet.mem_insert.2 (.inl (g.known d hd).2)⟩
  irreflexive := g.irreflexive

/-- What may be recorded: both modules are known and differ, and it is not recorded yet. -/
def Admits (g : ModuleGraph) (d : Dependency) : Prop :=
  d.dependent ≠ d.dependency ∧ d.dependent ∈ g.modules ∧ d.dependency ∈ g.modules ∧
    d ∉ g.dependencies

instance (g : ModuleGraph) (d : Dependency) : Decidable (g.Admits d) := by
  unfold Admits
  infer_instance

def insert (g : ModuleGraph) (d : Dependency) (h : g.Admits d) : ModuleGraph where
  modules := g.modules
  dependencies := d :: g.dependencies
  nodup := List.nodup_cons.2 ⟨h.2.2.2, g.nodup⟩
  known e he := (List.mem_cons.1 he).elim (fun e => e ▸ ⟨h.2.1, h.2.2.1⟩) (g.known e)
  irreflexive e he := (List.mem_cons.1 he).elim (fun e => e ▸ h.1) (g.irreflexive e)

def addDependency (g : ModuleGraph) (dependent dependency : String) : ModuleGraph :=
  if h : g.Admits ⟨dependent, dependency⟩ then g.insert ⟨dependent, dependency⟩ h else g

/-! ## Load order -/

/-- A module that is not laid out yet, with the number of its dependencies that are not either. -/
structure Pending where
  module : String
  missing : Nat
  deriving DecidableEq, Repr

def missing (g : ModuleGraph) (name : String) : Nat :=
  g.dependencies.countP fun d => d.dependent = name

def dependents (g : ModuleGraph) (name : String) : List String :=
  g.dependencies.filterMap fun d => if d.dependency = name then some d.dependent else none

def pending (g : ModuleGraph) : List Pending :=
  g.modules.names.map fun name => ⟨name, g.missing name⟩

namespace Pending

def isFree (p : Pending) : Bool := p.missing == 0

/-- A module that these depend on has been laid out. -/
def settle (dependents : List String) (p : Pending) : Pending :=
  if p.module ∈ dependents then { p with missing := p.missing - 1 } else p

end Pending

structure Layout where
  sorted : List String
  /-- What cannot be sorted. -/
  cyclic : List String
  deriving DecidableEq, Repr

def Layout.modules (l : Layout) : List String := l.sorted ++ l.cyclic

theorem length_eraseP_lt {ps : List Pending} {p : Pending} (h : ps.find? Pending.isFree = some p) :
    (ps.eraseP Pending.isFree).length < ps.length := by
  have hm := List.mem_of_find?_eq_some h
  rw [List.length_eraseP_of_mem hm (List.find?_some h)]
  have := List.length_pos_of_mem hm
  omega

def layoutOf (g : ModuleGraph) (ps : List Pending) : Layout :=
  match h : ps.find? Pending.isFree with
  | none => ⟨[], ps.map (·.module)⟩
  | some p =>
    have := length_eraseP_lt h
    let dependents := g.dependents p.module
    let rest := g.layoutOf ((ps.eraseP Pending.isFree).map (Pending.settle dependents))
    ⟨p.module :: rest.sorted, rest.cyclic⟩
termination_by ps.length
decreasing_by simpa using this

def layout (g : ModuleGraph) : Layout := g.layoutOf g.pending

/-- The modules in load order; the log tells which could not be sorted. -/
def loadOrder (g : ModuleGraph) : Run (List String) := do
  if !g.layout.cyclic.isEmpty then Run.log1 (.cyclic g.layout.cyclic)
  return g.layout.modules

/-! ## Graphs over a pool -/

def addRecorded (pool : Pool) (g : ModuleGraph) (name : String) : Run ModuleGraph :=
  match pool.info name with
  | .ok info =>
    return info.dependencies.names.foldl
      (fun g dependency => g.addDependency name (Name.resourceName dependency)) g
  | .error (.notFound _) => do
    Run.log1 (.noMetadata name)
    return g
  | .error e => Run.fail (.pool e)

/-- The graph of some modules with their dependencies on one another. -/
def ofPool (pool : Pool) (names : List String) : Run ModuleGraph :=
  names.foldlM (addRecorded pool) (names.foldl addModule empty)

end ModuleGraph

end Bundler
