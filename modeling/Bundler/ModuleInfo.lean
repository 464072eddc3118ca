import Bundler.Name
import Bundler.NameSet

/-!
# Records of modules

`ModuleInfo` says what a module depends on and embeds. The record of a bundle is built by
`addDependency` and `addSubModule`, which keep what is embedded out of the dependencies.
-/

namespace Bundler

structure ModuleInfo where
  name : String
  dependencies : NameSet := ∅
  /-- Dependencies that are only needed under a condition. -/
  conditional : NameSet := ∅
  subModules : List String := []
  size : Option Nat := none
  compressedSize : Option Nat := none
  /-- The module must run in global scope, so no function may enclose it. -/
  requiresTopLevelScope : Bool := false
  exposedGlobals : List String := []
  /-- The module does not register itself. -/
  isRaw : Bool := false
  deriving DecidableEq, Inhabited

namespace ModuleInfo

def isConditional (info : ModuleInfo) (dependency : String) : Bool :=
  dependency ∈ info.conditional

/-- An unconditional dependency wins over a conditional one; the module itself and what it embeds
are no dependencies. -/
def addDependency (info : ModuleInfo) (dependency : String) (conditional : Bool) : ModuleInfo :=
  if dependency = info.name ∨ dependency ∈ info.subModules then info
  else
    { info with
      dependencies := info.dependencies.insert dependency
      conditional :=
        if conditional then
          if dependency ∈ info.dependencies then info.conditional
          else info.conditional.insert dependency
        else info.conditional.erase dependency }

def addGlobal (info : ModuleInfo) (name : String) : ModuleInfo :=
  if name ∈ info.exposedGlobals then info
  else { info with exposedGlobals := info.exposedGlobals ++ [name] }

/-- `name` becomes one of the embedded modules and thereby no dependency. -/
def embed (info : ModuleInfo) (name : String) : ModuleInfo :=
  { info with
    dependencies := info.dependencies.erase name
    conditional := info.conditional.erase name
    subModules := info.subModules ++ [name] }

/-- Embeds a module unless it is embedded already, with what it depends on and what it exposes.
Names are compared as resource names. -/
def addSubModule (info sub : ModuleInfo) : ModuleInfo :=
  let name := Name.resourceName sub.name
  if name ∈ info.subModules then info
  else
    let withDependencies := sub.dependencies.names.foldl
      (fun info d => info.addDependency (Name.resourceName d) (sub.isConditional d))
      (info.embed name)
    let withGlobals := sub.exposedGlobals.foldl addGlobal withDependencies
    { withGlobals with
      requiresTopLevelScope := withGlobals.requiresTopLevelScope || sub.requiresTopLevelScope }

end ModuleInfo

end Bundler
