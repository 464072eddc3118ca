import Bundler.Json.Basic

/-!
# Definitions of bundles

A definition names a bundle and lists its sections; the mode of a section decides what becomes of
the modules that its filters pick.
-/

namespace Bundler

inductive Mode where
  /-- Available at run time already: kept out of later sections and never emitted. -/
  | provided
  /-- Concatenated as they are. -/
  | raw
  /-- Embedded to be executed when they are required. -/
  | preload
  /-- Announced as contained in another bundle. -/
  | bundleInfo
  /-- Required at the end of the bundle. -/
  | require
  deriving DecidableEq, Repr, Inhabited

namespace Mode

def label : Mode → String
  | .provided => "provided"
  | .raw => "raw"
  | .preload => "preload"
  | .bundleInfo => "bundleInfo"
  | .require => "require"

def ofLabel? (label : String) : Option Mode :=
  if label = "bundle-info" then some .bundleInfo
  else [provided, raw, preload, bundleInfo, require].find? fun m => m.label = label

end Mode

structure Section where
  mode : Mode := .preload
  name : Option String := none
  filters : List String := []
  /-- Follow dependencies. -/
  resolve : Bool := false
  /-- Follow conditional dependencies too. -/
  resolveConditional : Bool := false
  /-- Take the renderer beside each module. -/
  renderer : Bool := false
  /-- Put the modules of a raw section into load order. -/
  sort : Bool := false
  declareRawModules : Bool := false
  deriving DecidableEq, Repr, Inhabited

namespace Section

def ofFilters (mode : Mode) (filters : List String) : Section := { mode, filters }

def named (s : Section) (name : String) : Section := { s with name := some name }

def resolving (s : Section) : Section := { s with resolve := true }

def resolvingConditional (s : Section) : Section :=
  { s with resolve := true, resolveConditional := true }

def withRenderers (s : Section) : Section := { s with renderer := true }

def sorted (s : Section) : Section := { s with sort := true }

def declaringRawModules (s : Section) : Section := { s with declareRawModules := true }

end Section

/-- Settings emitted before any module executes: properties of the global configuration and the
addresses of namespaces. -/
structure Configuration where
  properties : List (String × Json) := []
  resourceRoots : List (String × String) := []
  deriving Inhabited

structure Definition where
  name : String := ""
  configuration : Option Configuration := none
  sections : List Section := []
  deriving Inhabited

namespace Definition

def withSection (d : Definition) (s : Section) : Definition :=
  { d with sections := d.sections ++ [s] }

def withConfiguration (d : Definition) (c : Configuration) : Definition :=
  { d with configuration := some c }

end Definition

end Bundler
