import Bundler.Resolved
import Bundler.Source

/-!
# Measured sections

The size of a bundle is the sum of what its modules contribute, of the statements that require or
announce modules, and of a flat rate for a configuration.
-/

namespace Bundler

/-- A resolved section with what each of its modules contributes. -/
structure Measured where
  definition : Section
  entries : List (String × Nat)
  deriving DecidableEq, Repr, Inhabited

namespace Measured

def mode (s : Measured) : Mode := s.definition.mode

def modules (s : Measured) : List String := s.entries.map (·.1)

/-- The sum of some sizes. -/
def total (sizes : List Nat) : Nat := sizes.foldr Nat.add 0

def size (s : Measured) : Nat := total (s.entries.map (·.2))

def requireSize (module : String) : Nat :=
  "sap.ui.requireSync(\x27\x27);".utf8ByteSize + (Name.requireName module).utf8ByteSize

/-- A quoted name and a separator. -/
def announcementSize (module : String) : Nat := module.utf8ByteSize + 3

/-- Provided modules are not emitted and so do not count. -/
def entriesOf (source : Source) (s : ResolvedSection) : Run (List (String × Nat)) :=
  match s.mode with
  | .provided => return []
  | .raw | .preload => s.modules.mapM fun module => return (module, ← source.size module)
  | .require => return s.modules.map fun module => (module, requireSize module)
  | .bundleInfo => return s.modules.map fun module => (module, announcementSize module)

def ofSection (source : Source) (s : ResolvedSection) : Run Measured :=
  return ⟨s.definition, ← entriesOf source s⟩

/-- The section with an explicit list of modules, which follows nothing any more. -/
def explicit (s : Measured) (modules : List String) : Section where
  mode := s.mode
  name := s.definition.name
  filters := modules
  sort := s.mode = .raw && s.definition.sort
  declareRawModules := s.mode = .raw && s.definition.declareRawModules

end Measured

/-- What a configuration is taken to contribute. -/
def configurationSize : Option Configuration → Nat
  | none => 0
  | some _ => 1024

end Bundler
