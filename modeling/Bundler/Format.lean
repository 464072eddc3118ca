import Bundler.Json.Printer
import Bundler.Name
import Bundler.Writer

/-!
# Formats of bundles

The two generations of the run-time loader are addressed in two formats. They differ in how modules
are registered and in which modules make a bundle one that boots the runtime.
-/

namespace Bundler

inductive Format where
  | legacy
  | modern
  deriving DecidableEq, Repr, Inhabited

/-- The loader whose presence in a pool selects the modern format. -/
def loaderModule : String := "ui5loader.js"

def loaderAutoconfigModule : String := "ui5loader-autoconfig.js"

/-- The bootstrap of the global legacy interface. -/
def globalBootstrapModule : String := "jquery.sap.global.js"

/-- A bundle that executes this module starts the boot sequence. -/
def coreModule : String := "sap/ui/core/Core.js"

namespace Format

def label : Format → String
  | .legacy => "Legacy"
  | .modern => "Modern"

/-- What opens a section of registered modules. -/
def beforePreloads (f : Format) (name : Option String) (w : Writer) : Writer :=
  match f with
  | .modern => w.writeLine ["sap.ui.require.preload(\x7b"]
  | .legacy =>
    let w := w.writeLine ["jQuery.sap.registerPreloadedModules(\x7b"]
    let w := match name with
      | some name => w.writeLine ["\"name\":", Json.quote name, ","]
      | none => w
    (w.writeLine ["\"version\":\"2.0\","]).writeLine ["\"modules\":\x7b"]

/-- What closes a section of registered modules. -/
def afterPreloads (f : Format) (name : Option String) (w : Writer) : Writer :=
  match f with
  | .legacy => w.writeLine ["\x7d\x7d);"]
  | .modern =>
    let w := w.write ["\x7d"]
    let w := match name with
      | some name => w.write [",", Json.quote name]
      | none => w
    w.writeLine [");"]

def requireSync (module : String) (w : Writer) : Writer :=
  w.writeLine ["sap.ui.requireSync(", Json.quote (Name.requireName module), ");"]

/-- The modules whose execution makes a bundle one to be marked. -/
def bootModules : Format → List String
  | .legacy => [globalBootstrapModule]
  | .modern => [loaderModule, loaderAutoconfigModule, globalBootstrapModule, coreModule]

end Format

end Bundler
