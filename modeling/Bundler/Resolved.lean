import Bundler.Definition
import Bundler.Format
import Bundler.Pool
import Bundler.Run

/-!
# Resolved definitions

A resolved definition lists, for every section, the modules that were selected for it. `record`
gathers what the bundle embeds, depends on and exposes.
-/

namespace Bundler

structure ResolvedSection where
  definition : Section
  modules : List String
  deriving DecidableEq, Repr, Inhabited

namespace ResolvedSection

def mode (s : ResolvedSection) : Mode := s.definition.mode

def name (s : ResolvedSection) : Option String := s.definition.name

/-- Modules of raw and require sections run when the bundle is loaded; preloaded ones wait until
they are required. -/
def executes (s : ResolvedSection) : Bool := s.mode = .raw ∨ s.mode = .require

end ResolvedSection

structure Resolved where
  definition : Definition
  sections : List ResolvedSection
  deriving Inhabited

namespace Resolved

def executes (r : Resolved) (module : String) : Bool :=
  r.sections.any fun s => s.executes && s.modules.contains module

def containsCore (r : Resolved) : Bool := r.executes coreModule

def containsGlobal (r : Resolved) : Bool := r.executes globalBootstrapModule

/-- Whether the bundle boots the runtime, so that it may be marked as optimized. -/
def boots (r : Resolved) (format : Format) : Bool := format.bootModules.any r.executes

/-! ## The record of a bundle -/

/-- The record of an embedded module; one that is unknown or unnamed has the name of the module. -/
def embeddedRecord (pool : Pool) (module : String) : Run ModuleInfo :=
  match pool.info module with
  | .ok info => return if info.name.isEmpty then { info with name := module } else info
  | .error cause => do
    Run.log1 (.noMetadataOfEmbedded module cause)
    return { name := module }

def embedAll (pool : Pool) (info : ModuleInfo) (modules : List String) : Run ModuleInfo :=
  modules.foldlM (fun info module => return info.addSubModule (← embeddedRecord pool module)) info

def recordSection (pool : Pool) (info : ModuleInfo) (s : ResolvedSection) : Run ModuleInfo :=
  match s.mode with
  | .provided | .bundleInfo => return info
  | .require => return s.modules.foldl (fun info module => info.addDependency module false) info
  | .raw => embedAll pool { info with isRaw := info.isRaw || !s.modules.isEmpty } s.modules
  | .preload => embedAll pool info s.modules

/-- The record of the bundle: what raw and preload sections embed, and what require sections depend
on. -/
def record (r : Resolved) (pool : Pool) : Run ModuleInfo :=
  r.sections.foldlM (recordSection pool) { name := r.definition.name }

end Resolved

end Bundler
