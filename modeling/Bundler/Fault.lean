import Bundler.Filter
import Bundler.Writer

/-!
# Faults

Why a look-up in a pool, and why the making of a bundle fails. `Fault.message` tells the whole chain
of causes.
-/

namespace Bundler

inductive PoolError where
  | notFound (name : String)
  /-- The file of a known resource cannot be read any more. -/
  | unreadable (name path : String)
  deriving DecidableEq, Repr, Inhabited

namespace PoolError

def message : PoolError → String
  | .notFound name => s!"resource not found: {name}"
  | .unreadable name path => s!"failed to read resource '{name}' from {path}"

/-- The message with the cause that the system gave. -/
def fullMessage : PoolError → String
  | .notFound name => message (.notFound name)
  | .unreadable name path =>
    message (.unreadable name path) ++ ": No such file or directory (os error 2)"

end PoolError

inductive Fault where
  | invalidPattern (e : InvalidPattern)
  | missingModule (name requirer : String) (cause : PoolError)
  | pool (e : PoolError)
  | writer (e : WriterError)
  | minification (module reason : String)
  | unnamedAnnouncement
  | announcedWithoutExtension (name : String)
  | unsupportedResource (module : String)
  /-- A part of a split bundle failed. -/
  | part (name : String) (cause : Fault)
  deriving DecidableEq, Repr, Inhabited

/-- What is said of a module that another one depends on and the pool lacks. -/
def missingMessage (name requirer : String) : String :=
  s!"missing module {name}, required by {requirer}"

namespace Fault

def message : Fault → String
  | .invalidPattern e => e.message
  | .missingModule name requirer cause => missingMessage name requirer ++ ": " ++ cause.message
  | .pool e => e.fullMessage
  | .writer e => e.message
  | .minification module reason => s!"Failed to minify {module}: {reason}"
  | .unnamedAnnouncement => "A bundleInfo section requires a name"
  | .announcedWithoutExtension name =>
    s!"Bundle info name {name} is missing the .js file extension"
  | .unsupportedResource module => s!"Cannot embed module {module}: unsupported resource type"
  | .part name cause => s!"Failed to build part {name}: " ++ cause.message

end Fault

end Bundler
