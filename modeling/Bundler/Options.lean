/-!
# Options of a build
-/

namespace Bundler

structure Options where
  /-- Minify scripts, shorten markup and normalise JSON. -/
  optimize : Bool := false
  /-- Mark bundles that boot the runtime as optimized. -/
  decorateBootstrap : Bool := true
  /-- Enclose marked bundles so that a restart of the runtime can unwind them. -/
  restartWrapper : Bool := false
  predefineCalls : Bool := false
  /-- Put embedded functions in parentheses, which requests that they are compiled at once. -/
  avoidLazyParsing : Bool := false
  numberOfParts : Nat := 1
  ignoreMissing : Bool := true
  optimizedSources : Bool := false
  debug : Bool := false
  deriving DecidableEq, Repr, Inhabited

end Bundler
