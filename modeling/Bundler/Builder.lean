import Bundler.Plan
import Bundler.Split

/-!
# Building bundles

A builder makes the bundles of definitions: one for each, or one for each part it is split into.
-/

namespace Bundler

structure Bundle where
  name : String
  content : String
  record : ModuleInfo
  segments : List Segment
  deriving DecidableEq, Inhabited

structure Builder where
  pool : Pool
  minifier : Option Minifier := none
  format : Format

/-- The format of the loader that the pool has. -/
def Format.ofPool (pool : Pool) : Format := if pool.contains loaderModule then .modern else .legacy

namespace Builder

def ofPool (pool : Pool) (minifier : Option Minifier) : Run Builder := do
  Run.log1 (.usingFormat (.ofPool pool))
  return { pool, minifier, format := .ofPool pool }

def source (b : Builder) (options : Options) : Source where
  pool := b.pool
  minifier := b.minifier
  optimize := options.optimize

def embedder (b : Builder) (options : Options) : Embedder where
  source := b.source options
  predefines := options.predefineCalls
  eager := options.avoidLazyParsing

/-- The bundle of a definition, all in one. -/
def build (b : Builder) (options : Options) (d : Definition) : Run Bundle := do
  let resolved ← d.resolve b.pool options.ignoreMissing
  let pieces ← resolved.pieces (b.embedder options) (resolved.decoration b.format options)
  let w ← Run.ofExcept .writer (Piece.writeAll b.format pieces)
  let record ← resolved.record b.pool
  Run.log1 (.created d.name w.length w.segments.length)
  return ⟨d.name, w.text, { record with size := some w.length }, w.segments⟩

def buildPart (b : Builder) (options : Options) (part : Definition) : Run Bundle :=
  (b.build options part).explain (.part part.name)

/-- The bundles of the parts of a split definition. Several parts are built independently of one
another, so that none of them has a place in the log. -/
def buildParts (b : Builder) (options : Options) (parts : List Definition) : Run (List Bundle) :=
  match parts with
  | [part] => return [← b.buildPart options part]
  | parts => parts.mapM fun part => (b.buildPart options part).silent

/-- The bundles of a definition: itself, or its parts if more than one is asked for. -/
def create (b : Builder) (options : Options) (d : Definition) : Run (List Bundle) := do
  if options.numberOfParts ≤ 1 then return [← b.build options d]
  b.buildParts options
    (← d.split (b.source options) options.ignoreMissing options.numberOfParts)

end Builder

end Bundler
