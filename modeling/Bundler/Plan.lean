import Bundler.Json.Document
import Bundler.Options
import Bundler.Piece
import Bundler.Predefine
import Bundler.Resolved
import Bundler.Source

/-!
# Plans

A plan turns a resolved definition into the pieces of its bundle. The declarations of raw modules
are put off until the legacy interface is used or has just been loaded, and to the end at the latest.
-/

namespace Bundler

/-- How modules are embedded. -/
structure Embedder where
  source : Source
  /-- Registrations become predefinitions where they can. -/
  predefines : Bool
  eager : Bool

namespace Embedder

/-- The module as a predefinition, if it is to be one and can be. -/
def predefine? (e : Embedder) (module : String) : Run (Option Piece) := do
  if e.predefines && ResourceKind.ofName module = .script then
    match e.source.pool.find module with
    | .error cause => do
      Run.log1 (.notRewritten module cause)
      return none
    | .ok r =>
      match Predefinition.ofScript module (← e.source.script module r) e.eager with
      | .ok p =>
        Run.log1 (.rewritten module)
        return some (.predefine module p.code)
      | .error .malformed =>
        Run.log1 (.malformedScript module)
        return none
      | .error .noRegistration => return none
  else return none

/-- JSON without formatting; what is no JSON stays as it is. -/
def normalize (module text : String) : Run String :=
  match Json.parse text with
  | some value => return value.text
  | none => do
    Run.log1 (.malformedJson module)
    return text

def embedScript (e : Embedder) (module : String) (r : Resource) : Run Embedding := do
  let script ← e.source.script module r
  let info := r.info.getD { name := module }
  if info.requiresTopLevelScope then
    Run.log1 (.topLevelScope module)
    return .literal script
  else return .function script info.exposedGlobals e.eager

def embed (e : Embedder) (module : String) (r : Resource) : Run Embedding :=
  match ResourceKind.ofName module with
  | .script => e.embedScript module r
  | .properties => return .literal (Literal.properties r.latin1Text)
  | .json => return .literal (← if e.source.optimize then normalize module r.text else pure r.text)
  | .markup => return .literal (e.source.markup r)
  | .text => return .literal r.text
  | .unknown => Run.fail (.unsupportedResource module)

/-- The entry of a preloaded module; one that cannot be found or embedded is left out. -/
def entry? (e : Embedder) (module : String) : Run (Option Entry) :=
  match e.source.pool.findWithInfo module with
  | .error cause => do
    Run.log1 (.notEmbedded module cause)
    return none
  | .ok r =>
    if ResourceKind.ofName module = .unknown then do
      Run.log1 (.unsupported module)
      return none
    else return some ⟨module, ← e.embed module r⟩

end Embedder

/-- Pieces in order, and the raw modules that are still to be declared. -/
structure Plan where
  pieces : List Piece := []
  undeclared : List String := []

namespace Plan

def add (p : Plan) (pieces : List Piece) : Plan := { p with pieces := p.pieces ++ pieces }

/-- Catches up on the declarations. -/
def declare (p : Plan) : Plan := ⟨p.pieces ++ p.undeclared.map .declaration, []⟩

def declareIf (p : Plan) (condition : Bool) : Plan := if condition then p.declare else p

/-- A script with this in it may rely on what has been loaded being declared. -/
def usesLegacyInterface (code : String) : Bool :=
  Text.hasInfix "jQuery.sap.".toList code.toList

def await (p : Plan) (module : String) (declares : Bool) : Plan :=
  if declares then { p with undeclared := p.undeclared ++ [module] } else p

def addRaw (p : Plan) (module code : String) (declares : Bool) : Plan :=
  let before := p.declareIf (usesLegacyInterface code)
  ((before.add [.raw module code]).await module declares).declareIf
    (module == globalBootstrapModule)

def raw (e : Embedder) (declares : Bool) (p : Plan) (module : String) : Run Plan :=
  match e.source.pool.find module with
  | .error cause => do
    Run.log1 (.rawNotEmbedded module cause)
    return p
  | .ok r => return p.addRaw module (← e.source.script module r) declares

/-- A preload section: predefinitions first, then what is left as one registration. -/
def preload (e : Embedder) (p : Plan) (s : ResolvedSection) : Run Plan := do
  let modules := s.modules.mergeSort fun a b => a ≤ b
  let tried ← modules.mapM fun module => return (module, ← e.predefine? module)
  let p := p.add (tried.filterMap (·.2))
  let remaining := (tried.filter (·.2.isNone)).map (·.1)
  if remaining.isEmpty then return p
  return p.add [.preloads s.name ((← remaining.mapM e.entry?).filterMap id)]

def bundleInfo (p : Plan) (s : ResolvedSection) : Run Plan :=
  match s.name with
  | none => Run.fail .unnamedAnnouncement
  | some name =>
    if (Text.before? Name.scriptExtension name.toList).isSome then
      return p.add [.announcement name s.modules]
    else Run.fail (.announcedWithoutExtension name)

def addSection (e : Embedder) (p : Plan) (s : ResolvedSection) : Run Plan :=
  match s.mode with
  | .provided => return p
  | .raw => s.modules.foldlM (raw e s.definition.declareRawModules) p
  | .preload => p.preload e s
  | .bundleInfo => p.bundleInfo s
  | .require => return p.add (s.modules.map .require)

end Plan

/-- Whether bundles are marked as optimized and enclosed. -/
structure Decoration where
  marked : Bool
  enclosed : Bool
  deriving DecidableEq, Repr

namespace Resolved

/-- Only what is optimized and boots the runtime is marked. -/
def decoration (r : Resolved) (format : Format) (options : Options) : Decoration :=
  let marked := options.decorateBootstrap &&
    ((options.optimizedSources && !options.debug) || options.optimize) && r.boots format
  ⟨marked, marked && options.restartWrapper⟩

/-- What comes before the sections. -/
def opening (r : Resolved) (d : Decoration) : List Piece :=
  (if d.marked then [.optimizedMark] else []) ++ (if d.enclosed then [.tryOpening] else []) ++
    (r.definition.configuration.map .configuration).toList

/-- What comes after the sections and the last declarations. -/
def closing (r : Resolved) (d : Decoration) : List Piece :=
  (if r.containsCore then [.boot] else []) ++ (if d.enclosed then [.tryClosing] else [])

/-- The pieces of the bundle. -/
def pieces (r : Resolved) (e : Embedder) (d : Decoration) : Run (List Piece) := do
  let p ← r.sections.foldlM (Plan.addSection e) { pieces := r.opening d }
  return (p.declare.add (r.closing d)).pieces

end Resolved

end Bundler
