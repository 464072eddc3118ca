import Bundler.Definition
import Bundler.Json.Decode
import Bundler.ModuleInfo
import Bundler.Options

/-!
# Records as documents

For each record the names of its fields, in order, with a reader and a writer. What is written reads
back as the same record.
-/

namespace Bundler

open Decoder

def Json.record (names : List String) (values : List Json) : Json := .object (names.zip values)

namespace ModuleInfo

def fieldNames : List String :=
  ["name", "dependencies", "conditionalDependencies", "subModules", "size", "compressedSize",
    "requiresTopLevelScope", "exposedGlobalNames", "rawModule"]

def nameSet : Decoder NameSet := fun depth d => (list string depth d).map NameSet.ofList

def decode (dialect : Dialect) : Decoder ModuleInfo :=
  record dialect fieldNames fun depth fields =>
    match fields with
    | [name, dependencies, conditional, subModules, size, compressed, scope, globals, raw] => do
      return {
        name := ← field string "" depth name
        dependencies := ← field nameSet ∅ depth dependencies
        conditional := ← field nameSet ∅ depth conditional
        subModules := ← field (list string) [] depth subModules
        size := ← field (option dialect nat) none depth size
        compressedSize := ← field (option dialect nat) none depth compressed
        requiresTopLevelScope := ← field bool false depth scope
        exposedGlobals := ← field (list string) [] depth globals
        isRaw := ← field bool false depth raw }
    | _ => none

def toJson (info : ModuleInfo) : Json :=
  Json.record fieldNames [.string info.name, .strings info.dependencies.names,
    .strings info.conditional.names, .strings info.subModules, .ofOption .nat info.size,
    .ofOption .nat info.compressedSize, .bool info.requiresTopLevelScope,
    .strings info.exposedGlobals, .bool info.isRaw]

end ModuleInfo

namespace Section

def fieldNames : List String :=
  ["mode", "name", "filters", "resolve", "resolve_conditional", "renderer", "sort",
    "declare_raw_modules"]

def decode (dialect : Dialect) : Decoder Section :=
  record dialect fieldNames fun depth fields =>
    match fields with
    | [mode, name, filters, resolve, conditional, renderer, sort, declare] => do
      return {
        mode := ← field (choice dialect Mode.ofLabel?) .preload depth mode
        name := ← field (option dialect string) none depth name
        filters := ← field (list string) [] depth filters
        resolve := ← field bool false depth resolve
        resolveConditional := ← field bool false depth conditional
        renderer := ← field bool false depth renderer
        sort := ← field bool false depth sort
        declareRawModules := ← field bool false depth declare }
    | _ => none

def toJson (s : Section) : Json :=
  Json.record fieldNames [.string s.mode.label, .ofOption .string s.name, .strings s.filters,
    .bool s.resolve, .bool s.resolveConditional, .bool s.renderer, .bool s.sort,
    .bool s.declareRawModules]

end Section

namespace Configuration

def fieldNames : List String := ["properties", "resource_roots"]

def decode (dialect : Dialect) : Decoder Configuration :=
  record dialect fieldNames fun depth fields =>
    match fields with
    | [properties, roots] => do
      return {
        properties := ← field (entries json) [] depth properties
        resourceRoots := ← field (entries string) [] depth roots }
    | _ => none

def toJson (c : Configuration) : Json :=
  Json.record fieldNames
    [.object c.properties, .object (c.resourceRoots.map fun (k, v) => (k, .string v))]

end Configuration

namespace Definition

def fieldNames : List String := ["name", "configuration", "sections"]

def decode (dialect : Dialect) : Decoder Definition :=
  record dialect fieldNames fun depth fields =>
    match fields with
    | [name, configuration, sections] => do
      return {
        name := ← field string "" depth name
        configuration :=
          ← field (option dialect (Configuration.decode dialect)) none depth configuration
        sections := ← field (list (Section.decode dialect)) [] depth sections }
    | _ => none

def toJson (d : Definition) : Json :=
  Json.record fieldNames [.string d.name, .ofOption Configuration.toJson d.configuration,
    .array (d.sections.map Section.toJson)]

end Definition

namespace Options

def fieldNames : List String :=
  ["optimize", "decorate_bootstrap_module", "add_try_catch_restart_wrapper", "use_predefine_calls",
    "avoid_lazy_parsing", "number_of_parts", "ignore_missing_modules",
    "optimized_sources_available", "debug_mode"]

def decode (dialect : Dialect) : Decoder Options :=
  record dialect fieldNames fun depth fields =>
    match fields with
    | [optimize, decorate, wrapper, predefine, eager, parts, ignoring, sources, debug] => do
      return {
        optimize := ← field bool false depth optimize
        decorateBootstrap := ← field bool true depth decorate
        restartWrapper := ← field bool false depth wrapper
        predefineCalls := ← field bool false depth predefine
        avoidLazyParsing := ← field bool false depth eager
        numberOfParts := ← field nat 1 depth parts
        ignoreMissing := ← field bool true depth ignoring
        optimizedSources := ← field bool false depth sources
        debug := ← field bool false depth debug }
    | _ => none

def toJson (o : Options) : Json :=
  Json.record fieldNames [.bool o.optimize, .bool o.decorateBootstrap, .bool o.restartWrapper,
    .bool o.predefineCalls, .bool o.avoidLazyParsing, .nat o.numberOfParts, .bool o.ignoreMissing,
    .bool o.optimizedSources, .bool o.debug]

end Options

end Bundler
