import Bundler.Codec
import Bundler.Toml.Parser

/-!
# Build configurations

The options of a build and the definitions of the bundles to build, each of which needs a name.
`Config.ofToml` reads them from a configuration text.
-/

namespace Bundler

structure Config where
  options : Options := {}
  bundles : List Definition := []
  deriving Inhabited

inductive ConfigError where
  | malformed
  /-- The bundle at this index has no name. -/
  | unnamed (index : Nat)
  deriving DecidableEq, Repr

namespace ConfigError

def message : ConfigError → String
  | .malformed => "Failed to parse configuration"
  | .unnamed index => s!"Bundle #{index} has no name"

end ConfigError

namespace Config

def fieldNames : List String := ["options", "bundles"]

def decode (dialect : Dialect) : Decoder Config :=
  Decoder.record dialect fieldNames fun depth fields =>
    match fields with
    | [options, bundles] => do
      return {
        options := ← Decoder.field (Options.decode dialect) {} depth options
        bundles := ← Decoder.field (Decoder.list (Definition.decode dialect)) [] depth bundles }
    | _ => none

def toJson (c : Config) : Json :=
  Json.record fieldNames [c.options.toJson, .array (c.bundles.map Definition.toJson)]

/-- The index of the first bundle without a name. -/
def unnamed? (c : Config) : Option Nat := c.bundles.findIdx? fun b => b.name.isEmpty

/-- The configuration that a text spells. Its tables nest no deeper than it is long. -/
def ofToml (text : String) : Except ConfigError Config :=
  match Toml.parse text >>= decode .toml (text.length + 1) with
  | none => .error .malformed
  | some c =>
    match c.unnamed? with
    | some index => .error (.unnamed index)
    | none => .ok c

end Config

end Bundler
