import Bundler.Kind
import Bundler.Literal
import Bundler.Markup
import Bundler.Minifier
import Bundler.Pool
import Bundler.Run

/-!
# Sources

A source is the pool that a bundle takes its modules from, with the minifier that shortens their
scripts. `Source.size` estimates what a module contributes to a bundle.
-/

namespace Bundler

structure Source where
  pool : Pool
  minifier : Option Minifier := none
  optimize : Bool := false

/-- The recorded size after compression. It tells nothing where it is the size before. -/
def ModuleInfo.packedSize? (info : ModuleInfo) : Option Nat :=
  info.compressedSize.filter fun size => info.size ≠ some size

namespace Source

/-- The minifier, if scripts are to be minified. -/
def shortener? (s : Source) : Option Minifier := if s.optimize then s.minifier else none

/-- The script of a module as it is embedded. -/
def script (s : Source) (module : String) (r : Resource) : Run String :=
  match s.shortener? with
  | some minify => Run.ofExcept (.minification module) (minify module r.text)
  | none => return r.text

def markup (s : Source) (r : Resource) : String :=
  if s.optimize then Markup.minify r.text else r.text

/-- The bytes of a resource as it is embedded, before it becomes a literal. Where nothing is
shortened these are the bytes of its content, whether they are text or not. -/
def contentSize (s : Source) (module : String) (r : Resource) : Run Nat :=
  match ResourceKind.ofName module with
  | .script =>
    match s.shortener? with
    | some _ => return (← s.script module r).utf8ByteSize
    | none => return r.size
  | .properties => return (Literal.properties r.latin1Text).utf8ByteSize
  | .markup => return if s.optimize then (s.markup r).utf8ByteSize else r.size
  | _ => return r.size

/-- The estimated size of a module in a bundle; what cannot be found counts as empty. -/
def size (s : Source) (module : String) : Run Nat :=
  match s.pool.findWithInfo module with
  | .error cause => do
    Run.log1 (.unmeasured module cause)
    return 0
  | .ok r =>
    match r.info.bind ModuleInfo.packedSize? with
    | some size => return size
    | none => s.contentSize module r

end Source

end Bundler
