import Bundler.Builder
import Bundler.Command
import Bundler.Config
import Bundler.Directory

/-!
# The program

A command builds the bundles of a configuration file from the resources of a directory, one
definition after the other, and writes each below the output directory. Bundles that are written
before a failure stay.
-/

namespace Bundler

/-- Why a command fails. -/
inductive Failure where
  | unreadableConfig (path : String)
  | invalidConfig (path : String) (e : ConfigError)
  | unopenedPool (root : String) (e : ScanError)
  | unbuilt (bundle : String) (e : Fault)
  | unwritten (path : String)
  deriving DecidableEq, Repr

namespace Failure

def message : Failure → String
  | .unreadableConfig path => s!"Failed to read configuration {path}"
  | .invalidConfig path e => s!"Invalid configuration {path}: " ++ e.message
  | .unopenedPool root e => s!"Failed to open resource pool {root}: " ++ e.message
  | .unbuilt bundle e => s!"Failed to build bundle {bundle}: " ++ e.message
  | .unwritten path => s!"Failed to write bundle {path}"

end Failure

/-- What a command has done so far. -/
structure Execution where
  tree : FileTree
  /-- The files written, in order, with their content. -/
  written : List (String × String) := []
  log : List Event := []
  failure : Option Failure := none
  deriving Inhabited

namespace Execution

def fail (x : Execution) (f : Failure) : Execution := { x with failure := some f }

def exitCode (x : Execution) : Nat := if x.failure.isNone then 0 else 1

def write (output : String) (x : Execution) (b : Bundle) : Execution :=
  let path := Path.join output b.name
  match x.failure, x.tree.write? path (Utf8.encode b.content) with
  | some _, _ => x
  | none, none => x.fail (.unwritten path)
  | none, some tree =>
    { x with
      tree
      written := x.written ++ [(path, b.content)]
      log := x.log ++ [.wrote path b.content.utf8ByteSize b.record.subModules.length] }

/-- Builds and writes the bundles of a definition, from the resources as they are by then. -/
def make (d : Directory) (format : Format) (options : Options) (output : String) (x : Execution)
    (definition : Definition) : Execution :=
  match x.failure with
  | some _ => x
  | none =>
    let b : Builder := { pool := d.toPool x.tree, format }
    let r := b.create options definition
    let x := { x with log := x.log ++ r.log }
    match r.result with
    | .error e => x.fail (.unbuilt definition.name e)
    | .ok bundles => bundles.foldl (write output) x

end Execution

namespace Command

/-- The options of the configuration with those of the command line over them. -/
def override (c : Command) (options : Options) : Options :=
  { options with
    numberOfParts := c.parts.getD options.numberOfParts
    optimize := options.optimize || c.optimize }

def readConfig (c : Command) (tree : FileTree) : Except Failure Config :=
  match tree.read? c.config >>= Utf8.decode? with
  | none => .error (.unreadableConfig c.config)
  | some text => (Config.ofToml text).mapError (.invalidConfig c.config)

def openPool (c : Command) (tree : FileTree) : Except Failure Directory :=
  (Directory.scan tree c.pool).mapError (.unopenedPool c.pool)

def execute (c : Command) (tree : FileTree) : Execution :=
  match c.readConfig tree with
  | .error f => { tree, failure := some f }
  | .ok config =>
    match c.openPool tree with
    | .error f => { tree, failure := some f }
    | .ok d =>
      let pool := d.toPool tree
      let format := Format.ofPool pool
      config.bundles.foldl
        (Execution.make d format (c.override config.options) c.output)
        { tree, log := [d.opened, .usingFormat format] }

end Command

end Bundler
