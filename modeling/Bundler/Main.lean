import Bundler.Program

/-!
# Running the program

Loads the files that a command needs, executes it and writes what it has made. Everything that is
decided is decided by `Command.parse` and `Command.execute`.
-/

namespace Bundler.Program

def usage : String :=
  "Usage: bundler --config <CONFIG> --pool <POOL> --output <OUTPUT> [--parts <PARTS>] " ++
    "[--optimize] [-v...]"

def loadFile (tree : FileTree) (path name : String) : IO FileTree :=
  try
    return tree.insert name (← IO.FS.readBinFile path).data.toList
  catch _ => return tree

def loadPool (tree : FileTree) (root : String) : IO FileTree :=
  try
    let real ← IO.FS.realPath root
    if ← real.isDir then
      let mut tree := { tree with directories := Path.normalize root :: tree.directories }
      for path in ← real.walkDir do
        unless ← path.isDir do
          let below := (path.toString.drop (real.toString.length + 1)).toString
          tree ← loadFile tree path.toString (Path.join root below)
      return tree
    else loadFile tree root root
  catch _ => return tree

def isShown (verbosity : Nat) (e : Event) : Bool :=
  match e.level with
  | .error | .warn => true
  | .info => 1 ≤ verbosity
  | .debug => 2 ≤ verbosity
  | .trace => 3 ≤ verbosity

def store (file : String × String) : IO Unit := do
  IO.FS.createDirAll (Path.parent file.1)
  IO.FS.writeFile file.1 file.2

def runCommand (c : Command) : IO UInt32 := do
  let x := c.execute (← loadPool (← loadFile {} c.config c.config) c.pool)
  for e in x.log do
    if isShown c.verbosity e then IO.eprintln s!"{e.level.label} {e.message}"
  for file in x.written do
    try store file
    catch e =>
      IO.eprintln s!"Error: Failed to write bundle {file.1}: {e}"
      return 1
  if let some f := x.failure then IO.eprintln s!"Error: {f.message}"
  return UInt32.ofNat x.exitCode

def run (arguments : List String) : IO UInt32 :=
  match Command.parse arguments with
  | .ok c => runCommand c
  | .error ending => do
    match ending with
    | .help => IO.println usage
    | .version => IO.println "bundler"
    | .usage e => IO.eprintln s!"error: {e.message}\n\n{usage}"
    return UInt32.ofNat ending.exitCode

end Bundler.Program

def main (arguments : List String) : IO UInt32 := Bundler.Program.run arguments
