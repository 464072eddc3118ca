import Bundler.Text.Basic
import Bundler.Width

/-!
# The command line

`Command.parse` reads the arguments of the program. An option that takes a value has it attached
(`--parts=2`, `-cfile`) or as the next argument, which must not look like an option itself. Arguments
are judged from left to right, and the first that is wrong or asks for help ends the reading.
-/

namespace Bundler

structure Command where
  config : String
  pool : String
  output : String
  parts : Option Nat
  optimize : Bool
  verbosity : Nat
  deriving DecidableEq, Repr

namespace Command

/-- An option that takes a value. -/
inductive Setting where
  | config
  | pool
  | output
  | parts
  deriving DecidableEq, Repr

/-- An option without a value. -/
inductive Switch where
  | optimize
  | verbose
  | help
  | version
  deriving DecidableEq, Repr

inductive Flag where
  | setting (s : Setting)
  | switch (s : Switch)
  deriving DecidableEq, Repr

namespace Setting

def name : Setting → String
  | .config => "--config"
  | .pool => "--pool"
  | .output => "--output"
  | .parts => "--parts"

end Setting

namespace Flag

def ofLong? : String → Option Flag
  | "config" => some (.setting .config)
  | "pool" => some (.setting .pool)
  | "output" => some (.setting .output)
  | "parts" => some (.setting .parts)
  | "optimize" => some (.switch .optimize)
  | "verbose" => some (.switch .verbose)
  | "help" => some (.switch .help)
  | "version" => some (.switch .version)
  | _ => none

def ofShort? : Char → Option Flag
  | 'c' => some (.setting .config)
  | 'p' => some (.setting .pool)
  | 'o' => some (.setting .output)
  | 'v' => some (.switch .verbose)
  | 'h' => some (.switch .help)
  | 'V' => some (.switch .version)
  | _ => none

end Flag

inductive UsageError where
  | unexpected (argument : String)
  | repeated (option : String)
  | withoutValue (option : String)
  | withValue (option : String)
  | invalidValue (option value : String)
  | absent (option : String)
  deriving DecidableEq, Repr

namespace UsageError

def message : UsageError → String
  | .unexpected argument => s!"unexpected argument '{argument}' found"
  | .repeated option => s!"the argument '{option}' cannot be used multiple times"
  | .withoutValue option => s!"a value is required for '{option}' but none was supplied"
  | .withValue option => s!"unexpected value for '{option}' found"
  | .invalidValue option value => s!"invalid value '{value}' for '{option}'"
  | .absent option => s!"the required argument '{option}' was not provided"

end UsageError

/-- Why there is no command to run. -/
inductive Ending where
  | help
  | version
  | usage (e : UsageError)
  deriving DecidableEq, Repr

def Ending.exitCode : Ending → Nat
  | .help | .version => 0
  | .usage _ => 2

/-- The options given so far. -/
structure Given where
  config : Option String := none
  pool : Option String := none
  output : Option String := none
  parts : Option Nat := none
  optimize : Bool := false
  verbosity : Nat := 0

/-- A number of 64 bits, possibly with a plus sign in front. -/
def number? (value : String) : Option Nat :=
  let digits := match value.toList with
    | '+' :: rest => rest
    | s => s
  if digits.isEmpty || !digits.all Char.isDigit then none
  else
    let n := digits.foldl (fun n c => n * 10 + (c.toNat - 48)) 0
    if n < limit64 then some n else none

namespace Given

def assign {α : Type} (s : Setting) (value : String) (old : Option α) (new : Option α) :
    Except Ending (Option α) :=
  match old, new with
  | some _, _ => .error (.usage (.repeated s.name))
  | none, none => .error (.usage (.invalidValue s.name value))
  | none, some a => .ok (some a)

def path? (value : String) : Option String := if value.isEmpty then none else some value

def set (g : Given) (s : Setting) (value : String) : Except Ending Given :=
  match s with
  | .config => return { g with config := ← assign s value g.config (path? value) }
  | .pool => return { g with pool := ← assign s value g.pool (path? value) }
  | .output => return { g with output := ← assign s value g.output (path? value) }
  | .parts => return { g with parts := ← assign s value g.parts (number? value) }

def turn (g : Given) : Switch → Except Ending Given
  | .help => .error .help
  | .version => .error .version
  | .verbose => .ok { g with verbosity := g.verbosity + 1 }
  | .optimize =>
    if g.optimize then .error (.usage (.repeated "--optimize")) else .ok { g with optimize := true }

def require (s : Setting) (value : Option String) : Except Ending String :=
  match value with
  | some value => .ok value
  | none => .error (.usage (.absent s.name))

def complete (g : Given) : Except Ending Command :=
  return {
    config := ← require .config g.config
    pool := ← require .pool g.pool
    output := ← require .output g.output
    parts := g.parts
    optimize := g.optimize
    verbosity := g.verbosity }

/-- Reads options given by their letters, until one takes what follows as its value. An option whose
value is to be the next argument is returned. -/
def readLetters (g : Given) (argument : String) : List Char → Except Ending (Given × Option Setting)
  | [] => .ok (g, none)
  | c :: rest =>
    match Flag.ofShort? c with
    | none => .error (.usage (.unexpected argument))
    | some (.switch s) => do (← g.turn s).readLetters argument rest
    | some (.setting s) =>
      match rest with
      | [] => .ok (g, some s)
      | '=' :: value => return (← g.set s (String.ofList value), none)
      | value => return (← g.set s (String.ofList value), none)

/-- Reads an option given by its name, possibly with a value after an equals sign. -/
def readName (g : Given) (argument : String) (s : List Char) :
    Except Ending (Given × Option Setting) :=
  let name := String.ofList (s.takeWhile (· != '='))
  let attached := match s.dropWhile (· != '=') with
    | [] => none
    | _ :: value => some (String.ofList value)
  match Flag.ofLong? name, attached with
  | none, _ => .error (.usage (.unexpected argument))
  | some (.switch s), none => return (← g.turn s, none)
  | some (.switch _), some _ => .error (.usage (.withValue argument))
  | some (.setting s), none => return (g, some s)
  | some (.setting s), some value => return (← g.set s value, none)

/-- Whether an argument may be the value of the option before it. -/
def isValue (argument : String) : Bool := argument = "-" || !argument.startsWith "-"

/-- Reads the arguments, where the first may be due as the value of an option. -/
def read (g : Given) (due : Option Setting) : List String → Except Ending Given
  | [] =>
    match due with
    | some s => .error (.usage (.withoutValue s.name))
    | none => .ok g
  | argument :: rest =>
    match due with
    | some s =>
      if isValue argument then do (← g.set s argument).read none rest
      else .error (.usage (.withoutValue s.name))
    | none =>
      match argument.toList with
      | ['-', '-'] =>
        match rest with
        | [] => .ok g
        | extra :: _ => .error (.usage (.unexpected extra))
      | '-' :: '-' :: s => do
        let (g, due) ← g.readName argument s
        g.read due rest
      | '-' :: c :: s => do
        let (g, due) ← g.readLetters argument (c :: s)
        g.read due rest
      | _ => .error (.usage (.unexpected argument))

end Given

def parse (arguments : List String) : Except Ending Command := do
  (← Given.read {} none arguments).complete

end Command

end Bundler
