import Bundler.Script.Expression

/-!
# Reading tokens

`Reader` is the monad of the grammar: it looks at the current token, moves on and fails at the first
violation. `Descent` is what the rules of the grammar get to call one another with.

A parenthesis may begin the parameters of an arrow function or an expression, and only the arrow
tells. `Reader.attempt` reads it as the one and goes back if it is the other. What it learns this way
outlives a failure around it; otherwise every level of nested parentheses would double the work.
-/

namespace Bundler.Script

/-- What the place in the script allows. -/
structure Context where
  inOperator : Bool := true
  yieldOperator : Bool := false
  awaitOperator : Bool := false
  returns : Bool := false
  decorator : Bool := false
  deriving DecidableEq, Repr

namespace Context

def expressionWithin (c : Context) : Context := { c with inOperator := true }

/-- The context of the parameters and the body of a function. -/
def ofFunction (isAsync isGenerator : Bool) : Context :=
  { yieldOperator := isGenerator, awaitOperator := isAsync, returns := true }

end Context

structure Position where
  token : Token
  rest : Rest
  /-- Where the token before the current one ends. -/
  lastStop : Nat
  /-- Shorthand defaults that no pattern has claimed yet. -/
  unclaimed : Nat
  /-- Length of the script, which bounds every loop over its tokens. -/
  size : Nat
  /-- Where an attempt has failed, by the start of its token and its context. -/
  missed : List (Nat × Context) := []

abbrev Reader := OptionT (StateM Position)

namespace Reader

def token : Reader Token := return (← get).token

def start : Reader Nat := return (← get).token.span.start

def lastStop : Reader Nat := return (← get).lastStop

def ofOption {α : Type} : Option α → Reader α
  | some a => return a
  | none => failure

def advance : Reader Unit := do
  let p ← get
  let (next, rest) ← ofOption (scan false p.rest)
  set { p with token := next, rest := rest, lastStop := p.token.span.stop }

/-- The token after the current one. -/
def peek : Reader Token := do
  let p ← get
  match scan false p.rest with
  | some (next, _) => return next
  | none => return ⟨.endOfScript, ⟨p.rest.offset, p.rest.offset⟩, false⟩

def require (b : Bool) : Reader Unit := if b then return else failure

end Reader

namespace Token

def isMark (t : Token) (m : String) : Bool := t.lexeme == .mark m

/-- A keyword has this meaning only without escapes. -/
def isWord (t : Token) (w : String) : Bool := t.lexeme == .name w false

def reservedWords : List String :=
  ["break", "case", "catch", "class", "const", "continue", "debugger", "default", "delete", "do",
    "else", "enum", "export", "extends", "false", "finally", "for", "function", "if", "import", "in",
    "instanceof", "new", "null", "return", "super", "switch", "this", "throw", "true", "try",
    "typeof", "var", "void", "while", "with"]

/-- The name of a variable, if the token can be one. -/
def identifier? (t : Token) : Option String :=
  match t.lexeme with
  | .name text _ => if reservedWords.contains text then none else some text
  | _ => none

def isIdentifier (t : Token) : Bool := t.identifier?.isSome

/-- Tokens that a property of an object or a class can begin with. -/
def beginsProperty (t : Token) : Bool :=
  match t.lexeme with
  | .name .. | .privateName _ | .number | .string _ => true
  | .mark m => m == "["
  | _ => false

end Token

namespace Reader

def atMark (m : String) : Reader Bool := return (← token).isMark m

def atWord (w : String) : Reader Bool := return (← token).isWord w

def peekMark (m : String) : Reader Bool := return (← peek).isMark m

def eatMark (m : String) : Reader Bool := do
  if ← atMark m then
    advance
    return true
  else return false

def eatWord (w : String) : Reader Bool := do
  if ← atWord w then
    advance
    return true
  else return false

def expectMark (m : String) : Reader Unit := do
  require (← eatMark m)

def expectWord (w : String) : Reader Unit := do
  require (← eatWord w)

/-- A statement may end without a semicolon before a closing brace, at the end and at a line end. -/
def canOmitSemicolon : Reader Bool := do
  let t ← token
  return t.onNewLine || t.isMark ";" || t.isMark "\x7d" || t.lexeme == .endOfScript

def semicolon : Reader Unit := do
  require (← canOmitSemicolon)
  let _ ← eatMark ";"

/-- Does what `p` does if it succeeds, else nothing but remember that it failed here. -/
def attempt {α : Type} (c : Context) (p : Reader α) : Reader (Option α) := do
  let before ← get
  let place := (before.token.span.start, c)
  if before.missed.contains place then return none
  let (found, after) := p.run before
  match found with
  | some a =>
    set after
    return some a
  | none =>
    set { before with missed := place :: after.missed }
    return none

/-- How a round of a loop ends. -/
inductive Round (α β : Type) where
  | again (a : α)
  | done (b : β)

def loopWithin {α β : Type} (round : α → Reader (Round α β)) : Nat → α → Reader β
  | 0, _ => failure
  | n + 1, a => do
    match ← round a with
    | .again a => loopWithin round n a
    | .done b => return b

/-- Repeats a round that reads at least one token whenever it asks for another. -/
def loop {α β : Type} (round : α → Reader (Round α β)) (a : α) : Reader β := do
  loopWithin round ((← get).size + 2) a

/-- Items separated by commas up to a closing mark, which may follow a comma and is left current. -/
def items (close : String) (item : Reader Unit) : Reader Unit :=
  loop (fun () => do
    if ← atMark close then return .done ()
    item
    if ← atMark close then return .done ()
    expectMark ","
    return .again ()) ()

end Reader

inductive Goal where
  | assignment
  /-- A member or a call, as a class extends or a decorator names it. -/
  | operand
  /-- A statement; `alone` where no declaration may stand, as after `if (…)`. -/
  | statement (alone : Bool)
  | binding

/-- A binding yields whether it is a single name. -/
def Goal.Result : Goal → Type
  | .assignment | .operand => Expression
  | .statement _ => Statement
  | .binding => Bool

/-- The rules that a rule may call. -/
abbrev Descent := (g : Goal) → Context → Reader g.Result

namespace Descent

open Reader

def assignment (rules : Descent) (c : Context) : Reader Expression := rules .assignment c

def operand (rules : Descent) (c : Context) : Reader Expression := rules .operand c

def statement (rules : Descent) (alone : Bool) (c : Context) : Reader Statement :=
  rules (.statement alone) c

def binding (rules : Descent) (c : Context) : Reader Bool := rules .binding c

/-- Expressions separated by commas. -/
def expression (rules : Descent) (c : Context) : Reader Expression := do
  let first ← rules.assignment c
  loop (fun (e : Expression) => do
    if ← eatMark "," then
      let _ ← rules.assignment c
      return .again .other
    else return .done e) first

/-- A name in a place where it is used or bound as a variable. -/
def identifier (c : Context) : Reader String := do
  match (← token).identifier? with
  | some name =>
    require (!(c.awaitOperator && name == "await") && !(c.yieldOperator && name == "yield"))
    advance
    return name
  | none => failure

end Descent

end Bundler.Script
