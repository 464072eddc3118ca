import Bundler.Script.Pattern

/-!
# Functions and classes
-/

namespace Bundler.Script.Descent

open Reader

def isDirective : Statement → Bool
  | .expression .string => true
  | _ => false

/-- Statements up to a mark or the end of the script, without the directives they begin with. -/
def statements (rules : Descent) (c : Context) (stop : Token → Bool) : Reader (List Statement) :=
  loop (fun (found : List Statement) => do
    if stop (← token) then return .done found.reverse
    let s ← rules.statement false c
    if found.isEmpty && isDirective s then return .again []
    else return .again (s :: found)) []

/-- Statements in braces. -/
def block (rules : Descent) (c : Context) : Reader Unit := do
  expectMark "\x7b"
  let _ ← rules.statements c (·.isMark "\x7d")
  expectMark "\x7d"

/-- The parameters and the body of a function. -/
def functionRest (rules : Descent) (isAsync isGenerator : Bool) : Reader Unit := do
  let c := Context.ofFunction isAsync isGenerator
  rules.parameters { c with returns := false }
  rules.block c

/-- A function from its keyword on, with a name that `named` requires. -/
def functionFrom (rules : Descent) (c : Context) (isAsync named : Bool) : Reader Bool := do
  expectWord "function"
  let isGenerator ← eatMark "*"
  if (← token).isIdentifier then
    let _ ← identifier
      (if named then c else { awaitOperator := isAsync, yieldOperator := isGenerator })
  else require (!named)
  rules.functionRest isAsync isGenerator
  return isGenerator

/-- What a member of a class was announced to be before its key. -/
structure MemberHead where
  isStatic : Bool := false
  isAsync : Bool := false
  isGenerator : Bool := false
  isAccessor : Bool := false

namespace MemberHead

def isPlain (h : MemberHead) : Bool := !h.isAsync && !h.isGenerator && !h.isAccessor

/-- Constructors are plain methods, and no static member may be called `prototype`. -/
def admitsMethod (h : MemberHead) (key : Option String) : Bool :=
  !(h.isStatic && key == some "prototype") &&
    !(!h.isStatic && key == some "constructor" && !h.isPlain)

def admitsField (h : MemberHead) (key : Option String) : Bool :=
  h.isPlain && key != some "constructor" && !(h.isStatic && key == some "prototype")

end MemberHead

/-- `async`, `*`, `get` or `set` before the key of a method. -/
def memberHead (isStatic : Bool) : Reader MemberHead := do
  let t ← token
  let next ← peek
  if t.isWord "async" && !next.onNewLine && (next.beginsProperty || next.isMark "*") then
    advance
    let isGenerator ← eatMark "*"
    return ⟨isStatic, true, isGenerator, false⟩
  else if t.isMark "*" then
    advance
    return ⟨isStatic, false, true, false⟩
  else if (t.isWord "get" || t.isWord "set") && next.beginsProperty then
    advance
    return ⟨isStatic, false, false, true⟩
  else return ⟨isStatic, false, false, false⟩

def memberKey (rules : Descent) (c : Context) : Reader (Option String) := do
  match (← token).lexeme with
  | .privateName text =>
    require (text != "constructor")
    advance
    return none
  | _ => rules.propertyKey c

/-- A method or a field, after `static` if it is. -/
def classMember (rules : Descent) (c : Context) (isStatic : Bool) : Reader Unit := do
  let next ← peek
  if (← token).isWord "accessor" && !next.onNewLine && next.beginsProperty then advance
  let head ← memberHead isStatic
  let key ← rules.memberKey c
  if ← atMark "(" then
    require (head.admitsMethod key)
    rules.functionRest head.isAsync head.isGenerator
  else
    require (head.admitsField key)
    let _ ← rules.initializer {}
    semicolon

/-- Decorators, each an expression after `@`. -/
def decorators (rules : Descent) (c : Context) : Reader Unit :=
  loop (fun () => do
    if ← eatMark "@" then
      let _ ← rules.operand { c with decorator := true }
      return .again ()
    else return .done ()) ()

/-- The members of a class in braces. -/
def classBody (rules : Descent) (c : Context) :
    Reader Unit := do
  expectMark "\x7b"
  loop (fun () => do
    if ← eatMark "\x7d" then return .done ()
    if ← eatMark ";" then return .again ()
    rules.decorators c
    let next ← peek
    if (← token).isWord "static" && next.isMark "\x7b" then
      advance
      rules.block { awaitOperator := true }
    else if (← token).isWord "static" && (next.beginsProperty || next.isMark "*") then
      advance
      rules.classMember c true
    else rules.classMember c false
    return .again ()) ()

/-- A class from its keyword on, with a name that `named` requires. -/
def classFrom (rules : Descent) (c : Context)
    (named : Bool) : Reader Unit := do
  expectWord "class"
  if (← token).isIdentifier then
    let _ ← identifier c
  else require (!named)
  if ← eatWord "extends" then
    let _ ← rules.operand c
  rules.classBody c

end Bundler.Script.Descent
