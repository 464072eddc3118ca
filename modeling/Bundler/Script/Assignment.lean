import Bundler.Script.Operand

/-!
# Assignments, functions in arrow form and operators between operands
-/

namespace Bundler.Script.Descent

open Reader

/-! ## Binary operators -/

def binaryMarks : List String :=
  ["??", "||", "&&", "|", "^", "&", "==", "!=", "===", "!==", "<", ">", "<=", ">=", "<<", ">>",
    ">>>", "+", "-", "*", "/", "%", "**"]

/-- The operator between two operands that the token is, if any. -/
def binaryOperator? (c : Context) (t : Token) : Option String :=
  match t.lexeme with
  | .mark m => if binaryMarks.contains m then some m else none
  | .name "in" false => if c.inOperator then some "in" else none
  | .name "instanceof" false => some "instanceof"
  | _ => none

/-- Operands read so far: the last of them, whether it is alone, and the operators that may not be
mixed without parentheses. -/
structure Operands where
  last : Expression
  single : Bool := true
  coalesces : Bool := false
  connects : Bool := false

/-- Operands with operators between them. How they group does not matter here: a power needs a base
without prefix operator, and `??` must not meet `||` or `&&`. -/
def binary (rules : Descent) (c : Context) : Reader Expression := do
  let first ← rules.unary c
  let found ← loop (fun (a : Operands) => do
    match binaryOperator? c (← token) with
    | none => return .done a
    | some op =>
      require (!(op == "**" && a.last matches .unary))
      advance
      let e ← rules.unary c
      return .again ⟨e, false, a.coalesces || op == "??", a.connects || op == "||" || op == "&&"⟩)
    ⟨first, true, false, false⟩
  require (!(found.coalesces && found.connects))
  return if found.single then found.last else .other

/-! ## Arrow functions -/

/-- The body of an arrow function after its arrow. -/
def arrowBody (rules : Descent) (c : Context) (isAsync : Bool) : Reader Expression := do
  if ← atMark "\x7b" then
    rules.block (Context.ofFunction isAsync false)
  else
    let _ ← rules.assignment { c with awaitOperator := isAsync, yieldOperator := false }
  return .arrow

/-- No line ends before the arrow. -/
def arrow : Reader Unit := do
  require (!(← token).onNewLine)
  expectMark "=>"

/-- Parameters in parentheses and the arrow. -/
def arrowHead (rules : Descent) (c : Context) (isAsync : Bool) : Reader Unit := do
  if isAsync then advance
  rules.parameters { c.expressionWithin with awaitOperator := c.awaitOperator || isAsync }
  arrow

/-- Whether parameters in parentheses may begin at a parenthesis before this token. -/
def beginsParameter (t : Token) : Bool :=
  t.isIdentifier || [")", "[", "\x7b", "..."].any t.isMark

/-- The head of an arrow function, if one begins here: whether it is asynchronous. -/
def arrowHead? (rules : Descent) (c : Context) : Reader (Option Bool) := do
  let t ← token
  let next ← peek
  if t.isMark "(" && beginsParameter next then
    return (← attempt c (rules.arrowHead c false)).map fun _ => false
  else if t.isWord "async" && !next.onNewLine then
    if next.isMark "(" then
      return (← attempt c (rules.arrowHead c true)).map fun _ => true
    else if next.isIdentifier then
      return (← attempt c do
        advance
        advance
        arrow).map fun _ => true
    else return none
  else return none

/-! ## Assignments -/

def compoundAssignments : List String :=
  ["+=", "-=", "*=", "/=", "%=", "**=", "<<=", ">>=", ">>>=", "&=", "|=", "^=", "&&=", "||=", "??="]

/-- Tokens before which `yield` stands without an operand. -/
def endsYield (t : Token) : Bool :=
  t.lexeme == .endOfScript || t.isWord "in" ||
    [";", "\x7d", "]", ")", ":", ","].any t.isMark

def yieldExpression (rules : Descent) (c : Context) : Reader Expression := do
  advance
  if (← token).onNewLine then return .other
  let delegates ← eatMark "*"
  if delegates || !endsYield (← token) then
    let _ ← rules.assignment c
  return .other

/-- What follows the operands: an arrow, an assignment or a conditional. -/
def assignmentRest (rules : Descent) (c : Context) (e : Expression) : Reader Expression := do
  let t ← token
  if (e matches .identifier ..) && t.isMark "=>" then
    arrow
    rules.arrowBody c false
  else if t.isMark "=" then
    match e.targets? with
    | none => failure
    | some n =>
      modify fun p => { p with unclaimed := p.unclaimed - n }
      advance
      let _ ← rules.assignment c
      return .assignment
  else if compoundAssignments.any t.isMark then
    require e.isSimpleTarget
    advance
    let _ ← rules.assignment c
    return .other
  else if t.isMark "?" then
    advance
    let _ ← rules.assignment c.expressionWithin
    expectMark ":"
    let _ ← rules.assignment c
    return .other
  else return e

def assignmentExpression (rules : Descent) (c : Context) : Reader Expression := do
  if c.yieldOperator && (← atWord "yield") then rules.yieldExpression c
  else match ← rules.arrowHead? c with
    | some isAsync => rules.arrowBody c isAsync
    | none => rules.assignmentRest c (← rules.binary c)

end Bundler.Script.Descent
