import Bundler.Script.Function

/-!
# Operands

Literals, members, calls and the prefix and postfix operators around them.
-/

namespace Bundler.Script.Descent

open Reader

/-! ## Literals -/

/-- A template from its current piece on. Escapes that denote nothing are admitted where a function
receives the pieces (`tagged`). -/
def template (rules : Descent) (c : Context) (tagged : Bool) : Reader Unit :=
  loop (fun () => do
    match (← token).lexeme with
    | .template valid closed =>
      require (valid || tagged)
      advance
      if closed then return .done ()
      let _ ← rules.expression c.expressionWithin
      require (← atMark "\x7d")
      let p ← get
      let (lexeme, rest) ← ofOption (readTemplate p.rest)
      let piece : Token := ⟨lexeme, ⟨p.token.span.start, rest.offset⟩, false⟩
      set { p with token := piece, rest := rest }
      return .again ()
    | _ => failure) ()

/-- A regular expression whose first slash is current, alone or in `/=`. -/
def regex : Reader Unit := do
  let p ← get
  let rest ← ofOption (scanRegex p.rest)
  set { p with token := { p.token with span := ⟨p.token.span.start, rest.offset⟩ }, rest := rest }
  advance

structure ArrayState where
  targets : Option Nat := some 0
  spread : Bool := false

def addTargets (a b : Option Nat) : Option Nat := do return (← a) + (← b)

def arrayLiteral (rules : Descent) (c : Context) : Reader Expression := do
  advance
  let c := c.expressionWithin
  loop (fun (a : ArrayState) => do
    let t ← token
    if t.isMark "]" then
      advance
      return .done (.array a.targets)
    else if t.isMark "," then
      advance
      return .again { a with targets := if a.spread then none else a.targets }
    else
      let spread ← eatMark "..."
      let e ← rules.assignment c
      let own := if spread then e.targets? else e.elementTargets?
      let next : ArrayState := ⟨if a.spread then none else addTargets a.targets own, spread⟩
      if ← atMark "]" then return .again next
      else
        expectMark ","
        return .again { next with targets := if spread then none else next.targets }) {}

/-- A property of an object literal, with what it contributes to reading the literal as a pattern. -/
def objectProperty (rules : Descent) (c : Context) : Reader (Option Nat) := do
  let t ← token
  let next ← peek
  let accessor := (t.isWord "get" || t.isWord "set") && next.beginsProperty
  let isAsync := t.isWord "async" && !next.onNewLine && (next.beginsProperty || next.isMark "*")
  let startsValue := ["(", "<", ":", "."].any next.isMark
  if accessor || isAsync || (t.isMark "*" && next.beginsProperty) then
    let head ← memberHead false
    let _ ← rules.propertyKey c
    rules.functionRest head.isAsync head.isGenerator
    return none
  else if t.isIdentifier && !startsValue then
    let _ ← identifier c
    if ← eatMark "=" then
      let _ ← rules.assignment c
      modify fun p => { p with unclaimed := p.unclaimed + 1 }
      return some 1
    else return some 0
  else
    let _ ← rules.propertyKey c
    if ← eatMark ":" then
      return (← rules.assignment c).elementTargets?
    else
      rules.functionRest false false
      return none

def objectLiteral (rules : Descent) (c : Context) : Reader Expression := do
  advance
  let c := c.expressionWithin
  loop (fun (targets : Option Nat) => do
    if ← eatMark "\x7d" then return .done (.object targets)
    let spread ← eatMark "..."
    let own ← if spread then Expression.targets? <$> rules.assignment c else rules.objectProperty c
    let targets := addTargets targets own
    if ← atMark "\x7d" then return .again targets
    else
      expectMark ","
      return .again (if spread then none else targets)) (some 0)

/-- One or more expressions in parentheses. -/
def parenthesized (rules : Descent) (c : Context) : Reader Expression := do
  advance
  let e ← rules.expression { c.expressionWithin with decorator := false }
  expectMark ")"
  return .parenthesized e

/-! ## Primary expressions -/

/-- `super` stands only before a member or a call. -/
def superReference : Reader Expression := do
  advance
  require ((← atMark ".") || (← atMark "[") || (← atMark "("))
  return .other

def importCall (rules : Descent) (c : Context) : Reader Unit := do
  expectMark "("
  let c := c.expressionWithin
  let _ ← rules.assignment c
  if ← eatMark "," then
    unless ← atMark ")" do
      let _ ← rules.assignment c
      let _ ← eatMark ","
  expectMark ")"

/-- `import(…)`, `import.source(…)`, `import.defer(…)` and `import.meta`. -/
def importExpression (rules : Descent) (c : Context) : Reader Expression := do
  advance
  if ← eatMark "." then
    if ← eatWord "meta" then return .other
    unless ← eatWord "source" do expectWord "defer"
  rules.importCall c
  return .other

def keywordExpression (rules : Descent) (c : Context)
    (word : String) : Reader Expression := do
  if ["this", "null", "true", "false"].contains word then
    advance
    return .other
  else if word == "function" then
    let _ ← rules.functionFrom c false false
    return .function
  else if word == "class" then
    rules.classFrom c false
    return .other
  else if word == "super" then superReference
  else if word == "import" then rules.importExpression c
  else failure

def primary (rules : Descent) (c : Context) :
    Reader Expression := do
  let t ← token
  match t.lexeme with
  | .name text escaped =>
    let next ← peek
    if t.isWord "async" && next.isWord "function" && !next.onNewLine then
      advance
      let _ ← rules.functionFrom c true false
      return .function
    else if t.isIdentifier then
      return .identifier (← identifier c) t.span
    else
      require (!escaped)
      rules.keywordExpression c text
  | .number =>
    advance
    return .other
  | .string _ =>
    advance
    return .string
  | .template .. =>
    rules.template c false
    return .other
  | .mark m =>
    if m == "(" then rules.parenthesized c
    else if m == "[" then rules.arrayLiteral c
    else if m == "\x7b" then rules.objectLiteral c
    else if m == "/" || m == "/=" then
      regex
      return .other
    else if m == "@" then
      rules.decorators c
      rules.classFrom c false
      return .other
    else failure
  | _ => failure

/-! ## Members and calls -/

/-- The arguments of a call, with their spans. -/
def arguments (rules : Descent) (c : Context) : Reader (List (Span × Expression)) := do
  expectMark "("
  let c := { c.expressionWithin with decorator := false }
  loop (fun (found : List (Span × Expression)) => do
    if ← eatMark ")" then return .done found.reverse
    let first ← start
    let spread ← eatMark "..."
    let e ← rules.assignment c
    let found := (⟨first, ← lastStop⟩, if spread then .other else e) :: found
    unless ← atMark ")" do expectMark ","
    return .again found) []

/-- A member named after a dot. -/
def dotMember (object : Expression) : Reader Expression := do
  let t ← token
  match t.lexeme with
  | .name text _ =>
    advance
    return .member object text t.span
  | .privateName _ =>
    advance
    return .place
  | _ => failure

def indexMember (rules : Descent) (c : Context) : Reader Expression := do
  advance
  let _ ← rules.expression c.expressionWithin
  expectMark "]"
  return .place

/-- An operand with what was read of its members and calls; `chained` after `?.`. -/
structure Chain where
  expression : Expression
  chained : Bool := false

/-- Members, tagged templates and, if `calls`, calls that follow an operand begun at `first`. -/
def suffixes (rules : Descent) (c : Context) (calls : Bool) (first : Nat) (chain : Chain) :
    Reader Chain :=
  loop (fun (a : Chain) => do
    let t ← token
    let next ← peek
    if t.isMark "." then
      advance
      return .again { a with expression := ← dotMember a.expression }
    else if t.isMark "?." && (calls || !next.isMark "(") then
      advance
      if next.isMark "(" then
        let _ ← rules.arguments c
        return .again ⟨.other, true⟩
      else if next.isMark "[" then
        let _ ← rules.indexMember c
        return .again ⟨.place, true⟩
      else return .again ⟨← dotMember a.expression, true⟩
    else if t.isMark "[" && !c.decorator then
      return .again { a with expression := ← rules.indexMember c }
    else if t.isMark "(" && calls then
      let found ← rules.arguments c
      return .again { a with expression := .call a.expression found ⟨first, ← lastStop⟩ }
    else match t.lexeme with
      | .template .. =>
        require (!a.chained)
        rules.template c true
        return .again { a with expression := .other }
      | _ => return .done a) chain

/-- Some number of `new` and the member that the innermost one constructs. -/
def construction (rules : Descent) (c : Context) :
    Reader Expression := do
  let first ← start
  let (count, target) ← loop (fun (n : Nat) => do
    if ← eatWord "new" then
      if ← eatMark "." then
        expectWord "target"
        return .done (n, some Expression.other)
      else return .again (n + 1)
    else return .done (n, none)) 0
  let dynamicImport := (← atWord "import") && (← peekMark "(")
  require (count == 0 || !dynamicImport)
  let base ← match target with
    | some e => pure e
    | none => rules.primary c
  loop (fun ((n, e) : Nat × Expression) => do
    match n with
    | 0 => return .done e
    | n + 1 =>
      let callee ← rules.suffixes c false first ⟨e, false⟩
      require (!callee.chained)
      if ← atMark "(" then
        let _ ← rules.arguments c
      return .again (n, .other)) (count, base)

/-- A member or a call. A chain with `?.` is no place to assign to. -/
def leftHandSide (rules : Descent) (c : Context) :
    Reader Expression := do
  let first ← start
  let base ← rules.construction c
  let chain ← rules.suffixes c true first ⟨base, false⟩
  return if chain.chained then .other else chain.expression

/-! ## Prefix and postfix operators -/

def isPrefixOperator (t : Token) : Bool :=
  ["+", "-", "~", "!"].any t.isMark || ["delete", "typeof", "void"].any t.isWord

def isUpdateOperator (t : Token) : Bool := t.isMark "++" || t.isMark "--"

/-- An operand with its prefix and postfix operators. A private name is one before `in`. -/
def unary (rules : Descent) (c : Context) :
    Reader Expression := do
  if let .privateName _ := (← token).lexeme then
    advance
    require (c.inOperator && (← atWord "in"))
    return .other
  let negated ← loop (fun (any : Bool) => do
    let t ← token
    if isPrefixOperator t || (c.awaitOperator && t.isWord "await") then
      advance
      return .again true
    else return .done any) false
  let e ← do
    if isUpdateOperator (← token) then
      advance
      require (← rules.leftHandSide c).isSimpleTarget
      let t ← token
      require (t.onNewLine || !isUpdateOperator t)
      pure Expression.other
    else
      let e ← rules.leftHandSide c
      let t ← token
      if isUpdateOperator t && !t.onNewLine then
        require e.isSimpleTarget
        advance
        pure .other
      else pure e
  return if negated then .unary else e

end Bundler.Script.Descent
