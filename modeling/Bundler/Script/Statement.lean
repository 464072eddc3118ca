import Bundler.Script.Assignment

/-!
# Statements
-/

namespace Bundler.Script.Descent

open Reader

/-! ## Declarations -/

inductive DeclarationKind where
  | var
  | letting
  | const
  | using
  deriving DecidableEq

/-- What a declared variable shows: a single name or a pattern, and whether it has a value. -/
structure Declared where
  isName : Bool
  hasValue : Bool

/-- Constants and patterns need a value, unless a loop gives it to them. -/
def Declared.isComplete (kind : DeclarationKind) (d : Declared) : Bool :=
  d.hasValue || (d.isName && kind != .const && kind != .using)

/-- The variables of a declaration after its keyword. -/
def declared (rules : Descent) (c : Context) : Reader (List Declared) :=
  loop (fun (found : List Declared) => do
    let isName ← rules.binding c
    let hasValue ← rules.initializer c
    let found := ⟨isName, hasValue⟩ :: found
    if ← eatMark "," then return .again found
    else return .done found.reverse) []

def variableStatement (rules : Descent) (c : Context) (kind : DeclarationKind) : Reader Unit := do
  advance
  let found ← rules.declared c
  require (found.all (Declared.isComplete kind))
  semicolon

/-- A declaration of resources after its keyword: single names, each with a value. -/
def usingDeclared (rules : Descent) (c : Context) : Reader (List Declared) := do
  let _ ← eatWord "await"
  advance
  require (!(← token).onNewLine && !(← atWord "await"))
  let found ← rules.declared c
  require (found.all Declared.isName)
  return found

def usingStatement (rules : Descent) (c : Context) : Reader Unit := do
  let found ← rules.usingDeclared c
  require (found.all (Declared.isComplete .using))
  semicolon

/-! ## Loops -/

/-- The rest of a loop over a collection, from `in` or `of` on. -/
def forEach (rules : Descent) (c : Context) (awaits : Bool) : Reader Unit := do
  if ← eatWord "in" then
    require (!awaits)
    let _ ← rules.expression c.expressionWithin
  else
    expectWord "of"
    let _ ← rules.assignment c.expressionWithin
  expectMark ")"
  let _ ← rules.statement true c

/-- The rest of a counting loop, from its first semicolon on. -/
def forCount (rules : Descent) (c : Context) : Reader Unit := do
  expectMark ";"
  unless ← atMark ";" do
    let _ ← rules.expression c.expressionWithin
  expectMark ";"
  unless ← atMark ")" do
    let _ ← rules.expression c.expressionWithin
  expectMark ")"
  let _ ← rules.statement true c

def atForEach : Reader Bool := return (← atWord "in") || (← atWord "of")

/-- The loop after a declaration in its head. -/
def forDeclared (rules : Descent) (c : Context) (awaits : Bool) (kind : DeclarationKind)
    (found : List Declared) : Reader Unit := do
  if ← atForEach then
    require (kind != .using || !(← atWord "in"))
    rules.forEach c awaits
  else
    require (!awaits && (kind == .using || found.all (Declared.isComplete kind)))
    rules.forCount c

/-- Tokens after `let` that make it begin a declaration in the head of a loop. -/
def declaresAfterLet (t : Token) : Bool :=
  match t.lexeme with
  | .name text _ => text != "in"
  | .mark m => m == "[" || m == "\x7b"
  | _ => false

def isWordOtherThan (words : List String) (t : Token) : Bool :=
  match t.lexeme with
  | .name text _ => t.isIdentifier && !words.contains text
  | _ => false

def forStatement (rules : Descent) (c : Context) : Reader Unit := do
  advance
  let awaits ← eatWord "await"
  require (!awaits || c.awaitOperator)
  expectMark "("
  let t ← token
  let next ← peek
  let head := { c with inOperator := false }
  if t.isMark ";" then
    require (!awaits)
    rules.forCount c
  else if t.isWord "var" || t.isWord "const" || (t.isWord "let" && declaresAfterLet next) then
    let kind : DeclarationKind :=
      if t.isWord "var" then .var else if t.isWord "const" then .const else .letting
    advance
    rules.forDeclared c awaits kind (← rules.declared head)
  else if (t.isWord "await" && next.isWord "using") ||
      (t.isWord "using" && isWordOtherThan ["of", "in"] next) then
    rules.forDeclared c awaits .using (← rules.usingDeclared head)
  else
    let letOf := t.isWord "let" && next.isWord "of"
    let asyncOf := t.isWord "async" && next.isWord "of"
    let e ← rules.expression head
    if ← atForEach then
      match e.targets? with
      | none => failure
      | some n => modify fun p => { p with unclaimed := p.unclaimed - n }
      require (!letOf && (awaits || !asyncOf))
      rules.forEach c awaits
    else
      require (!awaits)
      rules.forCount c

/-! ## Blocks of control -/

def condition (rules : Descent) (c : Context) : Reader Unit := do
  expectMark "("
  let _ ← rules.expression c.expressionWithin
  expectMark ")"

def ifStatement (rules : Descent) (c : Context) : Reader Unit := do
  advance
  rules.condition c
  let _ ← rules.statement true c
  if ← eatWord "else" then
    let _ ← rules.statement true c

/-- The semicolon after a loop with a final condition may always be left out. -/
def doStatement (rules : Descent) (c : Context) : Reader Unit := do
  advance
  let _ ← rules.statement true c
  expectWord "while"
  rules.condition c
  let _ ← eatMark ";"

def switchStatement (rules : Descent) (c : Context) : Reader Unit := do
  advance
  rules.condition c
  expectMark "\x7b"
  loop (fun () => do
    if ← eatMark "\x7d" then return .done ()
    if ← eatWord "case" then
      let _ ← rules.expression c.expressionWithin
    else expectWord "default"
    expectMark ":"
    let ends (t : Token) : Bool := t.isMark "\x7d" || t.isWord "case" || t.isWord "default"
    let _ ← rules.statements c ends
    return .again ()) ()

def tryStatement (rules : Descent) (c : Context) : Reader Unit := do
  advance
  rules.block c
  let caught ← eatWord "catch"
  if caught then
    if ← eatMark "(" then
      let _ ← rules.binding c
      expectMark ")"
    rules.block c
  if ← eatWord "finally" then rules.block c
  else require caught

def jumpStatement : Reader Unit := do
  advance
  unless ← canOmitSemicolon do
    let _ ← identifier {}
  semicolon

def returnStatement (rules : Descent) (c : Context) : Reader Unit := do
  require c.returns
  advance
  unless ← canOmitSemicolon do
    let _ ← rules.expression c.expressionWithin
  semicolon

def throwStatement (rules : Descent) (c : Context) : Reader Unit := do
  advance
  require (!(← token).onNewLine)
  let _ ← rules.expression c.expressionWithin
  semicolon

/-! ## Modules

Imports and exports are read like other statements; where they may stand is not judged here. -/

def moduleName : Reader Unit := do
  match (← token).lexeme with
  | .name .. | .string _ => advance
  | _ => failure

def moduleSource : Reader Unit := do
  match (← token).lexeme with
  | .string _ => advance
  | _ => failure
  if (← atWord "with") || ((← atWord "assert") && !(← token).onNewLine) then
    advance
    expectMark "\x7b"
    items "\x7d" do
      moduleName
      expectMark ":"
      match (← token).lexeme with
      | .string _ => advance
      | _ => failure
    expectMark "\x7d"

/-- Names in braces, each possibly under another name. -/
def moduleNames : Reader Unit := do
  expectMark "\x7b"
  items "\x7d" do
    moduleName
    if ← eatWord "as" then moduleName
  expectMark "\x7d"

def importStatement (c : Context) : Reader Unit := do
  advance
  let bare := (← token).lexeme matches .string _
  unless bare do
    let more ← if (← token).isIdentifier then do
        let _ ← identifier c
        eatMark ","
      else pure true
    if more then
      if ← eatMark "*" then
        expectWord "as"
        let _ ← identifier c
      else moduleNames
    expectWord "from"
  moduleSource
  semicolon

def exportDefault (rules : Descent) (c : Context) : Reader Unit := do
  let t ← token
  let next ← peek
  if t.isWord "function" then
    let _ ← rules.functionFrom c false false
  else if t.isWord "async" && next.isWord "function" && !next.onNewLine then
    advance
    let _ ← rules.functionFrom c true false
  else if t.isWord "class" then rules.classFrom c false
  else
    let _ ← rules.assignment c.expressionWithin
    semicolon

def exportStatement (rules : Descent) (c : Context) : Reader Unit := do
  advance
  if ← eatWord "default" then rules.exportDefault c
  else if ← eatMark "*" then
    if ← eatWord "as" then moduleName
    expectWord "from"
    moduleSource
    semicolon
  else if ← atMark "\x7b" then
    moduleNames
    if ← eatWord "from" then moduleSource
    semicolon
  else
    let t ← token
    let next ← peek
    require (["var", "let", "const", "function", "class"].any t.isWord ||
      (t.isWord "async" && next.isWord "function" && !next.onNewLine))
    let _ ← rules.statement false c

/-! ## All statements -/

/-- A statement that begins with an expression: a labelled one if the expression is a name before a
colon. -/
def expressionStatement (rules : Descent) (c : Context) : Reader Statement := do
  let e ← rules.expression c.expressionWithin
  let labelled ← if e matches .identifier .. then eatMark ":" else pure false
  if labelled then
    let _ ← rules.statement true c
    return .other
  else
    semicolon
    return .expression e

/-- A statement that begins with `let`, which declares variables unless what follows makes it the
name of one. -/
def letStatement (rules : Descent) (c : Context) (alone : Bool) : Reader Statement := do
  let next ← peek
  let operator := next.isMark "=" || compoundAssignments.any next.isMark ||
    (binaryOperator? c next).any fun op => op ∉ ["??", "||", "&&"]
  if operator then
    let e ← rules.assignment c.expressionWithin
    semicolon
    return .expression e
  else if next.isMark "." || next.isMark "(" then
    let e ← rules.expression c.expressionWithin
    return .expression e
  else if (alone && !next.isMark "[") || next.isMark ";" then
    let t ← token
    let name ← identifier c
    semicolon
    return .expression (.identifier name t.span)
  else
    require (!alone)
    rules.variableStatement c .letting
    return .other

/-- Where no declaration may stand, a plain function still may. -/
def functionStatement (rules : Descent) (c : Context) (isAsync alone : Bool) : Reader Unit := do
  if isAsync then advance
  let isGenerator ← rules.functionFrom c isAsync true
  require (!alone || (!isAsync && !isGenerator))

/-- The statement that a word begins, if it begins one of its own. -/
def wordStatement? (rules : Descent) (c : Context) (alone : Bool) (word : String) :
    Reader (Option Unit) := do
  let next ← peek
  match word with
  | "if" => some <$> rules.ifStatement c
  | "do" => some <$> rules.doStatement c
  | "while" | "with" =>
    advance
    rules.condition c
    let _ ← rules.statement true c
    return some ()
  | "for" => some <$> rules.forStatement c
  | "continue" | "break" => some <$> jumpStatement
  | "switch" => some <$> rules.switchStatement c
  | "throw" => some <$> rules.throwStatement c
  | "try" => some <$> rules.tryStatement c
  | "debugger" =>
    advance
    some <$> semicolon
  | "class" =>
    require (!alone)
    some <$> rules.classFrom c true
  | "return" => some <$> rules.returnStatement c
  | "var" => some <$> rules.variableStatement c .var
  | "const" =>
    require (!alone)
    some <$> rules.variableStatement c .const
  | "function" => some <$> rules.functionStatement c false alone
  | "async" =>
    if next.isWord "function" && !next.onNewLine then
      some <$> rules.functionStatement c true alone
    else return none
  | "import" =>
    if next.isMark "." || next.isMark "(" then return none
    else some <$> importStatement c
  | "export" => some <$> rules.exportStatement c
  | "using" =>
    if next.isIdentifier then some <$> rules.usingStatement c else return none
  | _ => return none

def statementRule (rules : Descent) (c : Context) (alone : Bool) : Reader Statement := do
  let c := c.expressionWithin
  if ← atMark "@" then
    rules.decorators c
    require (!alone)
    if ← atWord "export" then rules.exportStatement c else rules.classFrom c true
    return .other
  let t ← token
  match t.lexeme with
  | .mark ";" =>
    advance
    return .other
  | .mark "\x7b" =>
    expectMark "\x7b"
    let _ ← loop (fun () => do
      if ← eatMark "\x7d" then return .done ()
      let _ ← rules.statement false c
      return .again ()) ()
    return .other
  | .name "let" false => rules.letStatement c alone
  | .name word false =>
    match ← rules.wordStatement? c alone word with
    | some () => return .other
    | none => rules.expressionStatement c
  | _ => rules.expressionStatement c

end Bundler.Script.Descent
