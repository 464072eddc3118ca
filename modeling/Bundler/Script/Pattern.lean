import Bundler.Script.Reader

/-!
# Names of properties, patterns and parameters
-/

namespace Bundler.Script

open Reader

namespace Descent

/-- The key of a property: its text where that is written out as a name or a string. -/
def propertyKey (rules : Descent) (c : Context) : Reader (Option String) := do
  let t ← token
  match t.lexeme with
  | .name text _ => advance; return some text
  | .string raw => advance; return some raw
  | .number => advance; return none
  | .mark "[" =>
    advance
    let _ ← rules.assignment c.expressionWithin
    expectMark "]"
    return none
  | _ => failure

/-- A default value, if one is given. -/
def initializer (rules : Descent) (c : Context) : Reader Bool := do
  if ← eatMark "=" then
    let _ ← rules.assignment c
    return true
  else return false

def bindingWithDefault (rules : Descent) (c : Context) : Reader Unit := do
  let _ ← rules.binding c
  let _ ← rules.initializer c.expressionWithin

/-- A property of an object pattern: a name with an optional default, or a key and a pattern. -/
def bindingProperty (rules : Descent) (c : Context) : Reader Unit := do
  let t ← token
  let _ ← rules.propertyKey c
  if t.isIdentifier && !(← atMark ":") then
    let _ ← rules.initializer c.expressionWithin
  else
    expectMark ":"
    rules.bindingWithDefault c

/-- Items of a pattern up to the closing mark, of which the last may be `...` and a binding that
`rest` accepts. -/
def bindingItems (close : String) (item rest : Reader Unit) : Reader Unit := do
  loop (fun () => do
    if ← atMark close then return .done ()
    if ← eatMark "..." then
      rest
      require (← atMark close)
      return .done ()
    item
    if ← atMark close then return .done ()
    expectMark ","
    return .again ()) ()
  expectMark close

def bindingPattern (rules : Descent) (c : Context) : Reader Bool := do
  if ← eatMark "\x7b" then
    bindingItems "\x7d" (rules.bindingProperty c) do
      require (← rules.binding c)
    return false
  else if ← eatMark "[" then
    bindingItems "]"
      (do unless ← atMark "," do rules.bindingWithDefault c)
      (do let _ ← rules.binding c)
    return false
  else
    let _ ← identifier c
    return true

/-- The parameters of a function in parentheses. -/
def parameters (rules : Descent) (c : Context) : Reader Unit := do
  expectMark "("
  bindingItems ")" (rules.bindingWithDefault c) (do let _ ← rules.binding c)

end Descent

end Bundler.Script
