import Bundler.Script.Statement

/-!
# Scripts

`Script.parse` accepts the texts of the script grammar and yields the statements of the script after
its directives. Only the grammar is judged: names may be declared twice, labels may be missing.
-/

namespace Bundler.Script

open Descent Reader

def rule (rules : Descent) : Descent
  | .assignment, c => rules.assignmentExpression c
  | .operand, c => rules.leftHandSide c
  | .statement alone, c => rules.statementRule c alone
  | .binding, c => rules.bindingPattern c

/-- The rules of the grammar, nested at most `depth` times. -/
def grammar : Nat → Descent
  | 0 => fun _ _ => failure
  | depth + 1 => fun goal c => rule (grammar depth) goal c

/-- Each rule reads a token before it calls itself again through at most three others, which bounds
how deep the rules nest. -/
def script (size : Nat) : Reader (List Statement) := do
  let found ← (grammar (4 * size + 8)).statements {} (·.lexeme == .endOfScript)
  require ((← get).unclaimed == 0)
  return found

/-- The statements of a script, if it is one. -/
def parse (source : List Char) : Option (List Statement) := do
  let (first, rest) ← scan true (skipInterpreterLine ⟨0, source⟩)
  let size := source.length
  (script size).run ⟨first, rest, 0, 0, size, []⟩ |>.1

end Bundler.Script
