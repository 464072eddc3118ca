import Bundler.Script.Token

/-!
# What the grammar remembers of an expression

`Expression` keeps the shape of calls, names and literals, and of everything else only what decides
whether it may be assigned to. `Expression.targets?` says whether an expression may stand on the left
of `=`, and how many shorthand defaults (`{a = 1}`) become legal by reading it as a pattern.
-/

namespace Bundler.Script

inductive Expression where
  | identifier (name : String) (span : Span)
  /-- A member named after a dot; the span is the property's. -/
  | member (object : Expression) (property : String) (span : Span)
  /-- A member named by an expression or a private name. -/
  | place
  | call (callee : Expression) (arguments : List (Span × Expression)) (span : Span)
  | string
  /-- The number of shorthand defaults in it, if the literal can be read as a pattern. -/
  | array (targets : Option Nat)
  | object (targets : Option Nat)
  | function
  | arrow
  | parenthesized (inner : Expression)
  | assignment
  /-- An expression with a prefix operator, which may not be raised to a power. -/
  | unary
  | other
  deriving Inhabited

namespace Expression

def isLiteralPattern : Expression → Bool
  | .array _ | .object _ => true
  | _ => false

/-- Names and members, also in parentheses. -/
def isSimpleTarget : Expression → Bool
  | .identifier .. | .member .. | .place => true
  | .parenthesized e => !e.isLiteralPattern && e.isSimpleTarget
  | _ => false

def targets? : Expression → Option Nat
  | .array t | .object t => t
  | e => if e.isSimpleTarget then some 0 else none

/-- A place inside a pattern may carry a default. -/
def elementTargets? : Expression → Option Nat
  | .assignment => some 0
  | e => e.targets?

end Expression

inductive Statement where
  | expression (e : Expression)
  | other
  deriving Inhabited

end Bundler.Script
