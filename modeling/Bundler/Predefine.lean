import Bundler.Json.Printer
import Bundler.Name
import Bundler.Script.Edit
import Bundler.Script.Grammar

/-!
# Registrations as predefinitions

A script that is one call of `define` or `sap.ui.define` registers a module. `Registration.edits`
turns the callee into `sap.ui.predefine`, gives the call the name of the module if it has none, and
on request puts its factory in parentheses; all else stays as it is.
-/

namespace Bundler

open Script (Span Expression Statement)

/-- A call that registers a module: the edit that renames its callee, its arguments and its end. -/
structure Registration where
  callee : Edit Char
  arguments : List (Span × Expression)
  stop : Nat

namespace Registration

def predefineCallee : List Char := "sap.ui.predefine".toList

def calleeEdit? : Expression → Option (Edit Char)
  | .identifier "define" span => some ⟨span.start, span.stop, predefineCallee⟩
  | .member (.member (.identifier "sap" _) "ui" _) "define" span =>
    some (.insert span.start "pre".toList)
  | _ => none

/-- The registration that a script consists of. -/
def ofStatements? : List Statement → Option Registration
  | [.expression (.call callee arguments span)] =>
    (calleeEdit? callee).map fun edit => ⟨edit, arguments, span.stop⟩
  | _ => none

def isString : Span × Expression → Bool
  | (_, .string) => true
  | _ => false

def isArray : Span × Expression → Bool
  | (_, .array _) => true
  | _ => false

def isFunction : Span × Expression → Bool
  | (_, .function) | (_, .arrow) => true
  | _ => false

/-- A registration names its module by a string in front. -/
def isNamed (r : Registration) : Bool := r.arguments.head?.any isString

def skipIf {α : Type} (p : α → Bool) : List α → List α
  | [] => []
  | a :: rest => if p a then rest else a :: rest

/-- The factory follows an optional name and an optional list of dependencies. -/
def factory? (r : Registration) : Option Span :=
  match skipIf isArray (skipIf isString r.arguments) with
  | a :: _ => if isFunction a then some a.1 else none
  | [] => none

/-- The quoted name, before the first argument or else before the closing parenthesis. -/
def nameEdits (r : Registration) (name : String) : List (Edit Char) :=
  let quoted := (Json.quote (Name.requireName name)).toList
  if r.isNamed then []
  else match r.arguments with
    | [] => [.insert (r.stop - 1) quoted]
    | (span, _) :: _ => [.insert span.start (quoted ++ [',', ' '])]

def factoryEdits (r : Registration) (eager : Bool) : List (Edit Char) :=
  match eager, r.factory? with
  | true, some span => [.insert span.start ['('], .insert span.stop [')']]
  | _, _ => []

def edits (r : Registration) (name : String) (eager : Bool) : List (Edit Char) :=
  r.callee :: (r.nameEdits name ++ r.factoryEdits eager)

end Registration

/-- A script after the edits; `named` if it had to be given its name. -/
structure Predefinition where
  code : String
  named : Bool
  deriving DecidableEq, Repr, Inhabited

namespace Predefinition

/-- Why a script is not rewritten: it is none, or it is not one registration. -/
inductive Refusal where
  | malformed
  | noRegistration
  deriving DecidableEq, Repr

/-- The script after the edits, given what a parser reports of it. -/
def ofReport (name source : String) (eager : Bool) :
    Option (List Statement) → Except Refusal Predefinition
  | none => .error .malformed
  | some statements =>
    match Registration.ofStatements? statements with
    | none => .error .noRegistration
    | some r =>
      .ok ⟨String.ofList (Edit.apply source.toList (r.edits name eager)), !r.isNamed⟩

def ofScript (name source : String) (eager : Bool) : Except Refusal Predefinition :=
  ofReport name source eager (Script.parse source.toList)

end Predefinition

end Bundler
