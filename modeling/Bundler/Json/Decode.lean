import Bundler.Json.Document

/-!
# Reading records from documents

A record is written as an object of its fields or as an array of them in order; absent fields have
their defaults. `Dialect` holds what differs between the formats that documents come from.
-/

namespace Bundler

structure Dialect where
  /-- An optional value may be written as null. -/
  nullable : Bool
  /-- A record written as an array may have more items than fields. -/
  surplus : Bool
  /-- What may stand as the value where a choice is written as an object with its name as key. -/
  isUnit : Document → Bool

namespace Dialect

def json : Dialect := ⟨true, false, fun d => d matches .null⟩

def toml : Dialect := ⟨false, true, fun d => d matches .array [] | .object []⟩

end Dialect

/-- Reads a value that may still nest some levels of arrays and objects. -/
abbrev Decoder (α : Type) := Nat → Document → Option α

namespace Decoder

def bool : Decoder Bool
  | _, .bool b => some b
  | _, _ => none

def string : Decoder String
  | _, .string s => s
  | _, _ => none

/-- Integers of 64 bits without sign. -/
def nat : Decoder Nat
  | _, .number (some (.int n)) => if 0 ≤ n ∧ n < limit64 then some n.toNat else none
  | _, _ => none

def json : Decoder Json := Document.value?

def option {α : Type} (dialect : Dialect) (f : Decoder α) : Decoder (Option α)
  | depth, .null => if dialect.nullable then some none else (f depth .null).map some
  | depth, d => (f depth d).map some

def list {α : Type} (f : Decoder α) : Decoder (List α)
  | 0, _ => none
  | depth + 1, .array items => items.mapM (f depth)
  | _, _ => none

/-- Entries in order of the first occurrence of their keys; a later value replaces an earlier one. -/
def entries {α : Type} (f : Decoder α) : Decoder (List (String × α))
  | depth + 1, .object members =>
    members.foldlM (fun seen (key, d) => do
      return Document.insertMember (← key) (← f depth d) seen) []
  | _, _ => none

/-- The documents of the fields of a record. A field may be given once. -/
def fields? (dialect : Dialect) (names : List String) : Document → Option (List (Option Document))
  | .object members =>
    if members.all fun m => m.1.isSome then
      names.mapM fun name =>
        match members.filter fun m => m.1 = some name with
        | [] => some none
        | [m] => some (some m.2)
        | _ => none
    else none
  | .array items =>
    if names.length < items.length ∧ !dialect.surplus then none
    else some ((List.range names.length).map fun i => items[i]?)
  | _ => none

/-- A record, whose fields `build` reads from their documents with the depth left to them. -/
def record {α : Type} (dialect : Dialect) (names : List String)
    (build : Nat → List (Option Document) → Option α) : Decoder α
  | 0, _ => none
  | depth + 1, d => do build depth (← fields? dialect names d)

/-- A field that has a default. -/
def field {α : Type} (f : Decoder α) (default : α) (depth : Nat) : Option Document → Option α
  | none => some default
  | some d => f depth d

/-- A choice, written as its name or as an object with its name as the only key. -/
def choice {α : Type} (dialect : Dialect) (ofName : String → Option α) : Decoder α
  | _, .string s => s >>= ofName
  | _ + 1, .object [(key, d)] => if dialect.isUnit d then key >>= ofName else none
  | _, _ => none

def run {α : Type} (f : Decoder α) (d : Document) : Option α := f Document.maxDepth d

end Decoder

end Bundler
