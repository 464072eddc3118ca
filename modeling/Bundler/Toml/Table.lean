import Bundler.Json.Document

/-!
# Tables of configurations

A table is built up by headers and by assignments to dotted keys, in any order, but nothing is
defined twice: a header opens a table that is new or was only implied by a longer header, an element
is added to a list of elements only, and a dotted key extends only tables made by dotted keys.
-/

namespace Bundler.Toml

/-- What a table owes its existence to. -/
inductive Origin where
  /-- A header of a table below it. -/
  | implied
  | header
  | dotted
  deriving DecidableEq, Repr

inductive Node where
  /-- A value, to which nothing may be added. -/
  | value (d : Document)
  | table (origin : Origin) (members : List (String × Node))
  /-- The elements that headers in double brackets have opened, the latest first. -/
  | elements (latest : List (String × Node)) (earlier : List (List (String × Node)))
  deriving Inhabited

abbrev Table := List (String × Node)

namespace Table

def put (key : String) (node : Node) (t : Table) : Table := Document.insertMember key node t

/-- Changes the table that a header refers to by its keys; of elements this is the latest one. -/
def update (f : Table → Option Table) : List String → Table → Option Table
  | [], t => f t
  | key :: keys, t =>
    match t.lookup key with
    | none => return t.put key (.table .implied (← update f keys []))
    | some (.table origin sub) => return t.put key (.table origin (← update f keys sub))
    | some (.elements latest earlier) => return t.put key (.elements (← update f keys latest) earlier)
    | some (.value _) => none

def openTable (key : String) (t : Table) : Option Table :=
  match t.lookup key with
  | none => some (t.put key (.table .header []))
  | some (.table .implied sub) => some (t.put key (.table .header sub))
  | _ => none

def openElement (key : String) (t : Table) : Option Table :=
  match t.lookup key with
  | none => some (t.put key (.elements [] []))
  | some (.elements latest earlier) => some (t.put key (.elements [] (latest :: earlier)))
  | _ => none

/-- Whether a dotted key may lead into a table on its way to a table further below. -/
def isPassable : Origin → Bool
  | .implied | .dotted => true
  | .header => false

/-- Assigns a value to a dotted key. The table of the last key must be new or made by dotted keys,
as must be any other on the way, unless a header only implies it. -/
def assign (d : Document) : List String → Table → Option Table
  | [], _ => none
  | [key], t => if (t.lookup key).isSome then none else some (t.put key (.value d))
  | key :: keys, t =>
    match t.lookup key with
    | none => return t.put key (.table .dotted (← assign d keys []))
    | some (.table origin sub) =>
      if origin = .dotted ∨ (isPassable origin ∧ 1 < keys.length) then
        return t.put key (.table origin (← assign d keys sub))
      else none
    | some (.elements latest earlier) =>
      if 1 < keys.length then return t.put key (.elements (← assign d keys latest) earlier)
      else none
    | some (.value _) => none

def sorted (members : List (Option String × Document)) : Document :=
  .object (members.mergeSort fun a b => a.1.getD "" ≤ b.1.getD "")

mutual

def documentOf : Node → Document
  | .value d => d
  | .table _ members => sorted (membersOf members)
  | .elements latest earlier => .array (sorted (membersOf latest) :: elementsOf earlier).reverse

def membersOf : List (String × Node) → List (Option String × Document)
  | [] => []
  | (key, node) :: rest => (some key, documentOf node) :: membersOf rest

def elementsOf : List (List (String × Node)) → List Document
  | [] => []
  | t :: rest => sorted (membersOf t) :: elementsOf rest

end

/-- The document of a table, with its keys in order. -/
def document (t : Table) : Document := sorted (membersOf t)

end Table

end Bundler.Toml
