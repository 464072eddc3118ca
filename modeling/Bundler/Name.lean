import Bundler.Text.Basic

/-!
# Module names

A module is addressed by its slash-separated resource name (`sap/m/Button.js`), by its require name
without the script extension (`sap/m/Button`) and by its dotted name (`sap.m.Button`). The names of
the parts of a split bundle come from a template with one placeholder.
-/

namespace Bundler.Name

open Text

def scriptExtension : List Char := ".js".toList

def rendererEnding : List Char := "Renderer.js".toList

def placeholder : List Char := "__part__".toList

/-- The part of a name after its last slash. -/
def file (name : String) : List Char := afterLast '/' name.toList

def requireName (name : String) : String :=
  match before? scriptExtension name.toList with
  | some stem => String.ofList stem
  | none => name

def legacyName (name : String) : String :=
  String.ofList ((requireName name).toList.map fun c => if c = '/' then '.' else c)

/-- The renderer that stands beside a control module; renderers themselves have none. -/
def renderer? (name : String) : Option String :=
  if (before? rendererEnding name.toList).isSome then none
  else (before? scriptExtension name.toList).map fun stem => String.ofList (stem ++ rendererEnding)

/-- The resource a reference denotes: a last segment without a dot lacks the script extension. -/
def resourceName (name : String) : String :=
  if (file name).contains '.' then name else name ++ ".js"

/-- Library descriptors list their library's modules as sub-modules but are never unpacked. -/
def isLibraryDescriptor (name : String) : Bool :=
  name == "library.js" || (before? "/library.js".toList name.toList).isSome

def part (template : String) (index : Nat) : String :=
  String.ofList (replaceFirst placeholder (toString index).toList template.toList)

/-- The bundle name with the placeholder, inserted before the first dot of the last segment (at the
end if it has none) unless the name holds it already. -/
def partTemplate (name : String) : String :=
  let s := name.toList
  if hasInfix placeholder s then name
  else
    let last := afterLast '/' s
    let stem := last.takeWhile (· != '.')
    String.ofList (throughLast '/' s ++ stem ++ '-' :: placeholder ++ last.dropWhile (· != '.'))

end Bundler.Name
