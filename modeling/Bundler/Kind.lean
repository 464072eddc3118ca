import Bundler.Name

/-!
# Kinds of resources

The extension of a resource decides how it is measured and how it is embedded.
-/

namespace Bundler

inductive ResourceKind where
  | script
  | markup
  | json
  | properties
  | text
  | unknown
  deriving DecidableEq, Repr

namespace ResourceKind

def ofExtension (extension : String) : ResourceKind :=
  if extension = "js" then .script
  else if extension = "xml" ∨ extension = "html" ∨ extension = "htm" then .markup
  else if extension = "json" then .json
  else if extension = "properties" then .properties
  else if extension = "txt" then .text
  else .unknown

/-- The kind of a name goes by what follows the last dot of its last segment. -/
def ofName (name : String) : ResourceKind :=
  let file := Name.file name
  if file.contains '.' then ofExtension (String.ofList (Text.afterLast '.' file)) else .unknown

def label : ResourceKind → String
  | .script => "script"
  | .markup => "markup"
  | .json => "json"
  | .properties => "properties"
  | .text => "text"
  | .unknown => "unknown"

end ResourceKind

end Bundler
