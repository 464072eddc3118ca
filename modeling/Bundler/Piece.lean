import Bundler.Definition
import Bundler.Format
import Bundler.Literal

/-!
# Pieces

The text of a bundle is a list of pieces. `Piece.write` says how each is written: it begins on a
fresh line, and every module that it embeds has a segment.
-/

namespace Bundler

/-- What a registered module is embedded as. -/
inductive Embedding where
  | literal (text : String)
  /-- A function around the script, which passes on the globals that the script exposes. A function
  in parentheses is compiled at once. -/
  | function (script : String) (globals : List String) (eager : Bool)
  deriving DecidableEq, Repr

structure Entry where
  module : String
  embedding : Embedding
  deriving DecidableEq, Repr

inductive Piece where
  | optimizedMark
  | tryOpening
  | configuration (c : Configuration)
  | raw (module code : String)
  /-- The statement that declares a raw module as loaded. -/
  | declaration (module : String)
  | predefine (module code : String)
  | preloads (name : Option String) (entries : List Entry)
  /-- The announcement that another bundle contains the modules. -/
  | announcement (bundle : String) (modules : List String)
  | require (module : String)
  | boot
  | tryClosing

namespace Writer

/-- Writes the text of a module as a segment. -/
def segment (module : String) (write : Writer → Writer) (w : Writer) : Except WriterError Writer :=
  do
    let (w, started) := w.start module
    started
    let (w, finished) := (write w).finish
    let _ ← finished
    return w

end Writer

namespace Embedding

def writeGlobal (w : Writer) (name : String) : Writer :=
  w.freshLine.write ["this.", name, "=", name, ";"]

def write (e : Embedding) (w : Writer) : Writer :=
  match e with
  | .literal text => w.write [Literal.script text]
  | .function script globals eager =>
    let w := w.write [if eager then "(function()\x7b\n" else "function()\x7b\n", script]
    (globals.foldl writeGlobal w).freshLine.write [if eager then "\x7d)" else "\x7d"]

end Embedding

namespace Entry

def write (w : Writer) (e : Entry) : Except WriterError Writer :=
  w.segment e.module fun w => e.embedding.write (w.write [Json.quote e.module, ":"])

def writeAll (w : Writer) : List Entry → Except WriterError Writer
  | [] => .ok w
  | e :: rest => do rest.foldlM (fun w e => write (w.write [",\n"]) e) (← write w e)

end Entry

namespace Configuration

def write (c : Configuration) (w : Writer) : Writer :=
  let w := w.writeLine ["(function(window)\x7b"]
  let w := w.writeLine ["\tvar cfg=window['sap-ui-config']=window['sap-ui-config']||\x7b\x7d,"]
  let w := w.writeLine ["\t\troots=cfg.resourceRoots=cfg.resourceRoots||\x7b\x7d;"]
  let w := c.properties.foldl
    (fun w (name, value) => w.writeLine ["\tcfg[", Json.quote name, "]=", value.text, ";"]) w
  let w := c.resourceRoots.foldl
    (fun w (name, url) => w.writeLine ["\troots[", Json.quote name, "]=", Json.quote url, ";"]) w
  w.writeLine ["\x7d(window));"]

end Configuration

namespace Piece

/-- Writes a script as a segment on lines of its own. -/
def writeScript (module code : String) (w : Writer) : Except WriterError Writer :=
  return (← w.freshLine.segment module (·.write [code])).freshLine

def write (format : Format) (w : Writer) : Piece → Except WriterError Writer
  | .optimizedMark => .ok (w.writeLine ["window[\"sap-ui-optimized\"] = true;"])
  | .tryOpening => .ok (w.writeLine ["try \x7b"])
  | .configuration c => .ok (c.write w)
  | .raw module code | .predefine module code => writeScript module code w
  | .declaration module =>
    .ok (w.freshLine.writeLine
      ["jQuery.sap.declare(", Literal.script (Name.legacyName module), ", false);"])
  | .preloads name entries =>
    return format.afterPreloads name
      (← Entry.writeAll (format.beforePreloads name w.freshLine) entries).freshLine
  | .announcement bundle modules =>
    .ok (w.freshLine.writeLine
      ["sap.ui.loader.config(\x7bbundlesUI5:\x7b", Json.quote bundle, ":[",
        String.intercalate "," (modules.map Json.quote), "]\x7d\x7d);"])
  | .require module => .ok (Format.requireSync module w.freshLine)
  | .boot => .ok (w.freshLine.writeLine ["sap.ui.getCore().boot && sap.ui.getCore().boot();"])
  | .tryClosing =>
    .ok (((w.freshLine.writeLine ["\x7d catch(oError) \x7b"]).writeLine
      ["if (oError.name != \"Restart\") \x7b throw oError; \x7d"]).writeLine ["\x7d"])

def writeAll (format : Format) (pieces : List Piece) : Except WriterError Writer :=
  pieces.foldlM (write format) {}

end Piece

end Bundler
