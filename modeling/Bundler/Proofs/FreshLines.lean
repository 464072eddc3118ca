import Bundler.Proofs.Declarations
import Bundler.Proofs.LineState

/-!
# Fresh lines

A script may end within a line comment, and what follows on the same line would be lost. So raw
modules, predefinitions and all that is written around modules are put on lines of their own.

* `Piece.steps` cuts a piece into the calls that write it; a `LineStart` among them is put on a
  fresh line;
* `Piece.writeAll_eq`: these are the calls that write a bundle;
* `create_begins`: so nothing but padding stands before any line start.
-/

namespace Bundler

namespace Writer

/-- What is appended without fresh lines is the same everywhere. -/
theorem additions_congr {calls : List Call} (plain : .freshLine ∉ calls) (w w' : Writer) :
    w.additions calls = w'.additions calls := by
  induction calls generalizing w w' with
  | nil => rfl
  | cons c rest ih =>
    rw [List.mem_cons, not_or] at plain
    obtain ⟨other, plain⟩ := plain
    have first : w.addition c = w'.addition c := by
      cases c with
      | freshLine => exact absurd rfl other
      | write pieces | writeLine pieces | start module | finish => rfl
    show w.addition c ++ additions _ rest = w'.addition c ++ additions _ rest
    rw [first, ih plain]

end Writer

open Writer (Call Fresh after additions)

/-- What is put on a fresh line. -/
inductive LineStart where
  /-- A raw module or a predefinition. -/
  | script (module code : String)
  | declaration (module : String)
  /-- Opens a section of registered modules. -/
  | opening (name : Option String)
  | closing (name : Option String)
  | announcement (bundle : String) (modules : List String)
  | require (module : String)
  | boot
  /-- The block that ends the enclosing one. -/
  | catching
  /-- Passes on a global of a script. -/
  | assignment (name : String)
  /-- Ends the function around a script. -/
  | brace (eager : Bool)

namespace LineStart

/-- The calls that write it. -/
def calls (format : Format) : LineStart → List Call
  | .script module code => [.start module, .write [code], .finish]
  | .declaration module =>
    [.writeLine ["jQuery.sap.declare(", Literal.script (Name.legacyName module), ", false);"]]
  | .opening name =>
    match format with
    | .modern => [.writeLine ["sap.ui.require.preload(\x7b"]]
    | .legacy =>
      .writeLine ["jQuery.sap.registerPreloadedModules(\x7b"] ::
        (name.toList.map fun name => .writeLine ["\"name\":", Json.quote name, ","]) ++
          [.writeLine ["\"version\":\"2.0\","], .writeLine ["\"modules\":\x7b"]]
  | .closing name =>
    match format with
    | .legacy => [.writeLine ["\x7d\x7d);"]]
    | .modern =>
      .write ["\x7d"] :: (name.toList.map fun name => .write [",", Json.quote name]) ++
        [.writeLine [");"]]
  | .announcement bundle modules =>
    [.writeLine ["sap.ui.loader.config(\x7bbundlesUI5:\x7b", Json.quote bundle, ":[",
      String.intercalate "," (modules.map Json.quote), "]\x7d\x7d);"]]
  | .require module =>
    [.writeLine ["sap.ui.requireSync(", Json.quote (Name.requireName module), ");"]]
  | .boot => [.writeLine ["sap.ui.getCore().boot && sap.ui.getCore().boot();"]]
  | .catching =>
    [.writeLine ["\x7d catch(oError) \x7b"],
      .writeLine ["if (oError.name != \"Restart\") \x7b throw oError; \x7d"], .writeLine ["\x7d"]]
  | .assignment name => [.write ["this.", name, "=", name, ";"]]
  | .brace eager => [.write [if eager then "\x7d)" else "\x7d"]]

/-- What is written. -/
def text (format : Format) (l : LineStart) : String := additions {} (l.calls format)

theorem freshLine_not_mem_calls (format : Format) (l : LineStart) :
    .freshLine ∉ l.calls format := by
  cases l with
  | opening name => cases format <;> cases name <;> simp [calls]
  | closing name => cases format <;> cases name <;> simp [calls]
  | _ => simp [calls]

/-- It reads the same wherever it stands. -/
theorem additions_calls (format : Format) (l : LineStart) (w : Writer) :
    w.additions (l.calls format) = l.text format :=
  Writer.additions_congr (l.freshLine_not_mem_calls format) w {}

example : (LineStart.catching).text .modern =
    "\x7d catch(oError) \x7b\nif (oError.name != \"Restart\") \x7b throw oError; \x7d\n\x7d\n" := by
  decide +kernel

end LineStart

/-- One step of writing. -/
inductive Step where
  | call (c : Call)
  | line (l : LineStart)

namespace Step

def calls (format : Format) : Step → List Call
  | .call c => [c]
  | .line l => .freshLine :: l.calls format

/-- All calls of some steps. -/
def allCalls (format : Format) (steps : List Step) : List Call := steps.flatMap (calls format)

variable {format : Format}

theorem allCalls_append (steps more : List Step) :
    allCalls format (steps ++ more) = allCalls format steps ++ allCalls format more :=
  List.flatMap_append

theorem allCalls_cons (s : Step) (steps : List Step) :
    allCalls format (s :: steps) = s.calls format ++ allCalls format steps := List.flatMap_cons

end Step

/-! ## The steps of pieces -/

def Embedding.steps : Embedding → List Step
  | .literal text => [.call (.write [Literal.script text])]
  | .function script globals eager =>
    .call (.write [if eager then "(function()\x7b\n" else "function()\x7b\n", script]) ::
      (globals.map fun name => .line (.assignment name)) ++ [.line (.brace eager)]

namespace Entry

def steps (e : Entry) : List Step :=
  .call (.start e.module) :: .call (.write [Json.quote e.module, ":"]) :: e.embedding.steps ++
    [.call .finish]

def allSteps : List Entry → List Step
  | [] => []
  | e :: rest => e.steps ++ rest.flatMap fun e => .call (.write [",\n"]) :: e.steps

end Entry

namespace Configuration

def lines (c : Configuration) : List (List String) :=
  [["(function(window)\x7b"],
    ["\tvar cfg=window['sap-ui-config']=window['sap-ui-config']||\x7b\x7d,"],
    ["\t\troots=cfg.resourceRoots=cfg.resourceRoots||\x7b\x7d;"]] ++
  (c.properties.map fun (name, value) => ["\tcfg[", Json.quote name, "]=", value.text, ";"]) ++
  (c.resourceRoots.map fun (name, url) =>
    ["\troots[", Json.quote name, "]=", Json.quote url, ";"]) ++
  [["\x7d(window));"]]

def steps (c : Configuration) : List Step := c.lines.map fun line => .call (.writeLine line)

end Configuration

/-- A piece step by step. -/
def Piece.steps : Piece → List Step
  | .optimizedMark => [.call (.writeLine ["window[\"sap-ui-optimized\"] = true;"])]
  | .tryOpening => [.call (.writeLine ["try \x7b"])]
  | .configuration c => c.steps
  | .raw module code | .predefine module code =>
    [.line (.script module code), .call .freshLine]
  | .declaration module => [.line (.declaration module)]
  | .preloads name entries =>
    .line (.opening name) :: Entry.allSteps entries ++ [.line (.closing name)]
  | .announcement bundle modules => [.line (.announcement bundle modules)]
  | .require module => [.line (.require module)]
  | .boot => [.line .boot]
  | .tryClosing => [.line .catching]

/-! ## The steps write the pieces -/

open Step (allCalls)

variable {format : Format} {w w' : Writer}

/-- A segment is written by the calls inside between a start and a finish. -/
theorem Writer.segment_eq {module : String} {write : Writer → Writer} {inside : List Call}
    (closed : w.opened = none) (written : ∀ w, write w = w.after inside)
    (keeps : ∀ w : Writer, (write w).opened = w.opened) :
    w.segment module write = .ok (w.after (.start module :: inside ++ [.finish])) := by
  have calls : w.after (.start module :: inside ++ [.finish]) =
      (write (w.start module).1).finish.1 := by
    rw [Writer.after_concat, written]
    rfl
  rw [calls, Writer.segment_of_closed closed keeps]

theorem Embedding.write_eq (e : Embedding) (w : Writer) :
    e.write w = w.after (allCalls format e.steps) := by
  cases e with
  | literal text => rfl
  | function script globals eager =>
    have assigns (w : Writer) : globals.foldl writeGlobal w =
        w.after (allCalls format (globals.map fun name => .line (.assignment name))) := by
      induction globals generalizing w with
      | nil => rfl
      | cons name rest ih => exact ih (writeGlobal w name)
    show (globals.foldl writeGlobal _).freshLine.write _ = _
    rw [assigns, steps, Step.allCalls_append, Writer.after_append]
    rfl

namespace Entry

theorem write_eq (format : Format) (closed : w.opened = none) (e : Entry) :
    write w e = .ok (w.after (allCalls format e.steps)) := by
  have written : write w e = .ok (w.after (.start e.module ::
      (.write [Json.quote e.module, ":"] :: allCalls format e.embedding.steps) ++ [.finish])) := by
    refine Writer.segment_eq closed ?written ?keeps
    case written =>
      intro w
      exact e.embedding.write_eq _
    case keeps =>
      intro w
      exact (((Writer.Extends.refl w).write _).trans (e.embedding.write_extends _)).opened
  rw [written, steps, Step.allCalls_append]
  rfl

theorem write_closed (closed : w.opened = none) {e : Entry} (h : write w e = .ok w') :
    w'.opened = none := by
  have key := (Writer.append_adds (Json.quote e.module)).comp (Writer.append_adds ":")
  obtain ⟨_, written, _, closed', _⟩ :=
    Writer.segment_eq_ok (key.comp e.embedding.write_adds) closed
  cases written.symm.trans h
  exact closed'

theorem foldlM_eq (format : Format) (closed : w.opened = none) (entries : List Entry) :
    entries.foldlM (fun w e => write (w.write [",\n"]) e) w = .ok (w.after (allCalls format
      (entries.flatMap fun e => .call (.write [",\n"]) :: e.steps))) := by
  induction entries generalizing w with
  | nil => rfl
  | cons e rest ih =>
    have separated : (w.write [",\n"]).opened = none := closed
    have first := write_eq format separated e
    rw [List.foldlM_cons, first, List.flatMap_cons, Step.allCalls_append, Writer.after_append]
    exact ih (write_closed separated first)

theorem writeAll_eq (format : Format) (closed : w.opened = none) (entries : List Entry) :
    writeAll w entries = .ok (w.after (allCalls format (allSteps entries))) := by
  cases entries with
  | nil => rfl
  | cons e rest =>
    have first := write_eq format closed e
    rw [writeAll, first, allSteps, Step.allCalls_append, Writer.after_append]
    exact foldlM_eq format (write_closed closed first) rest

end Entry

theorem Format.beforePreloads_eq (f : Format) (name : Option String) (w : Writer) :
    f.beforePreloads name w = w.after ((LineStart.opening name).calls f) := by
  cases f <;> cases name <;> rfl

theorem Format.afterPreloads_eq (f : Format) (name : Option String) (w : Writer) :
    f.afterPreloads name w = w.after ((LineStart.closing name).calls f) := by
  cases f with
  | legacy => rfl
  | modern => cases name <;> simp [afterPreloads, LineStart.calls, Writer.after, Writer.call]

theorem Configuration.write_eq (c : Configuration) (w : Writer) :
    c.write w = w.after (allCalls format c.steps) := by
  have written : c.write w = c.lines.foldl Writer.writeLine w := by
    simp only [lines, List.foldl_append, List.foldl_map]
    rfl
  rw [written, steps]
  clear written
  induction c.lines generalizing w with
  | nil => rfl
  | cons line rest ih => exact ih (w.writeLine line)

namespace Piece

theorem writeScript_eq (closed : w.opened = none) (module code : String) :
    writeScript module code w = .ok (w.after (allCalls format
      [.line (.script module code), .call .freshLine])) := by
  have fresh : w.freshLine.opened = none := (Writer.Extends.refl w).freshLine.opened.trans closed
  have written : w.freshLine.segment module (·.write [code]) =
      .ok (w.freshLine.after (.start module :: [.write [code]] ++ [.finish])) := by
    refine Writer.segment_eq fresh (fun _ => rfl) ?_
    intro w
    exact ((Writer.Extends.refl w).write [code]).opened
  rw [writeScript, written]
  rfl

/-- A piece is written by its steps. -/
theorem write_eq (format : Format) (closed : w.opened = none) (x : Piece) :
    x.write format w = .ok (w.after (allCalls format x.steps)) := by
  cases x with
  | raw module code => exact writeScript_eq closed module code
  | predefine module code => exact writeScript_eq closed module code
  | preloads name entries =>
    have opened : (format.beforePreloads name w.freshLine).opened = none := by
      have here := Writer.Extends.refl w
      exact (here.freshLine.trans (format.beforePreloads_extends name _)).opened.trans closed
    have embedded := Entry.writeAll_eq format opened entries
    have closes (w : Writer) : format.afterPreloads name w.freshLine =
        w.after (allCalls format [.line (.closing name)]) := by
      rw [format.afterPreloads_eq, allCalls, List.flatMap_singleton]
      rfl
    rw [write, embedded, steps, Step.allCalls_append, Writer.after_append, ← closes,
      Step.allCalls_cons, Writer.after_append, format.beforePreloads_eq]
    rfl
  | configuration c => exact congrArg Except.ok (c.write_eq w)
  | _ => rfl

theorem foldlM_eq (format : Format) (sound : w.Sound) (pieces : List Piece) :
    pieces.foldlM (write format) w = .ok (w.after (allCalls format (pieces.flatMap steps))) := by
  induction pieces generalizing w with
  | nil => rfl
  | cons x rest ih =>
    have first := write_eq format sound.closed x
    obtain ⟨_, again, sound', _⟩ := write_gains sound format x
    cases again.symm.trans first
    rw [List.foldlM_cons, first, List.flatMap_cons, Step.allCalls_append, Writer.after_append]
    exact ih sound'

/-- A bundle is written by the steps of its pieces. -/
theorem writeAll_eq (format : Format) (pieces : List Piece) :
    writeAll format pieces = .ok (after {} (allCalls format (pieces.flatMap steps))) :=
  foldlM_eq format Writer.sound_empty pieces

/-! ## Scripts in their places -/

variable {pieces : List Piece} {x : Piece} {module code : String}

/-- The piece puts a script into the bundle as it is. -/
def Concatenates (x : Piece) (module code : String) : Prop :=
  x = .raw module code ∨ x = .predefine module code

theorem Concatenates.write_eq (h : x.Concatenates module code) (w : Writer) :
    x.write format w = writeScript module code w := by
  rcases h with rfl | rfl <;> rfl

theorem Concatenates.steps (h : x.Concatenates module code) :
    x.steps = [.line (.script module code), .call .freshLine] := by
  rcases h with rfl | rfl <;> rfl

theorem Concatenates.texts (h : x.Concatenates module code) : x.texts = [(module, code)] := by
  rcases h with rfl | rfl <;> rfl

theorem writeScript_segment (closed : w.opened = none)
    (h : writeScript module code w = .ok w') :
    ∃ s ∈ w'.segments, s.module = module ∧ s.startIndex = w.freshLine.length := by
  obtain ⟨next, embedded, last⟩ := bind_eq_ok.1 h
  cases last
  have fresh : w.freshLine.opened = none := (Writer.Extends.refl w).freshLine.opened.trans closed
  obtain ⟨_, again, _, _, segments⟩ := Writer.segment_eq_ok (Writer.append_adds code) fresh
  cases again.symm.trans embedded
  rw [(Writer.Extends.refl next).freshLine.segments, segments]
  exact ⟨_, List.mem_append_right _ (List.mem_singleton.2 rfl), rfl, rfl⟩

/-- The segment of a script starts with it. -/
theorem Concatenates.segment (script : x.Concatenates module code) {before after' : List Piece}
    (all : writeAll format (before ++ x :: after') = .ok w)
    (distinct : (w.segments.map (·.module)).Nodup) {s : Segment} (hs : s ∈ w.segments)
    (same : s.module = module) :
    s.startIndex = (after {} (allCalls format (before.flatMap Piece.steps))).freshLine.length ∧
      Writer.slice s w.text = Utf8.encode code := by
  obtain ⟨next, next', stands⟩ := exists_stands format before x after'
  have reached := stands.reached.symm.trans (writeAll_eq format before)
  cases reached
  constructor
  · have written := stands.written
    rw [script.write_eq] at written
    obtain ⟨s', hs', same', start⟩ :=
      writeScript_segment (writeAll_sound stands.reached).closed written
    obtain ⟨_, segments, _⟩ := (stands.grows all).segments
    have here : s' ∈ w.segments := segments ▸ List.mem_append_left _ hs'
    cases List.inj_on_of_nodup_map distinct here hs (same'.trans same.symm)
    exact start
  · have mem : (module, code) ∈ x.texts := script.texts ▸ List.mem_singleton.2 rfl
    obtain ⟨s', hs', same', slice, _⟩ := stands.exists_segment all mem
    cases List.inj_on_of_nodup_map distinct hs' hs (same'.trans same.symm)
    exact slice

end Piece

/-! ## Main statement -/

open ResolvedSection (rawModules)

/-- On a fresh line behind `before`, the bundle goes on with `text`. -/
structure Bundle.Begins (b : Bundle) (before text : String) : Prop where
  fresh : Fresh before
  reads : ∃ rest, b.content = before ++ text ++ rest

theorem LineStart.text_script (format : Format) (module code : String) :
    (LineStart.script module code).text format = code := by
  simp [text, calls, additions, Writer.addition]

/-- What is put on a fresh line is behind one. -/
theorem Step.line_begins {bundle : Bundle} {before later : List Step} {l : LineStart}
    (content : (after {} (allCalls format (before ++ .line l :: later))).text = bundle.content) :
    bundle.Begins (after {} (allCalls format before)).freshLine.text (l.text format) := by
  have calls : allCalls format (before ++ .line l :: later) =
      (allCalls format before ++ [.freshLine]) ++ (l.calls format ++ allCalls format later) := by
    rw [allCalls_append, allCalls_cons, List.append_assoc]
    rfl
  refine ⟨(Writer.told_after _).freshLine, ?_⟩
  rw [← content, calls, Writer.after_append, Writer.after_concat, Writer.after_append,
    Writer.after_text, Writer.after_text, l.additions_calls]
  exact ⟨_, rfl⟩

namespace Builder

variable {b : Builder} {options : Options} {d : Definition}

/-- **Code begins on fresh lines.** If a definition is built in one bundle, nothing but padding
stands on the line before a raw module or a predefinition, before a declaration, an announcement, a
call that loads a module or boots the runtime and the block at the end, and before what opens and
closes registered modules. Within the function around a script, the same goes for the globals that
are passed on and for the closing brace. So what follows a script is no part of a line comment that
it ends with. -/
theorem create_begins {bundles : List Bundle} (one : options.numberOfParts ≤ 1)
    (h : (b.create options d).Yields bundles) :
    ∃ bundle r pieces, bundles = [bundle] ∧ (d.resolve b.pool options.ignoreMissing).Yields r ∧
      (r.pieces (b.embedder options) (r.decoration b.format options)).Yields pieces ∧
      let steps := pieces.flatMap Piece.steps
      (after {} (allCalls b.format steps)).text = bundle.content ∧
      (after {} (allCalls b.format steps)).segments = bundle.segments ∧
      (∀ before l later, steps = before ++ .line l :: later →
        bundle.Begins (after {} (allCalls b.format before)).freshLine.text (l.text b.format)) ∧
      ∀ s ∈ bundle.segments,
        s.module ∈ rawModules r.sections ∨ (∃ code, .predefine s.module code ∈ pieces) →
          ∃ before code, before.utf8ByteSize = s.startIndex ∧ bundle.Begins before code ∧
            Writer.slice s bundle.content = Utf8.encode code := by
  obtain ⟨bundle, built, rfl⟩ := create_yields_one one h
  obtain ⟨r, resolved, pieces, planned, w, all, record, recorded, same⟩ := build_yields.1 built
  have content : w.text = bundle.content := by rw [same]
  have segments : w.segments = bundle.segments := by rw [same]
  have distinct := build_nodup built
  rw [Bundle.modules, ← segments] at distinct
  have written := all.symm.trans (Piece.writeAll_eq b.format pieces)
  cases written
  refine ⟨bundle, r, pieces, rfl, resolved, planned, content, segments, ?lines, ?scripts⟩
  case lines =>
    intro before l later split
    rw [split] at content
    exact Step.line_begins content
  case scripts =>
    intro s hs kind
    have known : ∃ x ∈ pieces, ∃ code, x.Concatenates s.module code := by
      rcases kind with raw | ⟨code, hx⟩
      · have planned : s.module ∈ Piece.raws pieces := by
          rw [build_raws built resolved planned]
          exact List.mem_filter.2 ⟨List.mem_map_of_mem hs, decide_eq_true raw⟩
        obtain ⟨code, hx⟩ := Piece.mem_raws.1 planned
        exact ⟨_, hx, code, .inl rfl⟩
      · exact ⟨_, hx, code, .inr rfl⟩
    obtain ⟨x, hx, code, script⟩ := known
    clear kind
    obtain ⟨before, later, rfl⟩ := List.append_of_mem hx
    obtain ⟨start, slice⟩ := script.segment all distinct (segments ▸ hs) rfl
    rw [content] at slice
    rw [List.flatMap_append, List.flatMap_cons, script.steps] at content
    have begins := Step.line_begins content
    rw [LineStart.text_script] at begins
    exact ⟨_, code, start.symm, begins, slice⟩

end Builder

/-! ### A script that ends in a comment -/

namespace Commented

def record : ModuleInfo := { name := "lib/a.js", exposedGlobals := ["a"] }

def memory : MemoryPool := .ofResources
  [{ name := "lib/a.js", content := Utf8.encode "var a; // end", info := some record },
    { name := loaderModule, content := [59] }]

def preloaded : Section := { mode := .preload, filters := ["lib/a.js"] }

def definition : Definition := { sections := [preloaded] }

def search : Search := ⟨memory.toPool, true, preloaded, [⟨true, .directory "lib/a.js"⟩]⟩

def resolved : Resolved := ⟨definition, [⟨preloaded, ["lib/a.js"]⟩]⟩

def builder : Builder := { pool := memory.toPool, format := .ofPool memory.toPool }

theorem walks : ∃ reached, search.Walks {} search.roots reached ∧
    reached.selected.names = ["lib/a.js"] := by
  have roots : search.roots = [⟨"lib/a.js", [], false⟩] := by decide +kernel
  refine ⟨?reached, ?walk, ?selected⟩
  case walk =>
    rw [roots]
    have found : search.pool.record? "lib/a.js" = some record := rfl
    refine .selected (by decide) (by decide +kernel) found (by decide +kernel) ?_
    exact .done
  case selected => rfl

theorem resolves : (definition.resolve memory.toPool true).Yields resolved := by
  obtain ⟨reached, walks, selected⟩ := walks
  have searched : preloaded.search memory.toPool true = .ok search := rfl
  exact Definition.resolve_of_walks rfl searched (by decide) rfl walks selected

def entry : Entry := ⟨"lib/a.js", .function "var a; // end" ["a"] false⟩

def pieces : List Piece := [.preloads none [entry]]

theorem embeds : (Embedder.entry? (builder.embedder {}) "lib/a.js").Yields (some entry) := by
  have text : Utf8.decode (Utf8.encode "var a; // end") = "var a; // end" := by decide +kernel
  rw [entry, ← text]
  rfl

theorem planned : (resolved.pieces (builder.embedder {})
    (resolved.decoration builder.format {})).Yields pieces := by
  have sorted : (["lib/a.js"].mergeSort fun a b => a ≤ b) = ["lib/a.js"] :=
    List.mergeSort_singleton _
  have preload : (Plan.preload (builder.embedder {}) {} ⟨preloaded, ["lib/a.js"]⟩).Yields
      ⟨pieces, []⟩ := by
    unfold Plan.preload
    rw [sorted]
    refine Run.bind_yields.2 ⟨[("lib/a.js", none)], rfl, ?_⟩
    exact Run.bind_yields.2 ⟨_, Run.mapM_yields.2 (.cons embeds .nil), Run.pure_yields.2 rfl⟩
  exact Run.bind_yields.2 ⟨_, Run.bind_yields.2 ⟨_, preload, Run.pure_yields.2 rfl⟩, rfl⟩

/-- The bundle up to the script. -/
def front : String := "sap.ui.require.preload(\x7b\n\"lib/a.js\":function()\x7b\nvar a; // end\n"

theorem creates : (builder.create {} definition).Succeeds :=
  Builder.create_progress (Nat.le_refl 1) (Builder.build_plain resolves rfl (by decide))

/-- The comment ends before the global is passed on. -/
theorem comment_ends : (Builder.ofPool memory.toPool none).Yields builder ∧
    ∃ bundle, (builder.create {} definition).Yields [bundle] ∧
      bundle.content = front ++ "this.a=a;\n\x7d\n\x7d);\n" ∧ bundle.Begins front "this.a=a;" := by
  obtain ⟨bundles, h⟩ := creates
  have one : ({} : Options).numberOfParts ≤ 1 := Nat.le_refl 1
  obtain ⟨bundle, r, _, rfl, again, same, content, _, lines, _⟩ := Builder.create_begins one h
  cases resolves.unique again
  cases planned.unique same
  let steps := pieces.flatMap Piece.steps
  have written : (after {} (allCalls .modern steps)).text =
      front ++ "this.a=a;\n\x7d\n\x7d);\n" := by
    decide +kernel
  have begun : (after {} (allCalls .modern (steps.take 4))).freshLine.text = front := by
    decide +kernel
  have passed : (LineStart.assignment "a").text .modern = "this.a=a;" := by decide +kernel
  have begins := lines (steps.take 4) (.assignment "a") _ rfl
  exact ⟨rfl, bundle, h, content.symm.trans written, passed ▸ begun ▸ begins⟩

end Commented

end Bundler
