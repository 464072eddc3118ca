import Bundler.Definition
import Bundler.Fault
import Bundler.Format

/-!
# Runs

A run logs events and ends with a value or a fault. The events before a fault are kept.
-/

namespace Bundler

inductive Level where
  | error
  | warn
  | info
  | debug
  | trace
  deriving DecidableEq, Repr

namespace Level

def label : Level → String
  | .error => "ERROR"
  | .warn => "WARN"
  | .info => "INFO"
  | .debug => "DEBUG"
  | .trace => "TRACE"

end Level

inductive Event where
  | openedPool (root : String) (resources described : Nat)
  | usingFormat (format : Format)
  | resolving (bundle : String)
  | unavailable (module : String) (cause : PoolError)
  | missing (module requirer : String)
  | unpacking (bundle : String) (count : Nat)
  | noMetadata (module : String)
  | cyclic (modules : List String)
  | resolvedSection (mode : Mode) (name : Option String) (count : Nat)
  | repeatedVisits (count : Nat) (bundle : String)
  | noMetadataOfEmbedded (module : String) (cause : PoolError)
  | unmeasured (module : String) (cause : PoolError)
  | splitting (bundle : String) (total parts partSize : Nat)
  | closingPart (name : String) (size : Nat)
  | split (bundle : String) (parts : Nat)
  | rawNotEmbedded (module : String) (cause : PoolError)
  | notEmbedded (module : String) (cause : PoolError)
  | unsupported (module : String)
  | notRewritten (module : String) (cause : PoolError)
  | malformedScript (module : String)
  | rewritten (module : String)
  | topLevelScope (module : String)
  | malformedJson (module : String)
  | created (bundle : String) (bytes segments : Nat)
  | wrote (path : String) (bytes modules : Nat)
  deriving DecidableEq, Repr

namespace Event

def level : Event → Level
  | .missing .. | .rawNotEmbedded .. | .notEmbedded .. | .unsupported _ | .malformedScript _ =>
    .error
  | .cyclic _ | .topLevelScope _ | .malformedJson _ => .warn
  | .splitting .. | .split .. | .created .. | .wrote .. => .info
  | .repeatedVisits .. => .trace
  | _ => .debug

def sectionTitle (mode : Mode) (name : Option String) : String :=
  match name with
  | some name => s!"{mode.label} section '{name}'"
  | none => s!"{mode.label} section"

def message : Event → String
  | .openedPool root resources described =>
    s!"Opened resource pool {root} with {resources} resources ({described} with metadata)"
  | .usingFormat format => s!"Using {format.label} bundle format"
  | .resolving bundle => s!"Resolving bundle {bundle}"
  | .unavailable module cause => s!"Skipping unavailable module {module}: {cause.message}"
  | .missing module requirer => missingMessage module requirer
  | .unpacking bundle count => s!"Unpacking bundle {bundle} into its {count} sub-modules"
  | .noMetadata module => s!"No metadata for {module}, treating it as dependency-free"
  | .cyclic modules =>
    "Cyclic dependencies between " ++ String.intercalate ", " modules ++
      "; keeping their original order"
  | .resolvedSection mode name count => s!"Resolved {sectionTitle mode name}: {count} modules"
  | .repeatedVisits count bundle => s!"{count} repeated visits while resolving {bundle}"
  | .noMetadataOfEmbedded module cause =>
    s!"No metadata for embedded module {module}: {cause.message}"
  | .unmeasured module cause => s!"Cannot measure {module}: {cause.message}"
  | .splitting bundle total parts partSize =>
    s!"Splitting {bundle}: total size of modules {total} (chars), " ++
      s!"target size for each of the {parts} parts: {partSize} (chars)"
  | .closingPart name size => s!"Closing part {name} at {size} (chars)"
  | .split bundle parts => s!"Split {bundle} into {parts} parts"
  | .rawNotEmbedded module cause => s!"Cannot embed raw module {module}: {cause.message}"
  | .notEmbedded module cause => s!"Cannot embed module {module}: {cause.message}"
  | .unsupported module => s!"Cannot embed module {module}: unsupported resource type"
  | .notRewritten module cause => s!"Cannot rewrite {module}: {cause.message}"
  | .malformedScript module => s!"Error while parsing {module}, embedding it without rewrite"
  | .rewritten module => s!"Rewrote registration of {module} to sap.ui.predefine"
  | .topLevelScope module =>
    s!"Module {module} requires top level scope and can only be embedded as a string " ++
      "(requires 'eval')"
  | .malformedJson module => s!"Cannot normalize JSON of {module}, embedding it as is"
  | .created bundle bytes segments =>
    s!"Created bundle {bundle} ({bytes} bytes, {segments} segments)"
  | .wrote path bytes modules => s!"Wrote {path} ({bytes} bytes, {modules} modules)"

end Event

structure Run (α : Type) where
  log : List Event
  result : Except Fault α

namespace Run

variable {α β : Type}

def pure (a : α) : Run α := ⟨[], .ok a⟩

def bind (r : Run α) (f : α → Run β) : Run β :=
  match r.result with
  | .ok a => ⟨r.log ++ (f a).log, (f a).result⟩
  | .error e => ⟨r.log, .error e⟩

instance : Monad Run where
  pure := pure
  bind := bind

theorem id_map (r : Run α) : id <$> r = r := by
  obtain ⟨l, r⟩ := r
  cases r <;> simp [Functor.map, bind, pure]

theorem pure_bind (a : α) (f : α → Run β) : Pure.pure a >>= f = f a := by
  simp [Bind.bind, Pure.pure, bind, pure]

theorem bind_assoc {γ : Type} (r : Run α) (f : α → Run β) (g : β → Run γ) :
    r >>= f >>= g = r >>= fun a => f a >>= g := by
  obtain ⟨l, r⟩ := r
  cases r with
  | error e => rfl
  | ok a =>
    simp only [Bind.bind, bind]
    cases h : (f a).result <;> simp [List.append_assoc]

instance : LawfulMonad Run := LawfulMonad.mk' Run id_map pure_bind bind_assoc

def log1 (e : Event) : Run Unit := ⟨[e], .ok ()⟩

def fail (e : Fault) : Run α := ⟨[], .error e⟩

/-- The value of a computation that logs nothing. -/
def ofExcept {ε : Type} (fault : ε → Fault) : Except ε α → Run α
  | .ok a => .pure a
  | .error e => fail (fault e)

/-- The same run without its log. -/
def silent (r : Run α) : Run α := ⟨[], r.result⟩

/-- Explains a fault by its circumstances. -/
def explain (f : Fault → Fault) (r : Run α) : Run α := ⟨r.log, r.result.mapError f⟩

end Run

end Bundler
