import Bundler.Predefine
import Bundler.Proofs.Edits

/-!
# Rewritten registrations

A script is rewritten at places that a parser reports. All that matters about a report is that the
name of a callee, the arguments and the end of the call follow one another (`Script.Laid`). Then the
edits of a registration keep apart, whatever is asked for. So asking for parentheses puts them around
the factory and does nothing else (`eager_encloses`), and a rewritten script is its source but for the
edits (`alters_only_edits`).
-/

namespace Bundler

open Script (Span Expression Statement)

namespace Script

/-- Where the name that a callee ends with stands. -/
def Expression.nameSpan? : Expression → Option Span
  | .identifier _ span | .member _ _ span => some span
  | _ => none

/-- Places in a call in order. Something is left for a parenthesis behind the callee. -/
structure CallSpans (length : Nat) (name : Span) (arguments : List Span) (call : Span) : Prop where
  callee : name.start ≤ name.stop
  inside : ∀ a ∈ arguments, name.stop ≤ a.start ∧ a.start ≤ a.stop ∧ a.stop ≤ call.stop
  ordered : arguments.Pairwise fun a b => a.stop ≤ b.start
  closed : name.stop < call.stop
  within : call.stop ≤ length

instance (length : Nat) (name : Span) (arguments : List Span) (call : Span) :
    Decidable (CallSpans length name arguments call) :=
  decidable_of_iff (name.start ≤ name.stop ∧
      (∀ a ∈ arguments, name.stop ≤ a.start ∧ a.start ≤ a.stop ∧ a.stop ≤ call.stop) ∧
      arguments.Pairwise (fun a b => a.stop ≤ b.start) ∧ name.stop < call.stop ∧
      call.stop ≤ length)
    ⟨fun ⟨callee, inside, ordered, closed, within⟩ => ⟨callee, inside, ordered, closed, within⟩,
      fun h => ⟨h.callee, h.inside, h.ordered, h.closed, h.within⟩⟩

/-- The places in a statement that is a call lie in order. -/
def Statement.Laid (length : Nat) : Statement → Prop
  | .expression (.call callee arguments call) =>
    ∀ name ∈ callee.nameSpan?, CallSpans length name (arguments.map Prod.fst) call
  | _ => True

instance (length : Nat) : (s : Statement) → Decidable (s.Laid length)
  | .expression (.call callee arguments call) =>
    inferInstanceAs (Decidable (∀ name ∈ callee.nameSpan?,
      CallSpans length name (arguments.map Prod.fst) call))
  | .expression (.identifier ..) | .expression (.member ..) | .expression .place
  | .expression .string | .expression (.array _) | .expression (.object _)
  | .expression .function | .expression .arrow | .expression (.parenthesized _)
  | .expression .assignment | .expression .unary | .expression .other | .other =>
    inferInstanceAs (Decidable True)

/-- What a parser reports of a script of a length, with places in order. -/
def Laid (length : Nat) (report : Option (List Statement)) : Prop :=
  ∀ statements ∈ report, ∀ s ∈ statements, s.Laid length

instance (length : Nat) (report : Option (List Statement)) : Decidable (Laid length report) :=
  inferInstanceAs (Decidable (∀ statements ∈ report, ∀ s ∈ statements, s.Laid length))

end Script

namespace Registration

variable {r : Registration} {name : String} {eager : Bool} {length : Nat}
  {statements : List Statement} {callee : Expression} {e : Edit Char} {span : Span}

/-! ## What is recognized -/

/-- How a callee is renamed: `define` gives way to the new name, and the last name of
`sap.ui.define` is prefixed. -/
inductive Renames : Expression → Edit Char → Prop
  | bare (span : Span) :
    Renames (.identifier "define" span) ⟨span.start, span.stop, "sap.ui.predefine".toList⟩
  | qualified (root middle span : Span) :
    Renames (.member (.member (.identifier "sap" root) "ui" middle) "define" span)
      (.insert span.start "pre".toList)

theorem calleeEdit_eq_some : calleeEdit? callee = some e ↔ Renames callee e := by
  constructor
  · intro h
    unfold calleeEdit? at h
    split at h
    · cases h
      exact .bare _
    · cases h
      exact .qualified _ _ _
    · cases h
  · rintro (_ | _) <;> rfl

theorem ofStatements_eq_some : ofStatements? statements = some r ↔
    ∃ callee span, statements = [.expression (.call callee r.arguments span)] ∧
      Renames callee r.callee ∧ r.stop = span.stop := by
  constructor
  · intro h
    unfold ofStatements? at h
    split at h
    · obtain ⟨e, found, rfl⟩ := Option.map_eq_some_iff.1 h
      exact ⟨_, _, rfl, calleeEdit_eq_some.1 found, rfl⟩
    · cases h
  · rintro ⟨callee, span, rfl, renames, stop⟩
    rw [ofStatements?, calleeEdit_eq_some.2 renames, Option.map_some, ← stop]

/-- The argument after a string, if there is one, and then an array, if there is one, is a
function. -/
def HasFactory (arguments : List (Span × Expression)) (span : Span) : Prop :=
  ∃ names dependencies e rest, arguments = names ++ dependencies ++ (span, e) :: rest ∧
    (names = [] ∨ ∃ a, names = [a] ∧ isString a) ∧
    (dependencies = [] ∨ ∃ a, dependencies = [a] ∧ isArray a) ∧ isFunction (span, e)

theorem skipIf_append {α : Type} {p : α → Bool} {skipped rest : List α}
    (h : skipped = [] ∨ ∃ a, skipped = [a] ∧ p a) (h' : ∀ a ∈ rest.head?, p a = false) :
    skipIf p (skipped ++ rest) = rest := by
  rcases h with rfl | ⟨a, rfl, ha⟩
  · cases rest with
    | nil => rfl
    | cons a rest =>
      have other : p a = false := h' a rfl
      simp [skipIf, other]
  · simp [skipIf, ha]

theorem exists_skipIf {α : Type} (p : α → Bool) (s : List α) :
    ∃ skipped, s = skipped ++ skipIf p s ∧ (skipped = [] ∨ ∃ a, skipped = [a] ∧ p a) := by
  cases s with
  | nil => exact ⟨[], rfl, .inl rfl⟩
  | cons a rest =>
    by_cases h : p a
    · exact ⟨[a], by simp [skipIf, h], .inr ⟨a, rfl, h⟩⟩
    · exact ⟨[], by simp [skipIf, h], .inl rfl⟩

theorem kinds_disjoint (a : Span × Expression) :
    (isFunction a → isString a = false ∧ isArray a = false) ∧
      (isArray a → isString a = false) := by
  obtain ⟨span, e⟩ := a
  cases e <;> simp [isFunction, isString, isArray]

theorem factory_eq_some : r.factory? = some span ↔ HasFactory r.arguments span := by
  constructor
  · intro h
    obtain ⟨names, parted, first⟩ := exists_skipIf isString r.arguments
    obtain ⟨dependencies, parted', second⟩ := exists_skipIf isArray (skipIf isString r.arguments)
    unfold factory? at h
    split at h
    case h_1 a rest found =>
      split at h
      case isTrue function =>
        cases h
        refine ⟨names, dependencies, a.2, rest, ?_, first, second, function⟩
        rw [List.append_assoc, ← found, ← parted', ← parted]
      case isFalse => cases h
    case h_2 => cases h
  · rintro ⟨names, dependencies, e, rest, parted, first, second, function⟩
    have unnamed : ∀ a ∈ (dependencies ++ (span, e) :: rest).head?, isString a = false := by
      rcases second with rfl | ⟨b, rfl, array⟩
      · simpa using ((kinds_disjoint _).1 function).1
      · simpa using (kinds_disjoint _).2 array
    have other : ∀ a ∈ ((span, e) :: rest).head?, isArray a = false := by
      simpa using ((kinds_disjoint _).1 function).2
    rw [factory?, parted, List.append_assoc, skipIf_append first unnamed,
      skipIf_append second other]
    exact if_pos function

/-! ## What is inserted -/

/-- A module is named by what it is required by, without its extension. -/
def quotedName (name : String) : List Char := (Json.quote (Name.requireName name)).toList

/-- What the first argument is preceded by. -/
def given (r : Registration) (name : String) : List Char :=
  if r.isNamed then [] else quotedName name ++ [',', ' ']

/-- What is inserted behind the callee, and where. -/
inductive Insertion (r : Registration) (name : String) : Edit Char → Prop
  | alone (empty : r.arguments = []) : Insertion r name (.insert (r.stop - 1) (quotedName name))
  | first {a : Span × Expression} (unnamed : r.isNamed = false) (head : r.arguments.head? = some a) :
    Insertion r name (.insert a.1.start (quotedName name ++ [',', ' ']))
  | opening {span : Span} (found : HasFactory r.arguments span) :
    Insertion r name (.insert span.start ['('])
  | closing {span : Span} (found : HasFactory r.arguments span) :
    Insertion r name (.insert span.stop [')'])

theorem insertion_of_mem_nameEdits (h : e ∈ r.nameEdits name) : Insertion r name e := by
  unfold nameEdits at h
  split at h
  case isTrue => cases h
  case isFalse named =>
    split at h
    case h_1 empty =>
      rw [List.mem_singleton.1 h]
      exact .alone empty
    case h_2 span e rest parted =>
      rw [List.mem_singleton.1 h]
      exact .first (Bool.not_eq_true _ ▸ named) (by rw [parted]; rfl)

theorem insertion_of_mem_factoryEdits (h : e ∈ r.factoryEdits eager) : Insertion r name e := by
  unfold factoryEdits at h
  split at h
  case h_1 span found =>
    have found := factory_eq_some.1 found
    rcases List.mem_pair.1 h with rfl | rfl
    · exact .opening found
    · exact .closing found
  case h_2 => cases h

theorem insertion_of_mem (h : e ∈ r.nameEdits name ++ r.factoryEdits eager) :
    Insertion r name e := by
  rcases List.mem_append.1 h with h | h
  · exact insertion_of_mem_nameEdits h
  · exact insertion_of_mem_factoryEdits h

/-! ## Where edits lie -/

/-- The places of a registration in order. -/
structure Placed (length : Nat) (r : Registration) : Prop where
  callee : r.callee.start ≤ r.callee.stop
  inside : ∀ a ∈ r.arguments,
    r.callee.stop ≤ a.1.start ∧ a.1.start ≤ a.1.stop ∧ a.1.stop ≤ r.stop
  ordered : r.arguments.Pairwise fun a b => a.1.stop ≤ b.1.start
  closed : r.callee.stop < r.stop
  within : r.stop ≤ length

/-- The edit of a callee lies in its last name. -/
theorem Renames.within (h : Renames callee e) : ∃ name ∈ callee.nameSpan?,
    name.start ≤ name.stop → e.start ≤ e.stop ∧ e.stop ≤ name.stop := by
  cases h with
  | bare span => exact ⟨span, rfl, fun h => ⟨h, Nat.le_refl _⟩⟩
  | qualified root middle span => exact ⟨span, rfl, fun h => ⟨Nat.le_refl _, h⟩⟩

theorem placed_of_laid (laid : Script.Laid length (some statements))
    (h : ofStatements? statements = some r) : r.Placed length := by
  obtain ⟨callee, call, rfl, renames, stop⟩ := ofStatements_eq_some.1 h
  obtain ⟨name, ends, edited⟩ := renames.within
  have spans : Script.CallSpans length name (r.arguments.map Prod.fst) call :=
    laid _ rfl _ (List.mem_singleton_self _) name ends
  have edited := edited spans.callee
  constructor
  case callee => exact edited.1
  case inside =>
    intro a ha
    have inside := spans.inside a.1 (List.mem_map_of_mem ha)
    omega
  case ordered => exact List.pairwise_map.1 spans.ordered
  case closed =>
    have closed := spans.closed
    omega
  case within => exact stop ▸ spans.within

theorem HasFactory.mem {arguments : List (Span × Expression)} (h : HasFactory arguments span) :
    ∃ e, (span, e) ∈ arguments := by
  obtain ⟨names, dependencies, e, rest, rfl, _⟩ := h
  exact ⟨e, by simp⟩

/-- All that is inserted stands behind the callee in the call. -/
theorem Insertion.behind (h : Insertion r name e) (placed : r.Placed length) :
    ∃ place text, e = .insert place text ∧ r.callee.stop ≤ place ∧ place ≤ r.stop := by
  cases h with
  | alone empty =>
    have closed := placed.closed
    exact ⟨r.stop - 1, _, rfl, by omega, by omega⟩
  | @first a unnamed head =>
    obtain ⟨before, filled, inside⟩ := placed.inside a (List.mem_of_head? head)
    exact ⟨a.1.start, _, rfl, before, Nat.le_trans filled inside⟩
  | @opening span found =>
    obtain ⟨e, argument⟩ := found.mem
    obtain ⟨before, filled, inside⟩ := placed.inside _ argument
    exact ⟨span.start, _, rfl, before, Nat.le_trans filled inside⟩
  | @closing span found =>
    obtain ⟨e, argument⟩ := found.mem
    obtain ⟨before, filled, inside⟩ := placed.inside _ argument
    exact ⟨span.stop, _, rfl, Nat.le_trans before filled, inside⟩

/-- Only the callee is replaced; all other edits are insertions behind it. -/
theorem Placed.apart (placed : r.Placed length) (name : String) (eager : Bool) :
    Edit.Apart length (r.edits name eager) := by
  refine .of_insertions placed.callee ?_ fun e he => ?_
  · exact Nat.le_trans (Nat.le_of_lt placed.closed) placed.within
  · obtain ⟨place, text, rfl, behind, inside⟩ := (insertion_of_mem he).behind placed
    exact ⟨rfl, behind, Nat.le_trans inside placed.within⟩

/-! ## With and without parentheses -/

/-- How the code with parentheses around the factory compares with the code without them. -/
inductive Encloses (r : Registration) (name : String) (source : List Char) :
    List Char → List Char → Prop
  | same (code : List Char) (none : ∀ span, ¬HasFactory r.arguments span) :
    Encloses r name source code code
  /-- In both, what precedes the first argument in the source is followed by the name, if there was
  none. -/
  | enclosed {span : Span} {front between factory back : List Char}
    (found : HasFactory r.arguments span) (parts : source = front ++ between ++ factory ++ back)
    (first : ∀ a ∈ r.arguments.head?, front.length = a.1.start)
    (start : (front ++ between).length = span.start)
    (stop : (front ++ between ++ factory).length = span.stop) :
    Encloses r name source
      (Edit.splice front r.callee ++ r.given name ++ between ++ factory ++ back)
      (Edit.splice front r.callee ++ r.given name ++ between ++
        ['('] ++ factory ++ [')'] ++ back)

theorem weave_callee {s : List Char} (h : r.callee.start ≤ r.callee.stop)
    (h' : r.callee.stop ≤ s.length) : Edit.weave [r.callee] 0 s = Edit.splice s r.callee := by
  rw [← Edit.splice_weave h h' (by simp), Edit.weave_nil]

theorem nameEdits_eq {a : Span × Expression} (head : r.arguments.head? = some a) (name : String) :
    r.nameEdits name = [] ∧ r.given name = [] ∨
      r.nameEdits name = [.insert a.1.start (r.given name)] := by
  obtain ⟨others, parted⟩ := List.head?_eq_some_iff.1 head
  by_cases named : r.isNamed
  · exact .inl ⟨if_pos named, if_pos named⟩
  · rw [nameEdits, given, if_neg named, if_neg named, parted]
    exact .inr rfl

/-- Whatever else is inserted, the source before the first argument comes with the new callee and is
followed by the name, if there was none. -/
theorem weave_front {a : Span × Expression} {front rest : List Char} {later : List (Edit Char)}
    (placed : r.Placed length) (head : r.arguments.head? = some a)
    (start : front.length = a.1.start) (behind : ∀ e ∈ later, front.length ≤ e.start) :
    Edit.weave (r.callee :: (r.nameEdits name ++ later)) 0 (front ++ rest) =
      Edit.splice front r.callee ++ r.given name ++ Edit.weave later front.length rest := by
  have bound : r.callee.stop ≤ front.length :=
    start ▸ (placed.inside a (List.mem_of_head? head)).1
  have bound' := Nat.le_trans placed.callee bound
  have callee := weave_callee placed.callee bound
  rcases nameEdits_eq head name with ⟨none, empty⟩ | one
  · have cut := @Edit.weave_append Char [r.callee] later 0 front rest
      (by simpa using ⟨bound', bound⟩) (by simpa using behind)
    rw [callee, Nat.zero_add] at cut
    rw [none, empty, List.append_nil]
    exact cut
  · have cut := @Edit.weave_append Char [r.callee] (.insert front.length (r.given name) :: later) 0
      front rest (by simpa using ⟨bound', bound⟩) (by simpa [Edit.insert] using behind)
    rw [callee, Nat.zero_add, Edit.weave_insert behind] at cut
    rw [one, ← start, List.append_assoc]
    exact cut

theorem exists_cut {i : Nat} {s : List Char} (h : i ≤ s.length) :
    ∃ front back, s = front ++ back ∧ front.length = i :=
  ⟨s.take i, s.drop i, (List.take_append_drop i s).symm, List.length_take_of_le h⟩

/-- The first argument and the factory part the source. -/
theorem Placed.parts {source : List Char} (placed : r.Placed source.length)
    (found : HasFactory r.arguments span) :
    ∃ a front between factory back, r.arguments.head? = some a ∧
      source = front ++ between ++ factory ++ back ∧ front.length = a.1.start ∧
      (front ++ between).length = span.start ∧
      (front ++ between ++ factory).length = span.stop := by
  obtain ⟨e, argument⟩ := found.mem
  obtain ⟨-, filled, inside⟩ := placed.inside _ argument
  obtain ⟨a, rest, parted⟩ := List.exists_cons_of_ne_nil (List.ne_nil_of_mem argument)
  have first : a.1.start ≤ span.start := by
    have filled := (placed.inside a (parted ▸ List.mem_cons_self)).2.1
    rcases List.mem_cons.1 (parted ▸ argument) with rfl | argument
    · exact Nat.le_refl _
    · have ordered := List.pairwise_cons.1 (parted ▸ placed.ordered)
      exact Nat.le_trans filled (ordered.1 _ argument)
  obtain ⟨before, factory, back, rfl, start, stop⟩ :=
    Edit.exists_parts filled (Nat.le_trans inside placed.within)
  obtain ⟨front, between, rfl, here⟩ := exists_cut (start ▸ first)
  exact ⟨a, front, between, factory, back, congrArg List.head? parted, rfl, here, start, stop⟩

theorem factoryEdits_none (h : r.factory? = none) (eager : Bool) : r.factoryEdits eager = [] := by
  unfold factoryEdits
  split
  case h_1 span found =>
    rw [h] at found
    cases found
  case h_2 => rfl

theorem factoryEdits_some (h : r.factory? = some span) :
    r.factoryEdits true = [.insert span.start ['('], .insert span.stop [')']] := by
  unfold factoryEdits
  rw [h]

theorem weave_bare {a : Span × Expression} {front rest : List Char} (placed : r.Placed length)
    (head : r.arguments.head? = some a) (first : front.length = a.1.start) :
    Edit.weave (r.edits name false) 0 (front ++ rest) =
      Edit.splice front r.callee ++ r.given name ++ rest := by
  rw [edits, weave_front placed head first (by simp [factoryEdits])]
  exact congrArg _ (Edit.weave_nil _ _)

theorem weave_enclosed {a : Span × Expression} {front between factory back : List Char}
    (placed : r.Placed length) (head : r.arguments.head? = some a)
    (first : front.length = a.1.start) (found : r.factory? = some span)
    (start : (front ++ between).length = span.start)
    (stop : (front ++ between ++ factory).length = span.stop) :
    Edit.weave (r.edits name true) 0 (front ++ (between ++ (factory ++ back))) =
      Edit.splice front r.callee ++ r.given name ++
        (between ++ (['('] ++ (factory ++ ([')'] ++ back)))) := by
  have parentheses : r.factoryEdits true =
      [.insert (front.length + between.length) ['('],
        .insert (front.length + between.length + factory.length) [')']] := by
    rw [factoryEdits_some found, ← start, ← stop]
    simp only [List.length_append]
  rw [edits, parentheses, weave_front placed head first (by simp [Edit.insert, Nat.add_assoc]),
    Edit.weave_enclose]

/-- Asking for parentheses puts them around the factory and does nothing else. -/
theorem Placed.encloses {source : List Char} (placed : r.Placed source.length) (name : String) :
    Encloses r name source (Edit.apply source (r.edits name false))
      (Edit.apply source (r.edits name true)) := by
  rw [Edit.apply_eq_weave (placed.apart name false), Edit.apply_eq_weave (placed.apart name true)]
  cases factory : r.factory? with
  | none =>
    have without : ∀ span, ¬HasFactory r.arguments span := by
      intro span found
      rw [factory_eq_some.2 found] at factory
      cases factory
    rw [edits, edits, factoryEdits_none factory, factoryEdits_none factory]
    exact .same _ without
  | some span =>
    have found := factory_eq_some.1 factory
    obtain ⟨a, front, between, text, back, head, rfl, first, start, stop⟩ := placed.parts found
    have whole : Encloses r name (front ++ between ++ text ++ back) _ _ :=
      .enclosed found rfl (by simpa [head]) start stop
    simpa only [List.append_assoc, weave_bare placed head first,
      weave_enclosed placed head first factory start stop] using whole

end Registration

namespace Predefinition

open Registration

variable {name source : String} {eager : Bool} {report : Option (List Statement)}
  {p : Predefinition}

theorem ofReport_eq_ok : ofReport name source eager report = .ok p ↔
    ∃ statements r, report = some statements ∧ ofStatements? statements = some r ∧
      p = ⟨String.ofList (Edit.apply source.toList (r.edits name eager)), !r.isNamed⟩ := by
  constructor
  · intro h
    unfold ofReport at h
    split at h
    case h_1 => cases h
    case h_2 statements =>
      split at h
      case h_1 => cases h
      case h_2 r recognized =>
        cases h
        exact ⟨statements, r, rfl, recognized, rfl⟩
  · rintro ⟨statements, r, rfl, recognized, rfl⟩
    rw [ofReport, recognized]

/-- What the edits of a registration come to, without performing them one after the other. -/
theorem toOption_ofReport (laid : Script.Laid source.length report) :
    (ofReport name source eager report).toOption = (report.bind ofStatements?).map fun r =>
      ⟨String.ofList (Edit.weave (r.edits name eager) 0 source.toList), !r.isNamed⟩ := by
  cases report with
  | none => rfl
  | some statements =>
    rw [ofReport, Option.bind_some]
    cases recognized : ofStatements? statements with
    | none => rfl
    | some r =>
      have apart := (placed_of_laid laid recognized).apart name eager
      rw [Option.map_some, ← Edit.apply_eq_weave apart]
      rfl

/-- **With and without parentheses, the same scripts are rewritten, and to the same but for the
parentheses.** -/
theorem eager_encloses (name source : String) (report : Option (List Statement))
    (laid : Script.Laid source.length report) :
    (∃ refusal, ofReport name source false report = .error refusal ∧
      ofReport name source true report = .error refusal) ∨
    ∃ statements r bare enclosed, report = some statements ∧ ofStatements? statements = some r ∧
      ofReport name source false report = .ok ⟨bare, !r.isNamed⟩ ∧
      ofReport name source true report = .ok ⟨enclosed, !r.isNamed⟩ ∧
      Encloses r name source.toList bare.toList enclosed.toList := by
  cases report with
  | none => exact .inl ⟨.malformed, rfl, rfl⟩
  | some statements =>
    cases recognized : ofStatements? statements with
    | none =>
      refine .inl ⟨.noRegistration, ?_, ?_⟩ <;> rw [ofReport, recognized]
    | some r =>
      have placed := placed_of_laid laid recognized
      have run (eager : Bool) : ofReport name source eager (some statements) =
          .ok ⟨String.ofList (Edit.apply source.toList (r.edits name eager)), !r.isNamed⟩ :=
        ofReport_eq_ok.2 ⟨statements, r, rfl, recognized, rfl⟩
      refine .inr ⟨statements, r, _, _, rfl, recognized, run false, run true, ?_⟩
      rw [String.toList_ofList, String.toList_ofList]
      exact placed.encloses name

/-- The factory is the first argument. -/
def arrow : String := "define(() => 1);"

theorem arrow_enclosed : Script.Laid arrow.length (Script.parse arrow.toList) ∧
    (ofReport "a/c.js" arrow false (Script.parse arrow.toList)).toOption =
      some ⟨"sap.ui.predefine(\"a/c\", () => 1);", true⟩ ∧
    (ofReport "a/c.js" arrow true (Script.parse arrow.toList)).toOption =
      some ⟨"sap.ui.predefine(\"a/c\", (() => 1));", true⟩ ∧
    ∃ r, Encloses r "a/c.js" arrow.toList "sap.ui.predefine(\"a/c\", () => 1);".toList
      "sap.ui.predefine(\"a/c\", (() => 1));".toList := by
  have laid : Script.Laid arrow.length (Script.parse arrow.toList) := by decide +kernel
  have bare : (ofReport "a/c.js" arrow false (Script.parse arrow.toList)).toOption =
      some ⟨"sap.ui.predefine(\"a/c\", () => 1);", true⟩ := by
    rw [toOption_ofReport laid]
    decide +kernel
  have enclosed : (ofReport "a/c.js" arrow true (Script.parse arrow.toList)).toOption =
      some ⟨"sap.ui.predefine(\"a/c\", (() => 1));", true⟩ := by
    rw [toOption_ofReport laid]
    decide +kernel
  refine ⟨laid, bare, enclosed, ?_⟩
  rcases eager_encloses "a/c.js" arrow _ laid with
    ⟨refusal, failed, -⟩ | ⟨statements, r, code, code', -, -, bare', enclosed', compared⟩
  · rw [failed] at bare
    cases bare
  · rw [bare'] at bare
    rw [enclosed'] at enclosed
    have same : code = _ := congrArg Predefinition.code (Option.some.inj bare)
    have same' : code' = _ := congrArg Predefinition.code (Option.some.inj enclosed)
    rw [same, same'] at compared
    exact ⟨r, compared⟩

/-! ## Nothing else is altered -/

/-- A script was rewritten at nothing but its callee, the name and the parentheses. -/
structure Altered (r : Registration) (name : String) (eager : Bool) (source code : String) :
    Prop where
  apart : Edit.Apart source.toList.length (r.edits name eager)
  edits : ∀ e ∈ r.edits name eager, e = r.callee ∨ Insertion r name e
  characters : code.toList = Edit.weave (r.edits name eager) 0 source.toList
  bytes : Utf8.encode code =
    Edit.weave ((r.edits name eager).map (Edit.byteEdit source)) 0 (Utf8.encode source)

/-- **Nothing but what is edited is altered.** Edits that keep apart come to one pass that copies
what lies between them, of the bytes as of the characters, and those of a registration do keep
apart. -/
theorem alters_only_edits :
    (∀ (α : Type) (source : List α) (edits : List (Edit α)), Edit.Apart source.length edits →
      Edit.apply source edits = Edit.weave edits 0 source) ∧
    (∀ (source : String) (edits : List (Edit Char)), Edit.Apart source.toList.length edits →
      Edit.Apart (Utf8.encode source).length (edits.map (Edit.byteEdit source)) ∧
      Edit.apply (Utf8.encode source) (edits.map (Edit.byteEdit source)) =
        Utf8.encode (String.ofList (Edit.apply source.toList edits))) ∧
    ∀ (name source : String) (eager : Bool) (report : Option (List Statement)),
      Script.Laid source.length report → ∀ p, ofReport name source eager report = .ok p →
      ∃ callee span r, report = some [.expression (.call callee r.arguments span)] ∧
        Renames callee r.callee ∧ r.stop = span.stop ∧ Altered r name eager source p.code := by
  refine ⟨fun α source edits h => Edit.apply_eq_weave h,
    fun source edits h => ⟨h.bytes, Edit.apply_bytes h⟩, ?_⟩
  intro name source eager report laid p h
  obtain ⟨statements, r, rfl, recognized, rfl⟩ := ofReport_eq_ok.1 h
  obtain ⟨callee, span, rfl, renames, stop⟩ := ofStatements_eq_some.1 recognized
  have apart := (placed_of_laid laid recognized).apart name eager
  refine ⟨callee, span, r, rfl, renames, stop, apart, ?_, ?_, ?_⟩
  · intro e he
    exact (List.mem_cons.1 he).imp_right insertion_of_mem
  · rw [String.toList_ofList, Edit.apply_eq_weave apart]
  · rw [← Edit.apply_bytes apart, Edit.apply_eq_weave apart.bytes]

/-- It has more bytes than characters. -/
def commented : String := "/* ü */ sap.ui.define([], function () \x7b\x7d);"

def marks : List (Edit Char) := [⟨3, 4, ['u']⟩, .insert 2 ['<'], .insert 5 ['>']]

theorem commented_altered :
    Edit.Apart commented.toList.length marks ∧
    Edit.apply commented.toList marks = Edit.weave marks 0 commented.toList ∧
    Edit.apply (Utf8.encode commented) (marks.map (Edit.byteEdit commented)) =
      Utf8.encode (String.ofList (Edit.apply commented.toList marks)) ∧
    Script.Laid commented.length (Script.parse commented.toList) ∧
    ∃ p r, ofReport "a/b.js" commented true (Script.parse commented.toList) = .ok p ∧
      Altered r "a/b.js" true commented p.code := by
  have apart : Edit.Apart commented.toList.length marks :=
    ⟨by decide +kernel, by decide +kernel, by decide +kernel⟩
  have laid : Script.Laid commented.length (Script.parse commented.toList) := by decide +kernel
  have succeeds : (ofReport "a/b.js" commented true (Script.parse commented.toList)).isOk = true := by
    decide +kernel
  obtain ⟨pass, bytes, rewritten⟩ := alters_only_edits
  refine ⟨apart, pass _ _ _ apart, (bytes _ _ apart).2, laid, ?_⟩
  cases result : ofReport "a/b.js" commented true (Script.parse commented.toList) with
  | error refusal =>
    rw [result] at succeeds
    cases succeeds
  | ok p =>
    obtain ⟨callee, span, r, -, -, -, altered⟩ := rewritten _ _ _ _ laid p result
    exact ⟨p, r, rfl, altered⟩

end Predefinition

end Bundler
