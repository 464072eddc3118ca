import Bundler.Proofs.Accounting
import Bundler.Proofs.Placement
import Bundler.Proofs.Texts

/-!
# When raw modules are declared

The declarations of raw modules are put off while sections of all modes are planned. `Plan.Sound`
is what every step keeps: no declaration is lost or doubled, each stands behind its module, and none
is due where a raw module may use the legacy interface. `create_declares` says where the
declarations stand in a bundle.
-/

namespace Bundler

/-- The script contains `jQuery.sap.`. -/
theorem Plan.usesLegacyInterface_iff {code : String} :
    usesLegacyInterface code ↔ ∃ before after, code = before ++ "jQuery.sap." ++ after := by
  rw [usesLegacyInterface, Text.hasInfix_iff]
  constructor
  · rintro ⟨before, after, whole⟩
    refine ⟨String.ofList before, String.ofList after, String.toList_inj.1 ?_⟩
    simp [← whole]
  · rintro ⟨before, after, rfl⟩
    exact ⟨before.toList, after.toList, by simp⟩

theorem Utf8.encode_injective {s t : String} (h : encode s = encode t) : s = t := by
  have arrays : s.toUTF8.data = t.toUTF8.data := Array.toList_inj.1 h
  exact String.toByteArray_inj.1 (ByteArray.ext arrays)

theorem Writer.lt_of_slice {s : Segment} {text code : String}
    (h : slice s text = Utf8.encode code) (filled : code ≠ "") : s.startIndex < s.endIndex := by
  by_contra empty
  have none : s.length = 0 := by
    unfold Segment.length
    omega
  have bytes := Utf8.encode_length code
  rw [← h, slice, none, List.take_zero] at bytes
  exact filled (String.utf8ByteSize_eq_zero_iff.1 bytes.symm)

/-! ## Pieces in time -/

namespace Piece

def raw? : Piece → Option String
  | .raw module _ => some module
  | _ => none

def declared? : Piece → Option String
  | .declaration module => some module
  | _ => none

/-- The raw modules among the pieces. -/
def raws (pieces : List Piece) : List String := pieces.filterMap raw?

/-- The modules that the pieces declare. -/
def declared (pieces : List Piece) : List String := pieces.filterMap declared?

/-- The piece belongs to the end of a bundle. -/
def Closes : Piece → Prop
  | .boot | .tryClosing => True
  | _ => False

/-- What may stand behind these pieces, if `declaring` are the modules to be declared: a declaration
if its module does and no end has come; a raw module that may use the legacy interface if no
declaration is due. -/
def Timely (declaring : List String) (before : List Piece) : Piece → Prop
  | .declaration module => module ∈ raws before ∧ ∀ x ∈ before, ¬x.Closes
  | .raw _ code => Plan.usesLegacyInterface code →
      declared before = (raws before).filter (· ∈ declaring)
  | _ => True

def Ordered (declaring : List String) (pieces : List Piece) : Prop :=
  ∀ before x after, pieces = before ++ x :: after → x.Timely declaring before

variable {declaring : List String} {pieces more : List Piece} {module : String}

theorem raws_append (pieces more : List Piece) : raws (pieces ++ more) = raws pieces ++ raws more :=
  List.filterMap_append

theorem declared_append (pieces more : List Piece) :
    declared (pieces ++ more) = declared pieces ++ declared more :=
  List.filterMap_append

theorem mem_raws : module ∈ raws pieces ↔ ∃ code, .raw module code ∈ pieces := by
  rw [raws, List.mem_filterMap]
  constructor
  · rintro ⟨x, hx, same⟩
    cases x <;> cases same
    exact ⟨_, hx⟩
  · rintro ⟨code, hx⟩
    exact ⟨_, hx, rfl⟩

theorem mem_declared : module ∈ declared pieces ↔ .declaration module ∈ pieces := by
  rw [declared, List.mem_filterMap]
  constructor
  · rintro ⟨x, hx, same⟩
    cases x <;> cases same
    exact hx
  · intro hx
    exact ⟨_, hx, rfl⟩

theorem raws_declarations (modules : List String) : raws (modules.map .declaration) = [] := by
  rw [raws, List.filterMap_map]
  exact List.filterMap_eq_nil_iff.2 fun _ _ => rfl

/-- What is in two lists of pieces is in one of them. -/
theorem split_append {before after : List Piece} {x : Piece}
    (split : pieces ++ more = before ++ x :: after) :
    (∃ rest, pieces = before ++ x :: rest ∧ after = rest ++ more) ∨
      ∃ between, before = pieces ++ between ∧ more = between ++ x :: after := by
  rcases List.append_eq_append_iff.1 split with ⟨between, rfl, rest⟩ | ⟨between, rfl, rest⟩
  · exact .inr ⟨between, rfl, rest⟩
  · cases between with
    | nil => exact .inr ⟨[], by simp, rest.symm⟩
    | cons y between =>
      cases rest
      exact .inl ⟨between, rfl, rfl⟩

theorem Ordered.append (h : Ordered declaring pieces)
    (later : ∀ before x after, more = before ++ x :: after →
      x.Timely declaring (pieces ++ before)) : Ordered declaring (pieces ++ more) := by
  intro before x after whole
  rcases split_append whole with ⟨rest, split, _⟩ | ⟨between, rfl, split⟩
  · exact h before x rest split
  · exact later between x after split

/-- The piece has nothing to do with declarations. -/
structure Neutral (x : Piece) : Prop where
  raw : x.raw? = none
  declared : x.declared? = none
  unclosed : ¬x.Closes

theorem Neutral.timely {x : Piece} (h : x.Neutral) (before : List Piece) :
    x.Timely declaring before := by
  obtain ⟨raw, declared, _⟩ := h
  cases x <;> trivial

theorem raws_of_neutral (h : ∀ x ∈ pieces, x.Neutral) : raws pieces = [] :=
  List.filterMap_eq_nil_iff.2 fun x hx => (h x hx).raw

theorem declared_of_neutral (h : ∀ x ∈ pieces, x.Neutral) : declared pieces = [] :=
  List.filterMap_eq_nil_iff.2 fun x hx => (h x hx).declared

theorem Closes.timely {x : Piece} (h : x.Closes) (before : List Piece) :
    x.Timely declaring before := by
  cases x <;> trivial

theorem raws_of_closes (h : ∀ x ∈ pieces, x.Closes) : raws pieces = [] := by
  refine List.filterMap_eq_nil_iff.2 fun x hx => ?_
  have closes := h x hx
  cases x <;> trivial

theorem declared_of_closes (h : ∀ x ∈ pieces, x.Closes) : declared pieces = [] := by
  refine List.filterMap_eq_nil_iff.2 fun x hx => ?_
  have closes := h x hx
  cases x <;> trivial

end Piece

open Piece (raws declared)

/-! ## Plans in time -/

namespace Plan

/-- Every declaration that is to be made for the raw modules so far is made or put off, in their
order, and what is planned stands in time. -/
structure Sound (declaring : List String) (p : Plan) : Prop where
  announced : declared p.pieces ++ p.undeclared = (raws p.pieces).filter (· ∈ declaring)
  unclosed : ∀ x ∈ p.pieces, ¬x.Closes
  ordered : Piece.Ordered declaring p.pieces

variable {declaring : List String} {p p' : Plan} {module code : String}

theorem Sound.add (h : p.Sound declaring) {pieces : List Piece}
    (neutral : ∀ x ∈ pieces, x.Neutral) : (p.add pieces).Sound declaring := by
  constructor
  case announced =>
    change declared (p.pieces ++ pieces) ++ p.undeclared =
      (raws (p.pieces ++ pieces)).filter (· ∈ declaring)
    rw [Piece.declared_append, Piece.raws_append, Piece.declared_of_neutral neutral,
      Piece.raws_of_neutral neutral, List.append_nil, List.append_nil, h.announced]
  case unclosed =>
    intro x hx
    rcases List.mem_append.1 hx with hx | hx
    · exact h.unclosed x hx
    · exact (neutral x hx).unclosed
  case ordered =>
    apply h.ordered.append
    rintro before x after rfl
    exact (neutral x (by simp)).timely _

theorem declare_raws (p : Plan) : raws p.declare.pieces = raws p.pieces := by
  rw [declare, Piece.raws_append, Piece.raws_declarations, List.append_nil]

theorem declare_declared (p : Plan) :
    declared p.declare.pieces = declared p.pieces ++ p.undeclared := by
  have all : declared (p.undeclared.map .declaration) = p.undeclared := by
    rw [declared, List.filterMap_map]
    exact List.filterMap_some
  rw [declare, Piece.declared_append, all]

theorem Sound.declare (h : p.Sound declaring) : p.declare.Sound declaring := by
  have unclosed : ∀ x ∈ p.declare.pieces, ¬x.Closes := by
    intro x hx
    rcases List.mem_append.1 hx with hx | hx
    · exact h.unclosed x hx
    · obtain ⟨_, _, rfl⟩ := List.mem_map.1 hx
      exact id
  refine ⟨?announced, unclosed, ?ordered⟩
  case announced =>
    rw [declare_declared, declare_raws, ← h.announced]
    exact List.append_nil _
  case ordered =>
    apply h.ordered.append
    intro before x after split
    have hx : x ∈ p.undeclared.map .declaration := by simp [split]
    obtain ⟨module, hm, rfl⟩ := List.mem_map.1 hx
    constructor
    · have due : module ∈ (raws p.pieces).filter (· ∈ declaring) :=
        h.announced ▸ List.mem_append_right _ hm
      rw [Piece.raws_append]
      exact List.mem_append_left _ (List.mem_of_mem_filter due)
    · intro y hy
      apply unclosed y
      rw [Plan.declare, split]
      rcases List.mem_append.1 hy with hy | hy
      · exact List.mem_append_left _ hy
      · exact List.mem_append_right _ (List.mem_append_left _ hy)

theorem Sound.declareIf (h : p.Sound declaring) (condition : Bool) :
    (p.declareIf condition).Sound declaring := by
  cases condition
  · exact h
  · exact h.declare

theorem declareIf_raws (p : Plan) (condition : Bool) :
    raws (p.declareIf condition).pieces = raws p.pieces := by
  cases condition
  · rfl
  · exact p.declare_raws

theorem await_pieces (p : Plan) (module : String) (declares : Bool) :
    (p.await module declares).pieces = p.pieces := by
  cases declares <;> rfl

theorem await_undeclared (p : Plan) (module : String) (declares : Bool) :
    (p.await module declares).undeclared =
      p.undeclared ++ [module].filter fun _ => declares := by
  cases declares
  · exact (List.append_nil _).symm
  · rfl

theorem addRaw_raws (p : Plan) (module code : String) (declares : Bool) :
    raws (p.addRaw module code declares).pieces = raws p.pieces ++ [module] := by
  rw [addRaw, declareIf_raws, await_pieces, add, Piece.raws_append, declareIf_raws]
  rfl

/-- A raw module waits for its declaration; one that may use the legacy interface has the others
made first. -/
theorem Sound.addRaw (h : p.Sound declaring) {declares : Bool}
    (owed : declares ↔ module ∈ declaring) : (p.addRaw module code declares).Sound declaring := by
  have before := h.declareIf (usesLegacyInterface code)
  have settled (uses : usesLegacyInterface code) :
      (p.declareIf (usesLegacyInterface code)).undeclared = [] := by
    rw [uses]
    rfl
  unfold Plan.addRaw
  dsimp only
  generalize p.declareIf (usesLegacyInterface code) = q at before settled
  apply Sound.declareIf
  constructor
  case announced =>
    rw [await_pieces, await_undeclared]
    change declared (q.pieces ++ [.raw module code]) ++ (q.undeclared ++ _) =
      (raws (q.pieces ++ [.raw module code])).filter (· ∈ declaring)
    have last : [module].filter (fun _ => declares) = [module].filter (· ∈ declaring) := by
      apply List.filter_congr
      intro _ hm
      cases List.mem_singleton.1 hm
      exact Bool.eq_iff_iff.2 (owed.trans decide_eq_true_iff.symm)
    have raw : raws [.raw module code] = [module] := rfl
    have none : declared [.raw module code] = [] := rfl
    rw [Piece.declared_append, Piece.raws_append, List.filter_append, ← before.announced, last, raw,
      none, List.append_nil, List.append_assoc]
  case unclosed =>
    rw [await_pieces]
    intro x hx
    rcases List.mem_append.1 hx with hx | hx
    · exact before.unclosed x hx
    · cases List.mem_singleton.1 hx
      exact id
  case ordered =>
    rw [await_pieces]
    apply before.ordered.append
    intro earlier x after split
    obtain ⟨rfl, rfl, rfl⟩ : earlier = [] ∧ x = .raw module code ∧ after = [] := by
      cases earlier with
      | nil =>
        cases split
        exact ⟨rfl, rfl, rfl⟩
      | cons _ _ => simp at split
    intro uses
    rw [List.append_nil, ← before.announced, settled uses, List.append_nil]

/-! ### Sections -/

variable {e : Embedder}

theorem add_raws {pieces : List Piece} (neutral : ∀ x ∈ pieces, x.Neutral) (p : Plan) :
    raws (p.add pieces).pieces = raws p.pieces := by
  rw [add, Piece.raws_append, Piece.raws_of_neutral neutral, List.append_nil]

/-- What is preloaded has nothing to do with declarations. -/
theorem preload_adds {s : ResolvedSection} (h : (p.preload e s).Yields p') :
    ∃ pieces, p' = p.add pieces ∧ ∀ x ∈ pieces, x.Neutral := by
  obtain ⟨tried, trying, h⟩ := Run.bind_yields.1 h
  obtain ⟨_, all⟩ := tried_spec trying
  have predefined : ∀ x ∈ tried.filterMap (·.2), x.Neutral := by
    intro x hx
    obtain ⟨⟨module, _⟩, ht, rfl⟩ := List.mem_filterMap.1 hx
    have this : (e.predefine? module).Yields (some x) := all (module, some x) ht
    obtain ⟨_, _, _, _, _, _, q, _, rfl⟩ := Embedder.predefine?_yields this
    exact ⟨rfl, rfl, id⟩
  dsimp only at h
  split at h
  · cases Run.pure_yields.1 h
    exact ⟨_, rfl, predefined⟩
  · obtain ⟨entries, _, last⟩ := Run.bind_yields.1 h
    cases Run.pure_yields.1 last
    refine ⟨tried.filterMap (·.2) ++ [.preloads s.name (entries.filterMap id)], ?_, ?_⟩
    · simp [add]
    · intro x hx
      rcases List.mem_append.1 hx with hx | hx
      · exact predefined x hx
      · cases List.mem_singleton.1 hx
        exact ⟨rfl, rfl, id⟩

/-- Sections of other modes have nothing to do with declarations. -/
theorem addSection_adds {s : ResolvedSection} (h : (addSection e p s).Yields p')
    (other : s.mode ≠ .raw) : ∃ pieces, p' = p.add pieces ∧ ∀ x ∈ pieces, x.Neutral := by
  unfold addSection at h
  split at h
  case h_1 =>
    cases Run.pure_yields.1 h
    refine ⟨[], ?_, by simp⟩
    simp [add]
  case h_2 mode => exact absurd mode other
  case h_3 => exact preload_adds h
  case h_4 =>
    unfold bundleInfo at h
    split at h
    · exact (Run.fail_yields h).elim
    · split at h
      · cases Run.pure_yields.1 h
        refine ⟨_, rfl, fun x hx => ?_⟩
        cases List.mem_singleton.1 hx
        exact ⟨rfl, rfl, id⟩
      · exact (Run.fail_yields h).elim
  case h_5 =>
    cases Run.pure_yields.1 h
    refine ⟨_, rfl, fun x hx => ?_⟩
    obtain ⟨_, _, rfl⟩ := List.mem_map.1 hx
    exact ⟨rfl, rfl, id⟩

/-- What is kept while raw modules are added, and while pieces are that have nothing to do with
declarations, is kept by the sections. -/
theorem addSections_keep {P : Plan → Prop} {sections : List ResolvedSection}
    (planned : (sections.foldlM (addSection e) p).Yields p') (start : P p)
    (add : ∀ q pieces, P q → (∀ x ∈ pieces, x.Neutral) → P (q.add pieces))
    (raw : ∀ s ∈ sections, s.mode = .raw → ∀ module ∈ s.modules, ∀ q code, P q →
      P (q.addRaw module code s.definition.declareRawModules)) : P p' := by
  refine Run.foldlM_invariant (P := fun _ q => P q) ?_ start planned
  intro _ s hs before after kept step
  by_cases mode : s.mode = .raw
  · unfold addSection at step
    rw [mode] at step
    refine Run.foldlM_invariant (P := fun _ q => P q) ?_ kept step
    intro _ module hm q q' kept step
    rcases raw_cases step with ⟨code, _, rfl⟩ | ⟨_, rfl⟩
    · exact raw s hs mode module hm q code kept
    · exact kept
  · obtain ⟨pieces, rfl, neutral⟩ := addSection_adds step mode
    exact add before pieces kept neutral

theorem raw_raws {declares : Bool} (h : (raw e declares p module).Yields p') :
    raws p'.pieces = raws p.pieces ++ (e.texts .raw module).map (·.1) := by
  rcases raw_cases h with ⟨code, texts, rfl⟩ | ⟨texts, rfl⟩
  · rw [addRaw_raws, texts]
    rfl
  · rw [texts]
    exact (List.append_nil _).symm

theorem addSection_raws {s : ResolvedSection} (h : (addSection e p s).Yields p') :
    raws p'.pieces = raws p.pieces ++ (s.modules.flatMap (e.rawOnly s.mode)).map (·.1) := by
  by_cases mode : s.mode = .raw
  · unfold addSection at h
    rw [mode] at h ⊢
    refine Run.foldlM_invariant (P := fun done q =>
      raws q.pieces = raws p.pieces ++ (done.flatMap (e.texts .raw)).map (·.1)) ?step ?start h
    case start => exact (List.append_nil _).symm
    case step =>
      intro done module _ q q' before step
      rw [raw_raws step, before, List.flatMap_append, List.map_append, List.append_assoc,
        List.flatMap_singleton]
  · obtain ⟨pieces, rfl, neutral⟩ := addSection_adds h mode
    have silent : e.rawOnly s.mode = fun _ => [] := by
      cases other : s.mode <;> first | rfl | contradiction
    have none : s.modules.flatMap (e.rawOnly s.mode) = [] := by
      rw [silent]
      exact List.flatMap_eq_nil_iff.2 fun _ _ => rfl
    rw [add_raws neutral, none]
    exact (List.append_nil _).symm

end Plan

namespace ResolvedSection

/-- The raw modules that are to be declared. -/
def declaring (sections : List ResolvedSection) : List String :=
  (sections.filter fun s => s.mode = .raw ∧ s.definition.declareRawModules).flatMap (·.modules)

variable {sections : List ResolvedSection}

/-- The section of a raw module decides whether it is to be declared. -/
theorem mem_declaring_iff (nodup : ((distributed sections).flatMap (·.modules)).Nodup)
    {s : ResolvedSection} (hs : s ∈ sections) (raw : s.mode = .raw) {module : String}
    (hm : module ∈ s.modules) : s.definition.declareRawModules ↔ module ∈ declaring sections := by
  constructor
  · intro declares
    exact List.mem_flatMap.2 ⟨s, List.mem_filter.2 ⟨hs, decide_eq_true ⟨raw, declares⟩⟩, hm⟩
  · intro mem
    obtain ⟨t, ht, hm'⟩ := List.mem_flatMap.1 mem
    obtain ⟨ht, declares⟩ := List.mem_filter.1 ht
    obtain ⟨raw', declares⟩ := of_decide_eq_true declares
    cases eq_of_mem_distributed nodup (mem_distributed hs (.inl raw))
      (mem_distributed ht (.inl raw')) hm hm'
    exact declares

theorem filter_declaring (nodup : ((distributed sections).flatMap (·.modules)).Nodup) :
    (rawModules sections).filter (· ∈ declaring sections) = declaring sections := by
  have each : ∀ s ∈ sections.filter (·.mode = .raw),
      ¬(s.definition.declareRawModules : Bool) →
        s.modules.filter (· ∈ declaring sections) = [] := by
    intro s hs silent
    obtain ⟨hs, raw⟩ := List.mem_filter.1 hs
    refine List.filter_eq_nil_iff.2 fun module hm => ?_
    rw [decide_eq_true_iff, ← mem_declaring_iff nodup hs (of_decide_eq_true raw) hm]
    exact silent
  rw [rawModules, List.filter_flatMap, ← flatMap_filter_of_nil each, List.filter_filter, declaring]
  have both : (fun s : ResolvedSection => s.definition.declareRawModules && s.mode = .raw) =
      fun s => decide (s.mode = .raw ∧ s.definition.declareRawModules) := by
    funext s
    rw [Bool.and_comm, Bool.decide_and, Bool.decide_eq_true]
  rw [both]
  refine List.flatMap_congr fun s hs => List.filter_eq_self.2 fun module hm => ?_
  obtain ⟨hs, declares⟩ := List.mem_filter.1 hs
  obtain ⟨raw, declares⟩ := of_decide_eq_true declares
  exact decide_eq_true ((mem_declaring_iff nodup hs raw hm).1 declares)

theorem rawModules_of_declaring {module : String} (h : module ∈ declaring sections) :
    module ∈ rawModules sections := by
  obtain ⟨s, hs, hm⟩ := List.mem_flatMap.1 h
  obtain ⟨hs, declares⟩ := List.mem_filter.1 hs
  exact mem_rawModules hs (of_decide_eq_true declares).1 hm

end ResolvedSection

namespace Resolved

theorem opening_neutral (r : Resolved) (d : Decoration) : ∀ x ∈ r.opening d, x.Neutral := by
  intro x hx
  rw [opening, List.mem_append, List.mem_append] at hx
  rcases hx with (hx | hx) | hx
  · split at hx
    · cases List.mem_singleton.1 hx
      exact ⟨rfl, rfl, id⟩
    · cases hx
  · split at hx
    · cases List.mem_singleton.1 hx
      exact ⟨rfl, rfl, id⟩
    · cases hx
  · rw [Option.mem_toList, Option.map_eq_some_iff] at hx
    obtain ⟨c, _, rfl⟩ := hx
    exact ⟨rfl, rfl, id⟩

theorem closing_closes (r : Resolved) (d : Decoration) : ∀ x ∈ r.closing d, x.Closes := by
  intro x hx
  rw [closing, List.mem_append] at hx
  rcases hx with hx | hx
  · split at hx
    · cases List.mem_singleton.1 hx
      trivial
    · cases hx
  · split at hx
    · cases List.mem_singleton.1 hx
      trivial
    · cases hx

/-- The raw modules that are planned are those that are embedded, in the order of the sections. -/
theorem pieces_raws {r : Resolved} {e : Embedder} {d : Decoration} {pieces : List Piece}
    (h : (r.pieces e d).Yields pieces) :
    raws pieces = (r.sections.flatMap fun s => s.modules.flatMap (e.rawOnly s.mode)).map (·.1) := by
  obtain ⟨p, planned, last⟩ := Run.bind_yields.1 h
  cases Run.pure_yields.1 last
  change raws (p.declare.pieces ++ r.closing d) = _
  rw [Piece.raws_append, Piece.raws_of_closes (r.closing_closes d), List.append_nil,
    Plan.declare_raws]
  refine Run.foldlM_invariant (P := fun done q =>
    raws q.pieces = (done.flatMap fun s => s.modules.flatMap (e.rawOnly s.mode)).map (·.1))
      ?step ?start planned
  case start => exact Piece.raws_of_neutral (r.opening_neutral d)
  case step =>
    intro done s _ q q' before step
    rw [Plan.addSection_raws step, before, List.flatMap_append, List.map_append,
      List.flatMap_singleton]

/-- **Every declaration is planned once, and in time.** -/
theorem pieces_ordered {r : Resolved} {e : Embedder} {d : Decoration} {pieces : List Piece}
    (h : (r.pieces e d).Yields pieces)
    (nodup : ((ResolvedSection.distributed r.sections).flatMap (·.modules)).Nodup) :
    Piece.Ordered (ResolvedSection.declaring r.sections) pieces ∧
      declared pieces = (raws pieces).filter (· ∈ ResolvedSection.declaring r.sections) := by
  obtain ⟨p, planned, last⟩ := Run.bind_yields.1 h
  cases Run.pure_yields.1 last
  change Piece.Ordered _ (p.declare.pieces ++ r.closing d) ∧
    declared (p.declare.pieces ++ r.closing d) = (raws (p.declare.pieces ++ r.closing d)).filter _
  have empty : Plan.Sound (ResolvedSection.declaring r.sections) {} := by
    refine ⟨rfl, by simp, ?_⟩
    intro before x after split
    simp at split
  have start := empty.add (r.opening_neutral d)
  have sound : p.Sound (ResolvedSection.declaring r.sections) :=
    Plan.addSections_keep planned start (fun _ _ sound neutral => sound.add neutral)
      fun s hs raw module hm _ _ sound =>
        sound.addRaw (ResolvedSection.mem_declaring_iff nodup hs raw hm)
  have closes := r.closing_closes d
  constructor
  · apply sound.declare.ordered.append
    rintro before x after split
    exact (closes x (by simp [split])).timely _
  · rw [Piece.declared_append, Piece.declared_of_closes closes, List.append_nil,
      Piece.raws_append, Piece.raws_of_closes closes, List.append_nil, Plan.declare_declared,
      Plan.declare_raws, sound.announced]

end Resolved

/-! ## Declarations in their places -/

/-- How a module is declared. -/
def Piece.declarationText (module : String) : String :=
  "jQuery.sap.declare(" ++ Literal.script (Name.legacyName module) ++ ", false);\n"

/-- The bytes of the piece are these in a text. -/
def Placed.Reads (t : Placed) (content text : String) : Prop :=
  ∃ before after, content = before ++ text ++ after ∧ before.utf8ByteSize = t.startIndex ∧
    (before ++ text).utf8ByteSize = t.endIndex

namespace Piece

variable {format : Format} {declaring : List String} {pieces before : List Piece}
  {w next next' : Writer} {s s' : Segment} {module : String}

theorem freshLine_text (w : Writer) :
    ∃ gap, (gap = "" ∨ gap = "\n") ∧ w.freshLine.text = w.text ++ gap := by
  unfold Writer.freshLine
  split
  · exact ⟨"", .inl rfl, by simp⟩
  · exact ⟨"\n", .inr rfl, rfl⟩

theorem declaration_written (h : write format w (.declaration module) = .ok next) :
    next.text = w.freshLine.text ++ declarationText module := by
  have ending : ", false);" ++ "\n" = ", false);\n" := by simp
  have written : w.freshLine.writeLine
      ["jQuery.sap.declare(", Literal.script (Name.legacyName module), ", false);"] = next :=
    Except.ok.inj h
  rw [← written]
  unfold declarationText
  simp only [Writer.writeLine, Writer.write, Writer.append, List.foldl_cons, List.foldl_nil,
    String.append_assoc, ending]

theorem place_declared (all : writeAll format pieces = .ok w) :
    (place format {} pieces).filterMap (·.piece.declared?) = declared pieces := by
  have here : (place format {} pieces).map (·.piece) = pieces := place_pieces all
  rw [declared]
  nth_rewrite 2 [← here]
  rw [List.filterMap_map]
  rfl

/-- A declaration begins on a fresh line. -/
theorem declaration_reads (all : writeAll format pieces = .ok w)
    (stands : Stands format pieces before (.declaration module) next next') :
    ∃ gap, (gap = "" ∨ gap = "\n") ∧
      Placed.Reads ⟨.declaration module, next.length, next'.length⟩ w.text
        (gap ++ declarationText module) := by
  obtain ⟨gap, blank, fresh⟩ := freshLine_text next
  obtain ⟨more, grown⟩ := (stands.grows all).text
  have text : next'.text = next.text ++ (gap ++ declarationText module) := by
    rw [declaration_written stands.written, fresh, String.append_assoc]
  refine ⟨gap, blank, next.text, more, ?_, rfl, ?_⟩
  · rw [grown, text]
  · rw [← text]
    rfl

/-- The piece that has a module is unique. -/
theorem eq_of_mem_texts (all : writeAll format pieces = .ok w)
    (distinct : (w.segments.map (·.module)).Nodup) {x x' : Piece} (hx : x ∈ pieces)
    (hx' : x' ∈ pieces) {text text' : String} (mem : (module, text) ∈ x.texts)
    (mem' : (module, text') ∈ x'.texts) : x = x' := by
  obtain ⟨_, again, gained⟩ := writeAll_texts format pieces
  cases again.symm.trans all
  have names : w.segments.map (·.module) = pieces.flatMap fun x => x.texts.map (·.1) := by
    rw [← List.map_flatMap, ← Writer.encoded_names, ← gained, Writer.texts, List.map_map]
    rfl
  rw [names] at distinct
  have here : module ∈ x.texts.map (·.1) := List.mem_map_of_mem mem
  have there : module ∈ x'.texts.map (·.1) := List.mem_map_of_mem mem'
  exact eq_of_mem_flatMap distinct hx hx' here there

/-- The segment of a raw module is that of its piece. -/
theorem stands_of_raw (all : writeAll format pieces = .ok w)
    (distinct : (w.segments.map (·.module)).Nodup) (hs : s ∈ w.segments)
    (raw : s.module ∈ raws pieces) :
    ∃ before code next next', Stands format pieces before (.raw s.module code) next next' ∧
      Writer.slice s w.text = Utf8.encode code ∧ next.length ≤ s.startIndex ∧
      s.endIndex ≤ next'.length := by
  obtain ⟨code, hx⟩ := mem_raws.1 raw
  obtain ⟨before, x, next, next', text, stands, mem, slice, start, stop⟩ := stands_of_segment all hs
  have hx' : x ∈ pieces := by
    obtain ⟨after, rfl⟩ := stands.split
    simp
  have own : (s.module, code) ∈ (Piece.raw s.module code).texts := List.mem_singleton.2 rfl
  cases eq_of_mem_texts all distinct hx' hx mem own
  cases List.mem_singleton.1 mem
  exact ⟨before, _, next, next', stands, slice, start, stop⟩

/-- A piece stands behind the segments of the raw modules before it. -/
theorem Stands.ended_before {x : Piece} (stands : Stands format pieces before x next next')
    (all : writeAll format pieces = .ok w) (distinct : (w.segments.map (·.module)).Nodup)
    (hs : s ∈ w.segments) (raw : s.module ∈ raws before) : s.endIndex ≤ next.length := by
  obtain ⟨code, hx⟩ := mem_raws.1 raw
  obtain ⟨s', hs', same⟩ := Piece.exists_segment stands.reached hx (List.mem_singleton.2 rfl)
  have later : next.Grows w := (write_grows stands.written).trans (stands.grows all)
  have there : s' ∈ w.segments := by
    obtain ⟨new, segments, _⟩ := later.segments
    rw [segments]
    exact List.mem_append_left _ hs'
  cases List.inj_on_of_nodup_map distinct there hs same
  exact ((writeAll_sound stands.reached).within s hs').2

/-- A declaration stands behind the segment of its module. -/
theorem declaration_behind (all : writeAll format pieces = .ok w)
    (distinct : (w.segments.map (·.module)).Nodup) (ordered : Ordered declaring pieces)
    (hs : s ∈ w.segments)
    (stands : Stands format pieces before (.declaration s.module) next next') :
    s.endIndex ≤ next.length := by
  obtain ⟨after, split⟩ := stands.split
  obtain ⟨raw, _⟩ := ordered before _ after split
  exact stands.ended_before all distinct hs raw

/-- What may use the legacy interface stands behind the declarations of what was written before. -/
theorem declared_before (all : writeAll format pieces = .ok w)
    (distinct : (w.segments.map (·.module)).Nodup) (ordered : Ordered declaring pieces)
    (hs : s ∈ w.segments) (raw : s.module ∈ raws pieces) {code : String}
    (holds : Writer.slice s w.text = Utf8.encode code) (uses : Plan.usesLegacyInterface code)
    (hs' : s' ∈ w.segments) (raw' : s'.module ∈ raws pieces) (owed : s'.module ∈ declaring)
    (earlier : s'.endIndex ≤ s.startIndex) :
    ∃ t ∈ place format {} pieces, t.piece = .declaration s'.module ∧
      t.endIndex ≤ s.startIndex := by
  obtain ⟨before, code', next, next', stands, slice, start, stop⟩ :=
    stands_of_raw all distinct hs raw
  cases Utf8.encode_injective (holds.symm.trans slice)
  obtain ⟨before', code', last, last', stands', _, start', _⟩ :=
    stands_of_raw all distinct hs' raw'
  have within := (writeAll_sound all).within s' hs'
  have filled : s.startIndex < s.endIndex := by
    apply Writer.lt_of_slice holds
    rintro rfl
    exact absurd uses (by decide)
  have first : .raw s'.module code' ∈ before := by
    rcases stands'.compare stands with ⟨mem, _⟩ | ⟨_, same⟩ | ⟨_, grows⟩
    · exact mem
    · have same : s'.module = s.module := (Piece.raw.inj same).1
      cases List.inj_on_of_nodup_map distinct hs' hs same
      omega
    · have := grows.length
      omega
  obtain ⟨after, split⟩ := stands.split
  have caughtUp : declared before = (raws before).filter (· ∈ declaring) :=
    ordered before _ after split uses
  have mem : s'.module ∈ declared before := by
    rw [caughtUp]
    exact List.mem_filter.2 ⟨mem_raws.2 ⟨code', first⟩, decide_eq_true owed⟩
  obtain ⟨t, ht, piece, ended⟩ := stands.exists_placed (mem_declared.1 mem)
  exact ⟨t, ht, piece, Nat.le_trans ended start⟩

/-- A declaration stands before the end. -/
theorem declaration_ahead (ordered : Ordered declaring pieces) {x : Piece} {before' : List Piece}
    {last last' : Writer} (closes : x.Closes)
    (stands : Stands format pieces before (.declaration module) next next')
    (stands' : Stands format pieces before' x last last') : next'.length ≤ last.length := by
  obtain ⟨after, split⟩ := stands.split
  obtain ⟨_, unclosed⟩ := ordered before _ after split
  rcases stands.compare stands' with ⟨_, grows⟩ | ⟨_, rfl⟩ | ⟨mem, _⟩
  · exact grows.length
  · exact closes.elim
  · exact absurd closes (unclosed x mem)

end Piece

/-! ## Main statement -/

open ResolvedSection (declaring rawModules)

/-- The declarations of a bundle that is written in these places. -/
structure Bundle.Declares (b : Bundle) (sections : List ResolvedSection) (placed : List Placed) :
    Prop where
  /-- One for each module that is to be declared, in the order of the sections. -/
  once : placed.filterMap (·.piece.declared?) = declaring sections
  distinct : (declaring sections).Nodup
  apart : placed.Pairwise fun t u => t.endIndex ≤ u.startIndex
  /-- Their modules have segments in the same order. -/
  order : b.modules.filter (· ∈ declaring sections) = declaring sections
  reads : ∀ t ∈ placed, ∀ module, t.piece = .declaration module →
    ∃ gap, (gap = "" ∨ gap = "\n") ∧ t.Reads b.content (gap ++ Piece.declarationText module)
  behind : ∀ t ∈ placed, ∀ s ∈ b.segments, t.piece = .declaration s.module →
    s.endIndex ≤ t.startIndex
  ahead : ∀ t ∈ placed, ∀ u ∈ placed, ∀ module, t.piece = .declaration module →
    u.piece = .boot ∨ u.piece = .tryClosing → t.endIndex ≤ u.startIndex
  /-- Where a raw module may use the legacy interface, all that came before is declared. -/
  caughtUp : ∀ s ∈ b.segments, s.module ∈ rawModules sections → ∀ before after,
    Writer.slice s b.content = Utf8.encode (before ++ "jQuery.sap." ++ after) →
      ∀ s' ∈ b.segments, s'.module ∈ declaring sections → s'.endIndex ≤ s.startIndex →
        ∃ t ∈ placed, t.piece = .declaration s'.module ∧ t.endIndex ≤ s.startIndex

namespace Builder

variable {b : Builder} {options : Options} {d : Definition}

/-- The raw modules that are planned are those that have segments, from whatever pool. -/
theorem build_raws {bundle : Bundle} {r : Resolved} {pieces : List Piece}
    (h : (b.build options d).Yields bundle)
    (resolved : (d.resolve b.pool options.ignoreMissing).Yields r)
    (planned : (r.pieces (b.embedder options) (r.decoration b.format options)).Yields pieces) :
    raws pieces = bundle.modules.filter (· ∈ rawModules r.sections) := by
  obtain ⟨_, again, embedded, carries, texts⟩ := build_texts h
  cases resolved.unique again
  rw [Resolved.pieces_raws planned,
    ← carries.filter_rawModules (Definition.distributed_nodup resolved), ← bundle.texts_names,
    texts, Writer.encoded_names, List.filter_map]
  rfl

/-- Each module that has a segment and is to be declared is planned to be. -/
theorem build_declared {bundle : Bundle} {r : Resolved} {pieces : List Piece}
    (h : (b.build options d).Yields bundle)
    (resolved : (d.resolve b.pool options.ignoreMissing).Yields r)
    (planned : (r.pieces (b.embedder options) (r.decoration b.format options)).Yields pieces) :
    declared pieces = bundle.modules.filter (· ∈ declaring r.sections) := by
  obtain ⟨_, declared⟩ := Resolved.pieces_ordered planned (Definition.distributed_nodup resolved)
  rw [declared, build_raws h resolved planned, List.filter_filter]
  refine List.filter_congr fun module _ => ?_
  by_cases owed : module ∈ declaring r.sections
  · simp [owed, ResolvedSection.rawModules_of_declaring owed]
  · simp [owed]

theorem build_declaring {p : MemoryPool} (memory : b.pool = p.toPool) {bundle : Bundle}
    {r : Resolved} (h : (b.build options d).Yields bundle)
    (resolved : (d.resolve b.pool options.ignoreMissing).Yields r) :
    bundle.modules.filter (· ∈ declaring r.sections) = declaring r.sections := by
  have declared := ResolvedSection.filter_declaring (Definition.distributed_nodup resolved)
  rw [← build_rawModules memory h resolved, List.filter_filter] at declared
  refine Eq.trans (List.filter_congr fun module _ => ?_) declared
  by_cases owed : module ∈ declaring r.sections
  · simp [owed, ResolvedSection.rawModules_of_declaring owed]
  · simp [owed]

/-- **Raw modules are declared once, in order and in time.** If a definition is built in one bundle
from a pool in memory, the bundle has one declaration for each module of the raw sections that are
to be declared. The declarations are in the order of the segments of their modules, each behind its
own segment, and before the call that boots the runtime and the end of the enclosing block. A raw
module with `jQuery.sap.` in its text stands behind the declarations of all such modules that stand
before it. -/
theorem create_declares {p : MemoryPool} {bundles : List Bundle} (memory : b.pool = p.toPool)
    (one : options.numberOfParts ≤ 1) (h : (b.create options d).Yields bundles) :
    ∃ bundle r pieces w, bundles = [bundle] ∧ (d.resolve b.pool options.ignoreMissing).Yields r ∧
      (r.pieces (b.embedder options) (r.decoration b.format options)).Yields pieces ∧
      Piece.writeAll b.format pieces = .ok w ∧ w.text = bundle.content ∧
      w.segments = bundle.segments ∧
      bundle.Declares r.sections (Piece.place b.format {} pieces) := by
  obtain ⟨bundle, built, rfl⟩ := create_yields_one one h
  obtain ⟨r, resolved, pieces, planned, w, all, record, recorded, same⟩ := build_yields.1 built
  have content : w.text = bundle.content := by rw [same]
  have segments : w.segments = bundle.segments := by rw [same]
  have distinct := build_nodup built
  have order := build_declaring memory built resolved
  obtain ⟨ordered, _⟩ := Resolved.pieces_ordered planned (Definition.distributed_nodup resolved)
  have raws : raws pieces = rawModules r.sections :=
    (build_raws built resolved planned).trans (build_rawModules memory built resolved)
  have single : (declaring r.sections).Nodup := order ▸ distinct.filter _
  refine ⟨bundle, r, pieces, w, rfl, resolved, planned, all, content, segments, ?_⟩
  rw [Bundle.modules, ← segments] at distinct
  constructor
  case once => rw [Piece.place_declared all, build_declared built resolved planned, order]
  case apart => exact Piece.place_ordered b.format {} pieces
  case distinct => exact single
  case order => exact order
  case reads =>
    rintro ⟨_, start, stop⟩ ht module rfl
    obtain ⟨before, next, next', stands, rfl, rfl⟩ := Piece.stands_of_mem_place ht
    rw [← content]
    exact Piece.declaration_reads all stands
  case behind =>
    rintro ⟨_, start, stop⟩ ht s hs rfl
    obtain ⟨before, next, next', stands, rfl, rfl⟩ := Piece.stands_of_mem_place ht
    exact Piece.declaration_behind all distinct ordered (segments ▸ hs) stands
  case ahead =>
    rintro ⟨_, start, stop⟩ ht u hu module rfl closing
    obtain ⟨before, next, next', stands, rfl, rfl⟩ := Piece.stands_of_mem_place ht
    obtain ⟨before', last, last', stands', start', _⟩ := Piece.stands_of_mem_place hu
    have closes : u.piece.Closes := by
      rcases closing with boot | closing
      · rw [boot]
        trivial
      · rw [closing]
        trivial
    rw [← start']
    exact Piece.declaration_ahead ordered closes stands stands'
  case caughtUp =>
    intro s hs raw front rear holds s' hs' owed earlier
    rw [← segments] at hs hs'
    rw [← content] at holds
    have uses : Plan.usesLegacyInterface (front ++ "jQuery.sap." ++ rear) :=
      Plan.usesLegacyInterface_iff.2 ⟨front, rear, rfl⟩
    have raw' := ResolvedSection.rawModules_of_declaring owed
    rw [← raws] at raw raw'
    exact Piece.declared_before all distinct ordered hs raw holds uses hs' raw' owed earlier

end Builder

/-! ### A script before one that uses the legacy interface -/

namespace Deferring

def memory : MemoryPool := .ofResources
  [{ name := "lib/a.js", content := [59] },
    { name := "lib/b.js", content := Utf8.encode "jQuery.sap.b()" }]

def scripts : Section := { mode := .raw, filters := ["lib/"], declareRawModules := true }

def definition : Definition := { sections := [scripts] }

def search : Search := ⟨memory.toPool, true, scripts, [⟨true, .directory "lib/"⟩]⟩

def resolved : Resolved := ⟨definition, [⟨scripts, ["lib/a.js", "lib/b.js"]⟩]⟩

def builder : Builder := { pool := memory.toPool, format := .ofPool memory.toPool }

theorem walks : ∃ reached, search.Walks {} search.roots reached ∧
    reached.selected.names = ["lib/a.js", "lib/b.js"] := by
  have roots : search.roots = [⟨"lib/a.js", [], false⟩, ⟨"lib/b.js", [], false⟩] := by
    decide +kernel
  refine ⟨?reached, ?walk, ?selected⟩
  case walk =>
    rw [roots]
    have found : search.pool.record? "lib/a.js" = some { name := "lib/a.js" } := rfl
    refine .selected (by decide) (by decide +kernel) found (by decide +kernel) ?_
    have found : search.pool.record? "lib/b.js" = some { name := "lib/b.js" } := rfl
    refine .selected (by decide) (by decide +kernel) found (by decide +kernel) ?_
    exact .done
  case selected => rfl

theorem resolves : (definition.resolve memory.toPool true).Yields resolved := by
  obtain ⟨reached, walks, selected⟩ := walks
  have searched : scripts.search memory.toPool true = .ok search := rfl
  exact Definition.resolve_of_walks rfl searched (by decide) rfl walks selected

theorem creates : (builder.create {} definition).Succeeds :=
  Builder.create_progress (Nat.le_refl 1) (Builder.build_plain resolves rfl (by decide))

/-- The second script finds the first one declared. -/
theorem scripts_declared : (Builder.ofPool memory.toPool none).Yields builder ∧
    ∃ bundle pieces, (builder.create {} definition).Yields [bundle] ∧
      bundle.Declares resolved.sections (Piece.place builder.format {} pieces) ∧
      declaring resolved.sections = ["lib/a.js", "lib/b.js"] := by
  obtain ⟨bundles, h⟩ := creates
  obtain ⟨bundle, r, pieces, w, rfl, again, _, _, _, _, declares⟩ :=
    Builder.create_declares (p := memory) rfl (Nat.le_refl 1) h
  cases resolves.unique again
  exact ⟨rfl, bundle, pieces, h, declares, rfl⟩

end Deferring

end Bundler
