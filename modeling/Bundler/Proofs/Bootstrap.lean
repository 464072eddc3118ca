import Bundler.Proofs.Declarations

/-!
# Declarations and the legacy bootstrap

Declarations call the legacy interface, which the bootstrap of the runtime brings along. They are
put off until it has been loaded, or until a raw module is written that may use the interface. So a
declaration stands behind a bootstrap that does not use it, or in front of another module that may:
`create_waits`.
-/

namespace Bundler

open Piece (raws)
open ResolvedSection (declaring rawModules)

/-! ## What declarations wait for -/

namespace Piece

/-- The next raw module among the pieces may use the legacy interface. -/
def UsesNext (pieces : List Piece) : Prop :=
  ∃ first module code rest, pieces = first ++ .raw module code :: rest ∧ raws first = [] ∧
    Plan.usesLegacyInterface code

/-- Every declaration stands behind the bootstrap, or in front of a use of the interface. -/
def Waiting (pieces : List Piece) : Prop :=
  ∀ before module after, pieces = before ++ .declaration module :: after →
    globalBootstrapModule ∈ raws before ∨ UsesNext after

variable {pieces more : List Piece} {module code : String}

theorem UsesNext.append (h : UsesNext pieces) (more : List Piece) : UsesNext (pieces ++ more) := by
  obtain ⟨first, module, code, rest, rfl, none, uses⟩ := h
  exact ⟨first, module, code, rest ++ more, by simp, none, uses⟩

theorem Waiting.append (h : Waiting pieces)
    (later : ∀ before module after, more = before ++ .declaration module :: after →
      globalBootstrapModule ∈ raws (pieces ++ before) ∨ UsesNext after) :
    Waiting (pieces ++ more) := by
  intro before module after whole
  rcases split_append whole with ⟨rest, split, rfl⟩ | ⟨between, rfl, split⟩
  · exact (h before module rest split).imp_right fun uses => uses.append more
  · exact later between module after split

theorem Waiting.append_of_undeclared (h : Waiting pieces) (none : declared more = []) :
    Waiting (pieces ++ more) := by
  refine h.append fun before module after split => ?_
  have mem : module ∈ declared more := mem_declared.2 (by simp [split])
  rw [none] at mem
  cases mem

end Piece

namespace Plan

variable {p : Plan} {module code : String}

/-- Once the bootstrap has been loaded, nothing needs to wait. -/
theorem declare_waiting (h : Piece.Waiting p.pieces)
    (loaded : globalBootstrapModule ∈ raws p.pieces) : Piece.Waiting p.declare.pieces := by
  refine h.append fun before module after _ => .inl ?_
  rw [Piece.raws_append]
  exact List.mem_append_left _ loaded

/-- What is declared for a raw module that may use the interface stands in front of it. -/
theorem declareIf_add_waiting (h : Piece.Waiting p.pieces) (module code : String) :
    Piece.Waiting ((p.declareIf (usesLegacyInterface code)).add [.raw module code]).pieces := by
  cases uses : usesLegacyInterface code
  · exact h.append_of_undeclared rfl
  · change Piece.Waiting (p.pieces ++ p.undeclared.map .declaration ++ [.raw module code])
    rw [List.append_assoc]
    refine h.append fun before declared after split => .inr ?_
    rcases Piece.split_append split with ⟨rest, declarations, rfl⟩ | ⟨between, _, raw⟩
    · -- only declarations come between this one and the module
      have none := Piece.raws_declarations p.undeclared
      rw [declarations, Piece.raws_append, List.append_eq_nil_iff] at none
      exact ⟨rest, module, code, [], rfl, none.2, uses⟩
    · cases between <;> simp at raw

theorem addRaw_waiting (h : Piece.Waiting p.pieces) (module code : String) (declares : Bool) :
    Piece.Waiting (p.addRaw module code declares).pieces := by
  have added := declareIf_add_waiting h module code
  unfold addRaw
  cases boot : module == globalBootstrapModule
  · change Piece.Waiting (await _ module declares).pieces
    rwa [await_pieces]
  · -- the module is the bootstrap, which is there for what is declared now
    refine declare_waiting ?_ ?_
    · rwa [await_pieces]
    · rw [await_pieces, add, Piece.raws_append, eq_of_beq boot]
      exact List.mem_append_right _ (List.mem_singleton.2 rfl)

end Plan

theorem Resolved.pieces_waiting {r : Resolved} {e : Embedder} {d : Decoration} {pieces : List Piece}
    (h : (r.pieces e d).Yields pieces) (loaded : globalBootstrapModule ∈ raws pieces) :
    Piece.Waiting pieces := by
  obtain ⟨p, planned, last⟩ := Run.bind_yields.1 h
  cases Run.pure_yields.1 last
  change globalBootstrapModule ∈ raws (p.declare.pieces ++ r.closing d) at loaded
  change Piece.Waiting (p.declare.pieces ++ r.closing d)
  rw [Piece.raws_append, Piece.raws_of_closes (r.closing_closes d), List.append_nil,
    Plan.declare_raws] at loaded
  have nothing : Piece.Waiting [] := by
    intro before module after split
    simp at split
  have start : Piece.Waiting (r.opening d) :=
    nothing.append_of_undeclared (Piece.declared_of_neutral (r.opening_neutral d))
  have waiting : Piece.Waiting p.pieces := by
    refine Plan.addSections_keep (P := fun q => Piece.Waiting q.pieces) planned start ?add ?raw
    case add =>
      intro q pieces waiting neutral
      exact waiting.append_of_undeclared (Piece.declared_of_neutral neutral)
    case raw =>
      intro s _ _ module _ q code waiting
      exact Plan.addRaw_waiting waiting module code _
  exact (Plan.declare_waiting waiting loaded).append_of_undeclared
    (Piece.declared_of_closes (r.closing_closes d))

/-! ## In their places -/

namespace Piece

variable {format : Format} {pieces before after : List Piece} {w next next' : Writer}
  {module : String}

/-- A declaration in front of a use of the interface stands in front of the segment of the next raw
module. -/
theorem exists_use (all : writeAll format pieces = .ok w)
    (distinct : (w.segments.map (·.module)).Nodup)
    (stands : Stands format pieces before (.declaration module) next next')
    (split : pieces = before ++ .declaration module :: after) (uses : UsesNext after) :
    ∃ s ∈ w.segments, s.module ∈ raws pieces ∧
      (∃ code, Writer.slice s w.text = Utf8.encode code ∧ Plan.usesLegacyInterface code) ∧
      next'.length ≤ s.startIndex ∧
      ∀ g ∈ w.segments, g.module ∈ raws pieces →
        g.endIndex ≤ next.length ∨ g = s ∨ s.endIndex ≤ g.startIndex := by
  obtain ⟨middle, user, code, rest, rfl, none, uses⟩ := uses
  have whole : before ++ .declaration module :: (middle ++ .raw user code :: rest) =
      (before ++ .declaration module :: middle) ++ .raw user code :: rest := by simp
  rw [whole] at split
  subst split
  obtain ⟨last, last', stands'⟩ :=
    exists_stands format (before ++ .declaration module :: middle) (.raw user code) rest
  obtain ⟨s, hs, rfl, slice, start, stop⟩ := stands'.exists_segment all (List.mem_singleton.2 rfl)
  have earlier : Stands format (before ++ .declaration module :: middle) before
      (.declaration module) next next' := ⟨⟨middle, rfl⟩, stands.reached, stands.written⟩
  have behind := (earlier.grows stands'.reached).length
  refine ⟨s, hs, mem_raws.2 ⟨code, by simp⟩, ⟨code, slice, uses⟩, Nat.le_trans behind start, ?_⟩
  intro g hg raw
  obtain ⟨before', code', first, first', there, _, start', _⟩ := stands_of_raw all distinct hg raw
  rcases stands'.compare there with ⟨_, grows⟩ | ⟨_, same⟩ | ⟨mem, _⟩
  · have later := grows.length
    exact .inr (.inr (by omega))
  · exact .inr (.inl (List.inj_on_of_nodup_map distinct hg hs (Piece.raw.inj same).1.symm))
  · -- no raw module stands between the declaration and the use
    have mem : g.module ∈ raws (before ++ .declaration module :: middle) := mem_raws.2 ⟨code', mem⟩
    have none : raws (.declaration module :: middle) = [] := none
    rw [raws_append, none, List.append_nil] at mem
    exact .inl (stands.ended_before all distinct hg mem)

end Piece

/-! ## Main statement -/

/-- The module of the segment has `jQuery.sap.` in its text. -/
def Bundle.Uses (b : Bundle) (s : Segment) : Prop :=
  ∃ before after, Writer.slice s b.content = Utf8.encode (before ++ "jQuery.sap." ++ after)

theorem Bundle.uses_iff {b : Bundle} {s : Segment} {code : String}
    (holds : Writer.slice s b.content = Utf8.encode code) :
    b.Uses s ↔ Plan.usesLegacyInterface code := by
  rw [Plan.usesLegacyInterface_iff, Uses, holds]
  constructor
  · rintro ⟨before, after, same⟩
    exact ⟨before, after, Utf8.encode_injective same⟩
  · rintro ⟨before, after, rfl⟩
    exact ⟨before, after, rfl⟩

/-- The segment is the next one of a raw module behind these bytes, and the module has
`jQuery.sap.` in its text. -/
structure Bundle.NextUse (b : Bundle) (sections : List ResolvedSection) (t : Placed) (s : Segment) :
    Prop where
  mem : s ∈ b.segments
  raw : s.module ∈ rawModules sections
  uses : b.Uses s
  behind : t.endIndex ≤ s.startIndex
  next : ∀ g ∈ b.segments, g.module ∈ rawModules sections →
    g.endIndex ≤ t.startIndex ∨ g = s ∨ s.endIndex ≤ g.startIndex

namespace Builder

variable {b : Builder} {options : Options} {d : Definition}

/-- **Declarations wait for the bootstrap, or for a use of its interface.** If a definition is built
in one bundle from any pool, it has a declaration for each module with a segment that is to be
declared. If its raw sections embed the legacy bootstrap, with a text without `jQuery.sap.`, a
declaration stands behind the segment of the bootstrap, unless another raw module, which has
`jQuery.sap.` in its text, is the next one behind the declaration and ends before the bootstrap. -/
theorem create_waits {bundles : List Bundle} (one : options.numberOfParts ≤ 1)
    (h : (b.create options d).Yields bundles) :
    ∃ bundle r pieces w, bundles = [bundle] ∧ (d.resolve b.pool options.ignoreMissing).Yields r ∧
      (r.pieces (b.embedder options) (r.decoration b.format options)).Yields pieces ∧
      Piece.writeAll b.format pieces = .ok w ∧ w.text = bundle.content ∧
      w.segments = bundle.segments ∧
      (Piece.place b.format {} pieces).filterMap (·.piece.declared?) =
        bundle.modules.filter (· ∈ declaring r.sections) ∧
      ∀ g ∈ bundle.segments, g.module = globalBootstrapModule →
        globalBootstrapModule ∈ rawModules r.sections → ¬bundle.Uses g →
        ∀ t ∈ Piece.place b.format {} pieces, ∀ module, t.piece = .declaration module →
          (∃ gap, (gap = "" ∨ gap = "\n") ∧
            t.Reads bundle.content (gap ++ Piece.declarationText module)) ∧
          (g.endIndex ≤ t.startIndex ∨
            ∃ s, bundle.NextUse r.sections t s ∧ s.module ≠ globalBootstrapModule ∧
              s.endIndex ≤ g.startIndex) := by
  obtain ⟨bundle, built, rfl⟩ := create_yields_one one h
  obtain ⟨r, resolved, pieces, planned, w, all, record, recorded, same⟩ := build_yields.1 built
  have content : w.text = bundle.content := by rw [same]
  have segments : w.segments = bundle.segments := by rw [same]
  refine ⟨bundle, r, pieces, w, rfl, resolved, planned, all, content, segments, ?once, ?waits⟩
  case once => rw [Piece.place_declared all, build_declared built resolved planned]
  case waits =>
    have distinct := build_nodup built
    rw [Bundle.modules, ← segments] at distinct
    have raws := build_raws built resolved planned
    have raw_iff {g : Segment} (hg : g ∈ w.segments) :
        g.module ∈ Piece.raws pieces ↔ g.module ∈ rawModules r.sections := by
      have mem : g.module ∈ bundle.modules := List.mem_map_of_mem (segments ▸ hg)
      rw [raws, List.mem_filter, decide_eq_true_iff, and_iff_right mem]
    rw [← segments, ← content]
    rintro g hg boot listed silent ⟨_, start, stop⟩ ht module rfl
    obtain ⟨before, next, next', stands, rfl, rfl⟩ := Piece.stands_of_mem_place ht
    refine ⟨Piece.declaration_reads all stands, ?_⟩
    rw [← boot] at listed
    have loaded := (raw_iff hg).2 listed
    obtain ⟨after, split⟩ := stands.split
    rcases Resolved.pieces_waiting planned (boot ▸ loaded) before module after split with
      earlier | uses
    · rw [← boot] at earlier
      exact .inl (stands.ended_before all distinct hg earlier)
    · obtain ⟨s, hs, raw, ⟨code, slice, uses⟩, behind, next⟩ :=
        Piece.exists_use all distinct stands split uses
      have used : bundle.Uses s := (Bundle.uses_iff (content ▸ slice)).2 uses
      have other : g ≠ s := by
        rintro rfl
        exact silent used
      refine (next g hg loaded).imp_right fun later =>
        ⟨s, ?_, fun same => ?_, later.resolve_left other⟩
      · constructor
        case mem => exact segments ▸ hs
        case raw => exact (raw_iff hs).1 raw
        case uses => exact used
        case behind => exact behind
        case next =>
          intro g hg raw
          rw [← segments] at hg
          exact next g hg ((raw_iff hg).2 raw)
      · exact other (List.inj_on_of_nodup_map distinct hg hs (boot.trans same.symm))

end Builder

/-! ### A use of the interface before the bootstrap -/

/-- A raw module that is found is added with its script. -/
theorem Plan.raw_yields {e : Embedder} {declares : Bool} {p : Plan} {module code : String}
    {r : Resource} (found : e.source.pool.find module = .ok r)
    (script : e.source.IsScript module r code) :
    (Plan.raw e declares p module).Yields (p.addRaw module code declares) := by
  unfold Plan.raw
  rw [found]
  exact Run.bind_yields.2 ⟨code, Source.script_yields.2 script, Run.pure_yields.2 rfl⟩

namespace LateBootstrap

def memory : MemoryPool := .ofResources
  [{ name := "lib/a.js", content := Utf8.encode ";" },
    { name := "lib/b.js", content := Utf8.encode "jQuery.sap.b()" },
    { name := "jquery.sap.global.js", content := Utf8.encode "var jQuery;" }]

def modules : List String := ["lib/a.js", "lib/b.js", "jquery.sap.global.js"]

def scripts : Section := { mode := .raw, filters := modules, declareRawModules := true }

def definition : Definition := { sections := [scripts] }

def search : Search :=
  ⟨memory.toPool, true, scripts, modules.map fun module => ⟨true, .directory module⟩⟩

def resolved : Resolved := ⟨definition, [⟨scripts, modules⟩]⟩

def builder : Builder := { pool := memory.toPool, format := .ofPool memory.toPool }

def pieces : List Piece :=
  [.raw "lib/a.js" ";", .declaration "lib/a.js", .raw "lib/b.js" "jQuery.sap.b()",
    .raw "jquery.sap.global.js" "var jQuery;", .declaration "lib/b.js",
    .declaration "jquery.sap.global.js"]

theorem walks : ∃ reached, search.Walks {} search.roots reached ∧
    reached.selected.names = modules := by
  have roots : search.roots = [⟨"lib/a.js", [], false⟩, ⟨"lib/b.js", [], false⟩,
      ⟨"jquery.sap.global.js", [], false⟩] := by
    decide +kernel
  refine ⟨?reached, ?walk, ?selected⟩
  case walk =>
    rw [roots]
    have found : search.pool.record? "lib/a.js" = some { name := "lib/a.js" } := rfl
    refine .selected (by decide) (by decide +kernel) found (by decide +kernel) ?_
    have found : search.pool.record? "lib/b.js" = some { name := "lib/b.js" } := rfl
    refine .selected (by decide) (by decide +kernel) found (by decide +kernel) ?_
    have found : search.pool.record? "jquery.sap.global.js" =
      some { name := "jquery.sap.global.js" } := rfl
    refine .selected (by decide) (by decide +kernel) found (by decide +kernel) ?_
    exact .done
  case selected => rfl

theorem resolves : (definition.resolve memory.toPool true).Yields resolved := by
  obtain ⟨reached, walks, selected⟩ := walks
  have searched : scripts.search memory.toPool true = .ok search := rfl
  exact Definition.resolve_of_walks rfl searched (by decide) rfl walks selected

theorem added {module code : String} {r : Resource} (p : Plan)
    (found : memory.toPool.find module = .ok r) (text : r.text = code) :
    (Plan.raw (builder.embedder {}) true p module).Yields (p.addRaw module code true) :=
  Plan.raw_yields found (text ▸ .whole rfl)

theorem planned : (resolved.pieces (builder.embedder {})
    (resolved.decoration builder.format {})).Yields pieces := by
  have a (p : Plan) : (Plan.raw (builder.embedder {}) true p "lib/a.js").Yields
      (p.addRaw "lib/a.js" ";" true) := added p rfl (by decide +kernel)
  have b (p : Plan) : (Plan.raw (builder.embedder {}) true p "lib/b.js").Yields
      (p.addRaw "lib/b.js" "jQuery.sap.b()" true) := added p rfl (by decide +kernel)
  have global (p : Plan) : (Plan.raw (builder.embedder {}) true p "jquery.sap.global.js").Yields
      (p.addRaw "jquery.sap.global.js" "var jQuery;" true) := added p rfl (by decide +kernel)
  have all : (Plan.addSection (builder.embedder {}) {} ⟨scripts, modules⟩).Yields
      (((({} : Plan).addRaw "lib/a.js" ";" true).addRaw "lib/b.js" "jQuery.sap.b()" true).addRaw
        "jquery.sap.global.js" "var jQuery;" true) :=
    Run.bind_yields.2 ⟨_, a _, Run.bind_yields.2 ⟨_, b _, Run.bind_yields.2 ⟨_, global _,
      Run.pure_yields.2 rfl⟩⟩⟩
  refine Run.bind_yields.2 ⟨_, Run.bind_yields.2 ⟨_, all, Run.pure_yields.2 rfl⟩, ?_⟩
  have plain : Plan.usesLegacyInterface ";" = false := by decide +kernel
  have uses : Plan.usesLegacyInterface "jQuery.sap.b()" = true := by decide +kernel
  have silent : Plan.usesLegacyInterface "var jQuery;" = false := by decide +kernel
  refine Run.pure_yields.2 ?_
  simp only [Plan.addRaw, plain, uses, silent]
  rfl

def text : String :=
  ";\njQuery.sap.declare('lib.a', false);\njQuery.sap.b()\nvar jQuery;\n" ++
    "jQuery.sap.declare('lib.b', false);\njQuery.sap.declare('jquery.sap.global', false);\n"

def bootstrap : Segment := ⟨"jquery.sap.global.js", 53, 64, 3, 0⟩

def segments : List Segment :=
  [⟨"lib/a.js", 0, 1, 0, 0⟩, ⟨"lib/b.js", 38, 52, 2, 0⟩, bootstrap]

theorem writes : ∃ w, Piece.writeAll builder.format pieces = .ok w ∧ w.text = text ∧
    w.segments = segments := by
  have written : (Piece.writeAll .legacy pieces).map (fun w => (w.text, w.segments)) =
      .ok (text, segments) := by
    decide +kernel
  obtain ⟨w, all, _⟩ := Piece.writeAll_texts .legacy pieces
  rw [all] at written
  obtain ⟨content, held⟩ := Prod.mk.inj (Except.ok.inj written)
  exact ⟨w, all, content, held⟩

theorem creates : ∃ bundle, (builder.create {} definition).Yields [bundle] ∧
    bundle.content = text ∧ bundle.segments = segments := by
  obtain ⟨w, all, content, held⟩ := writes
  obtain ⟨record, recorded⟩ := resolved.record_progress memory.toPool
  have built : (builder.build {} definition).Yields
      ⟨"", w.text, { record with size := some w.length }, w.segments⟩ :=
    Builder.build_yields.2 ⟨resolved, resolves, pieces, planned, w, all, record, recorded, rfl⟩
  have one : ({} : Options).numberOfParts ≤ 1 := Nat.le_refl 1
  obtain ⟨bundles, h⟩ := Builder.create_progress one ⟨_, built⟩
  obtain ⟨bundle, again, rfl⟩ := Builder.create_yields_one one h
  cases built.unique again
  exact ⟨_, h, content, held⟩

/-- The first script is declared for the second one, before the bootstrap is there. -/
theorem declared_early : ∃ bundle,
    (Builder.ofPool memory.toPool none >>= fun b => b.create {} definition).Yields [bundle] ∧
    bundle.content = text ∧ (definition.resolve memory.toPool true).Yields resolved ∧
    globalBootstrapModule ∈ rawModules resolved.sections ∧
    (resolved.pieces (builder.embedder {}) (resolved.decoration builder.format {})).Yields pieces ∧
    ∃ t ∈ Piece.place builder.format {} pieces, t.piece = .declaration "lib/a.js" ∧
      ∃ g ∈ bundle.segments, g.module = globalBootstrapModule ∧ t.endIndex ≤ g.startIndex := by
  obtain ⟨bundle, h, content, held⟩ := creates
  have places : (some "lib/a.js", 38) ∈ (Piece.place .legacy {} pieces).map
      fun t => (t.piece.declared?, t.endIndex) := by
    decide +kernel
  obtain ⟨t, ht, same⟩ := List.mem_map.1 places
  obtain ⟨declared, stop⟩ := Prod.mk.inj same
  refine ⟨bundle, Run.bind_yields.2 ⟨builder, rfl, h⟩, content, resolves, by decide, planned, t, ht,
    ?declared, bootstrap, ?bootstrap, rfl, ?before⟩
  case declared =>
    obtain ⟨piece, _, _⟩ := t
    cases piece <;> cases declared
    rfl
  case bootstrap =>
    rw [held]
    decide
  case before =>
    rw [stop]
    decide

/-- Whatever is declared before the bootstrap is declared for a script that follows. -/
theorem declared_in_time : ∃ bundle, (builder.create {} definition).Yields [bundle] ∧
    bootstrap ∈ bundle.segments ∧ bootstrap.module = globalBootstrapModule ∧
    ¬bundle.Uses bootstrap ∧
    ∀ t ∈ Piece.place builder.format {} pieces, ∀ module, t.piece = .declaration module →
      bootstrap.endIndex ≤ t.startIndex ∨
        ∃ s, bundle.NextUse resolved.sections t s ∧ s.module ≠ globalBootstrapModule ∧
          s.endIndex ≤ bootstrap.startIndex := by
  obtain ⟨bundle, h, content, held⟩ := creates
  obtain ⟨_, r, _, w, one, again, plan, _, _, _, _, waits⟩ :=
    Builder.create_waits (Nat.le_refl 1) h
  cases one
  cases resolves.unique again
  cases planned.unique plan
  have loaded : bootstrap ∈ bundle.segments := by
    rw [held]
    decide
  have holds : Writer.slice bootstrap bundle.content = Utf8.encode "var jQuery;" := by
    rw [content]
    decide +kernel
  have silent : ¬bundle.Uses bootstrap := by
    rw [Bundle.uses_iff holds]
    decide +kernel
  refine ⟨bundle, h, loaded, rfl, silent, fun t ht module declares => ?_⟩
  exact (waits bootstrap loaded rfl (by decide) silent t ht module declares).2

end LateBootstrap

end Bundler
