import Bundler.Builder
import Bundler.Proofs.Runs
import Bundler.Proofs.Segments
import Mathlib.Data.List.Forall2
import Mathlib.Data.List.Perm.Basic

/-!
# What a bundle embeds

Whether a module is embedded in a bundle and as which text depends on the module and the mode of its
section alone: `Embedder.texts`. `build_texts` says that the segments of a bundle hold these texts
section by section. Raw sections keep their order; preload sections are put into an order of their
own.
-/

namespace Bundler

namespace Embedder

/-- The script of a raw module, unless it cannot be found. -/
def rawTexts (e : Embedder) (module : String) : List (String × String) :=
  match e.source.pool.find module with
  | .error _ => []
  | .ok r =>
    match (e.source.script module r).result with
    | .error _ => []
    | .ok code => [(module, code)]

/-- A preloaded module as a predefinition or else as an entry, unless it can be neither. -/
def preloadTexts (e : Embedder) (module : String) : List (String × String) :=
  match (e.predefine? module).result with
  | .error _ => []
  | .ok (some p) => p.texts
  | .ok none =>
    match (e.entry? module).result with
    | .ok (some entry) => [(entry.module, entry.text)]
    | _ => []

/-- What a module of a section is embedded as, with its name. -/
def texts (e : Embedder) : Mode → String → List (String × String)
  | .raw => e.rawTexts
  | .preload => e.preloadTexts
  | _ => fun _ => []

theorem predefine?_yields {e : Embedder} {module : String} {p : Piece}
    (h : (e.predefine? module).Yields (some p)) :
    e.predefines ∧ ResourceKind.ofName module = .script ∧
      ∃ r, e.source.pool.find module = .ok r ∧ ∃ code, (e.source.script module r).Yields code ∧
        ∃ q, Predefinition.ofScript module code e.eager = .ok q ∧ p = .predefine module q.code := by
  unfold predefine? at h
  split at h
  · rename_i asked
    obtain ⟨asked, kind⟩ := Bool.and_eq_true_iff.1 asked
    split at h
    · rw [Run.log1_bind_yields] at h
      cases Run.pure_yields.1 h
    · rename_i r found
      obtain ⟨code, script, h⟩ := Run.bind_yields.1 h
      split at h
      · rename_i q rewritten
        rw [Run.log1_bind_yields] at h
        cases Run.pure_yields.1 h
        exact ⟨asked, of_decide_eq_true kind, r, found, code, script, q, rewritten, rfl⟩
      · rw [Run.log1_bind_yields] at h
        cases Run.pure_yields.1 h
      · cases Run.pure_yields.1 h
  · cases Run.pure_yields.1 h

theorem entry?_yields {e : Embedder} {module : String} {entry : Entry}
    (h : (e.entry? module).Yields (some entry)) :
    ResourceKind.ofName module ≠ .unknown ∧ ∃ r, e.source.pool.findWithInfo module = .ok r ∧
      ∃ embedding, (e.embed module r).Yields embedding ∧ entry = ⟨module, embedding⟩ := by
  unfold entry? at h
  split at h
  · rw [Run.log1_bind_yields] at h
    cases Run.pure_yields.1 h
  · rename_i r found
    split at h
    · rw [Run.log1_bind_yields] at h
      cases Run.pure_yields.1 h
    · rename_i known
      obtain ⟨embedding, embedded, h⟩ := Run.bind_yields.1 h
      cases Run.pure_yields.1 h
      exact ⟨known, r, found, embedding, embedded, rfl⟩

/-- A module is embedded once at most, under its own name. -/
theorem texts_eq (e : Embedder) (mode : Mode) (module : String) :
    e.texts mode module = [] ∨ ∃ text, e.texts mode module = [(module, text)] := by
  cases mode with
  | raw =>
    show e.rawTexts module = [] ∨ ∃ text, e.rawTexts module = _
    unfold rawTexts
    split
    · exact .inl rfl
    · split
      · exact .inl rfl
      · exact .inr ⟨_, rfl⟩
  | preload =>
    show e.preloadTexts module = [] ∨ ∃ text, e.preloadTexts module = _
    unfold preloadTexts
    split
    · exact .inl rfl
    · rename_i p predefined
      obtain ⟨_, _, _, _, _, _, q, _, rfl⟩ := predefine?_yields predefined
      exact .inr ⟨q.code, rfl⟩
    · split
      · rename_i entry embedded
        obtain ⟨_, _, _, _, _, rfl⟩ := entry?_yields embedded
        exact .inr ⟨_, rfl⟩
      · exact .inl rfl
  | _ => exact .inl rfl

/-- What the modules of a section are embedded as, in their order. -/
def sectionTexts (e : Embedder) (s : ResolvedSection) : List (String × String) :=
  s.modules.flatMap (e.texts s.mode)

/-- Just those modules of a section that are embedded at all have a text. -/
theorem sectionTexts_names_eq (e : Embedder) (s : ResolvedSection) :
    (e.sectionTexts s).map (·.1) = s.modules.filter fun module => e.texts s.mode module ≠ [] := by
  unfold sectionTexts
  induction s.modules with
  | nil => rfl
  | cons module rest ih =>
    rw [List.flatMap_cons, List.map_append, ih]
    rcases e.texts_eq s.mode module with none | ⟨text, one⟩
    · rw [List.filter_cons_of_neg (by simp [none]), none]
      rfl
    · rw [List.filter_cons_of_pos (by simp [one]), one]
      rfl

theorem sectionTexts_names (e : Embedder) (s : ResolvedSection) :
    ((e.sectionTexts s).map (·.1)).Sublist s.modules := by
  rw [sectionTexts_names_eq]
  exact List.filter_sublist

end Embedder

/-! ## Plans -/

namespace Plan

/-- The texts that the pieces planned so far embed. -/
def texts (p : Plan) : List (String × String) := p.pieces.flatMap Piece.texts

variable {e : Embedder} {p p' : Plan}

theorem add_texts (p : Plan) (pieces : List Piece) :
    (p.add pieces).texts = p.texts ++ pieces.flatMap Piece.texts := List.flatMap_append

theorem declare_texts (p : Plan) : p.declare.texts = p.texts := by
  have none : (p.undeclared.map Piece.declaration).flatMap Piece.texts = [] := by
    rw [List.flatMap_map]
    exact List.flatMap_eq_nil_iff.2 fun _ _ => rfl
  rw [texts, declare, List.flatMap_append, none, List.append_nil]
  rfl

theorem declareIf_texts (p : Plan) (condition : Bool) :
    (p.declareIf condition).texts = p.texts := by
  cases condition
  · rfl
  · exact p.declare_texts

theorem await_texts (p : Plan) (module : String) (declares : Bool) :
    (p.await module declares).texts = p.texts := by
  cases declares <;> rfl

theorem addRaw_texts (p : Plan) (module code : String) (declares : Bool) :
    (p.addRaw module code declares).texts = p.texts ++ [(module, code)] := by
  rw [addRaw, declareIf_texts, await_texts, add_texts, declareIf_texts]
  rfl

/-- A raw module is added with its script, unless it cannot be found. -/
theorem raw_cases {declares : Bool} {module : String} (h : (raw e declares p module).Yields p') :
    (∃ code, e.texts .raw module = [(module, code)] ∧ p' = p.addRaw module code declares) ∨
      e.texts .raw module = [] ∧ p' = p := by
  change (∃ code, e.rawTexts module = _ ∧ _) ∨ e.rawTexts module = _ ∧ _
  unfold raw at h
  unfold Embedder.rawTexts
  cases found : e.source.pool.find module with
  | error cause =>
    rw [found] at h
    dsimp only at h ⊢
    rw [Run.log1_bind_yields] at h
    exact .inr ⟨rfl, (Run.pure_yields.1 h).symm⟩
  | ok r =>
    rw [found] at h
    dsimp only at h ⊢
    obtain ⟨code, script, h⟩ := Run.bind_yields.1 h
    rw [script]
    exact .inl ⟨code, rfl, (Run.pure_yields.1 h).symm⟩

theorem raw_texts {declares : Bool} {module : String} (h : (raw e declares p module).Yields p') :
    p'.texts = p.texts ++ e.texts .raw module := by
  rcases raw_cases h with ⟨code, texts, rfl⟩ | ⟨texts, rfl⟩
  · rw [addRaw_texts, texts]
  · rw [texts, List.append_nil]

theorem foldlM_raw_texts {declares : Bool} {modules : List String}
    (h : (modules.foldlM (raw e declares) p).Yields p') :
    p'.texts = p.texts ++ modules.flatMap (e.texts .raw) := by
  refine Run.foldlM_invariant (P := fun done q => q.texts = p.texts ++ done.flatMap (e.texts .raw))
    ?step (List.append_nil _).symm h
  intro done module _ q q' before step
  rw [raw_texts step, before, List.flatMap_append, List.append_assoc, List.flatMap_singleton]

/-! ### Preload sections -/

theorem tried_spec {modules : List String} {tried : List (String × Option Piece)}
    (h : (modules.mapM fun module => return (module, ← e.predefine? module)).Yields tried) :
    tried.map (·.1) = modules ∧ ∀ t ∈ tried, (e.predefine? t.1).Yields t.2 := by
  have each := Run.mapM_yields.1 h
  clear h
  induction each with
  | nil => exact ⟨rfl, fun t ht => absurd ht List.not_mem_nil⟩
  | cons first _ ih =>
    obtain ⟨predefined, tried, last⟩ := Run.bind_yields.1 first
    cases Run.pure_yields.1 last
    obtain ⟨modules, all⟩ := ih
    refine ⟨by rw [List.map_cons, modules], fun t ht => ?_⟩
    rcases List.mem_cons.1 ht with rfl | ht
    · exact tried
    · exact all t ht

theorem predefined_texts {tried : List (String × Option Piece)}
    (h : ∀ t ∈ tried, (e.predefine? t.1).Yields t.2) :
    (tried.filterMap (·.2)).flatMap Piece.texts =
      (tried.filter (·.2.isSome)).flatMap fun t => e.preloadTexts t.1 := by
  induction tried with
  | nil => rfl
  | cons t rest ih =>
    obtain ⟨module, predefined⟩ := t
    have ih := ih fun t ht => h t (List.mem_cons_of_mem _ ht)
    have first := h _ List.mem_cons_self
    cases predefined with
    | none => exact ih
    | some piece =>
      have texts : e.preloadTexts module = piece.texts := by
        rw [Embedder.preloadTexts, first]
      simp only [List.filterMap_cons, List.flatMap_cons, List.filter_cons, Option.isSome_some,
        if_true, ih, texts]

theorem entries_texts {remaining : List String} {entries : List (Option Entry)}
    (none : ∀ module ∈ remaining, (e.predefine? module).Yields none)
    (h : (remaining.mapM e.entry?).Yields entries) :
    ((entries.filterMap id).map fun entry => (entry.module, entry.text)) =
      remaining.flatMap e.preloadTexts := by
  have each := Run.mapM_yields.1 h
  clear h
  induction each with
  | nil => rfl
  | @cons module entry _ _ first _ ih =>
    have ih := ih fun module hm => none module (List.mem_cons_of_mem _ hm)
    have predefined := none module List.mem_cons_self
    have texts : e.preloadTexts module =
        (entry.map fun entry => (entry.module, entry.text)).toList := by
      rw [Embedder.preloadTexts, predefined]
      dsimp only
      rw [first]
      cases entry <;> rfl
    rw [List.flatMap_cons, texts, ← ih]
    cases entry <;> rfl

/-- What becomes no predefinition comes last, so the texts may be in another order than the
modules. -/
theorem preload_texts {s : ResolvedSection} (h : (p.preload e s).Yields p') :
    ∃ embedded, p'.texts = p.texts ++ embedded ∧
      embedded.Perm (s.modules.flatMap (e.texts .preload)) := by
  obtain ⟨tried, trying, h⟩ := Run.bind_yields.1 h
  obtain ⟨modules, all⟩ := tried_spec trying
  have parted : ((tried.filter (·.2.isSome)).flatMap (fun t => e.preloadTexts t.1) ++
      (tried.filter (·.2.isNone)).flatMap fun t => e.preloadTexts t.1).Perm
        (s.modules.flatMap e.preloadTexts) := by
    have perm := List.filter_append_perm (·.2.isSome) tried
    simp only [Option.not_isSome] at perm
    have sorted : (tried.map (·.1)).Perm s.modules := modules ▸ List.mergeSort_perm ..
    rw [← List.flatMap_append]
    apply (perm.flatMap_right _).trans
    rw [← List.flatMap_map]
    exact sorted.flatMap_right _
  refine ⟨_, ?_, parted⟩
  have remaining : ∀ module ∈ (tried.filter (·.2.isNone)).map (·.1),
      (e.predefine? module).Yields none := by
    intro module hm
    obtain ⟨t, ht, rfl⟩ := List.mem_map.1 hm
    obtain ⟨ht, isNone⟩ := List.mem_filter.1 ht
    rw [← Option.isNone_iff_eq_none.1 isNone]
    exact all t ht
  have texts : ((tried.filter (·.2.isNone)).map (·.1)).flatMap e.preloadTexts =
      (tried.filter (·.2.isNone)).flatMap fun t => e.preloadTexts t.1 := List.flatMap_map ..
  rw [← predefined_texts all, ← texts]
  dsimp only at h
  split at h
  · rename_i empty
    cases Run.pure_yields.1 h
    rw [List.isEmpty_iff.1 empty, add_texts]
    exact congrArg _ (List.append_nil _).symm
  · obtain ⟨entries, embedding, h⟩ := Run.bind_yields.1 h
    cases Run.pure_yields.1 h
    rw [add_texts, add_texts, List.append_assoc, ← entries_texts remaining embedding]
    simp [Piece.texts]

end Plan

/-! ## Bundles -/

/-- The texts are those of the section, also in its order unless it is preloaded. -/
structure Embedder.Embeds (e : Embedder) (s : ResolvedSection)
    (embedded : List (String × String)) : Prop where
  perm : embedded.Perm (e.sectionTexts s)
  order : s.mode ≠ .preload → embedded = e.sectionTexts s

/-- The texts are those of the sections, one section after the other. -/
def Embedder.Carries (e : Embedder) (sections : List ResolvedSection)
    (embedded : List (String × String)) : Prop :=
  ∃ groups, List.Forall₂ e.Embeds sections groups ∧ embedded = groups.flatten

theorem Embedder.Carries.append {e : Embedder} {first later : List ResolvedSection}
    {embedded embedded' : List (String × String)} (h : e.Carries first embedded)
    (h' : e.Carries later embedded') : e.Carries (first ++ later) (embedded ++ embedded') := by
  obtain ⟨groups, each, rfl⟩ := h
  obtain ⟨groups', each', rfl⟩ := h'
  exact ⟨groups ++ groups', List.rel_append each each', List.flatten_append.symm⟩

theorem Embedder.Embeds.carries {e : Embedder} {s : ResolvedSection}
    {embedded : List (String × String)} (h : e.Embeds s embedded) : e.Carries [s] embedded :=
  ⟨[embedded], .cons h .nil, List.flatten_singleton.symm⟩

namespace Plan

variable {e : Embedder} {p p' : Plan}

theorem addSection_texts {s : ResolvedSection} (h : (addSection e p s).Yields p') :
    ∃ embedded, p'.texts = p.texts ++ embedded ∧ e.Embeds s embedded := by
  have silent (mode : e.texts s.mode = fun _ => []) (same : p'.texts = p.texts) :
      ∃ embedded, p'.texts = p.texts ++ embedded ∧ e.Embeds s embedded := by
    have nothing : e.sectionTexts s = [] := by
      rw [Embedder.sectionTexts, mode]
      exact List.flatMap_eq_nil_iff.2 fun _ _ => rfl
    refine ⟨[], by rw [same, List.append_nil], ?_, fun _ => nothing.symm⟩
    rw [nothing]
  unfold addSection at h
  split at h
  case h_1 mode =>
    cases Run.pure_yields.1 h
    exact silent (by rw [mode]; rfl) rfl
  case h_2 mode =>
    refine ⟨e.sectionTexts s, ?_, .refl _, fun _ => rfl⟩
    rw [foldlM_raw_texts h, Embedder.sectionTexts, mode]
  case h_3 mode =>
    obtain ⟨embedded, texts, perm⟩ := preload_texts h
    refine ⟨embedded, texts, ?_, fun other => absurd mode other⟩
    rwa [Embedder.sectionTexts, mode]
  case h_4 mode =>
    refine silent (by rw [mode]; rfl) ?_
    unfold bundleInfo at h
    split at h
    · exact (Run.fail_yields h).elim
    · split at h
      · cases Run.pure_yields.1 h
        rw [add_texts]
        exact List.append_nil _
      · exact (Run.fail_yields h).elim
  case h_5 mode =>
    cases Run.pure_yields.1 h
    refine silent (by rw [mode]; rfl) ?_
    rw [add_texts, List.flatMap_map]
    simp [Piece.texts]

theorem foldlM_addSection_texts {sections : List ResolvedSection}
    (h : (sections.foldlM (addSection e) p).Yields p') :
    ∃ embedded, e.Carries sections embedded ∧ p'.texts = p.texts ++ embedded := by
  refine Run.foldlM_invariant (P := fun done q => ∃ embedded, e.Carries done embedded ∧
    q.texts = p.texts ++ embedded) ?step ⟨[], ⟨[], .nil, rfl⟩, (List.append_nil _).symm⟩ h
  rintro done s _ q q' ⟨embedded, carries, before⟩ step
  obtain ⟨more, texts, embeds⟩ := addSection_texts step
  refine ⟨embedded ++ more, carries.append embeds.carries, ?_⟩
  rw [texts, before, List.append_assoc]

end Plan

theorem Resolved.pieces_texts {r : Resolved} {e : Embedder} {d : Decoration} {pieces : List Piece}
    (h : (r.pieces e d).Yields pieces) :
    e.Carries r.sections (pieces.flatMap Piece.texts) := by
  obtain ⟨p, planned, last⟩ := Run.bind_yields.1 h
  cases Run.pure_yields.1 last
  obtain ⟨embedded, carries, texts⟩ := Plan.foldlM_addSection_texts planned
  have opening : (r.opening d).flatMap Piece.texts = [] := by
    unfold opening
    cases d.marked <;> cases d.enclosed <;> cases r.definition.configuration <;> rfl
  have closing : (r.closing d).flatMap Piece.texts = [] := by
    unfold Resolved.closing
    cases r.containsCore <;> cases d.enclosed <;> rfl
  have whole : (p.declare.add (r.closing d)).texts = embedded := by
    rw [Plan.add_texts, Plan.declare_texts, texts, closing, List.append_nil]
    show (r.opening d).flatMap Piece.texts ++ _ = _
    rw [opening, List.nil_append]
  show e.Carries r.sections (p.declare.add (r.closing d)).texts
  rwa [whole]

/-- The modules that have segments in the bundle, each with the bytes of its segment. -/
def Bundle.texts (b : Bundle) : List (String × List UInt8) :=
  b.segments.map fun s => (s.module, Writer.slice s b.content)

theorem Builder.build_yields {b : Builder} {options : Options} {d : Definition} {bundle : Bundle} :
    (b.build options d).Yields bundle ↔ ∃ r, (d.resolve b.pool options.ignoreMissing).Yields r ∧
      ∃ pieces, (r.pieces (b.embedder options) (r.decoration b.format options)).Yields pieces ∧
      ∃ w, Piece.writeAll b.format pieces = .ok w ∧
      ∃ record, (r.record b.pool).Yields record ∧
        bundle = ⟨d.name, w.text, { record with size := some w.length }, w.segments⟩ := by
  unfold build
  simp only [Run.bind_yields, Run.ofExcept_yields, Run.pure_yields, Run.log1_yields, true_and,
    exists_const, eq_comm]

/-- **Segments hold what the sections embed.** The segments of a bundle are those of its sections,
one after the other, and hold what their modules are embedded as. -/
theorem Builder.build_texts {b : Builder} {options : Options} {d : Definition} {bundle : Bundle}
    (h : (b.build options d).Yields bundle) :
    ∃ r, (d.resolve b.pool options.ignoreMissing).Yields r ∧
      ∃ embedded, (b.embedder options).Carries r.sections embedded ∧
        bundle.texts = Writer.encoded embedded := by
  obtain ⟨r, resolved, pieces, planned, w, written, record, _, rfl⟩ := build_yields.1 h
  obtain ⟨w', again, segments⟩ := Piece.writeAll_texts b.format pieces
  cases again.symm.trans written
  exact ⟨r, resolved, _, Resolved.pieces_texts planned, segments⟩

end Bundler
