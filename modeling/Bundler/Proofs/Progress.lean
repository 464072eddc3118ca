import Bundler.Proofs.Embedded

/-!
# Builds that succeed

Writing never fails, and neither does the record of a bundle. So a definition that resolves is built
unless a script is refused or an announcement lacks its name: `build_progress`.
-/

namespace Bundler

theorem Source.script_progress {s : Source} (plain : s.shortener? = none) (module : String)
    (r : Resource) : (s.script module r).Succeeds := by
  unfold script
  rw [plain]
  exact Run.pure_succeeds _

namespace Embedder

variable {e : Embedder} {module : String}

/-- No script of the module is refused. -/
def Scripted (e : Embedder) (module : String) : Prop :=
  ∀ r, (e.source.script module r).Succeeds

theorem predefine?_progress (scripted : e.Scripted module) : (e.predefine? module).Succeeds := by
  unfold predefine?
  split
  · split
    · exact (Run.log1_succeeds _).bind fun _ _ => Run.pure_succeeds _
    · refine (scripted _).bind fun code _ => ?_
      split
      · exact (Run.log1_succeeds _).bind fun _ _ => Run.pure_succeeds _
      · exact (Run.log1_succeeds _).bind fun _ _ => Run.pure_succeeds _
      · exact Run.pure_succeeds _
  · exact Run.pure_succeeds _

theorem normalize_progress (module text : String) : (normalize module text).Succeeds := by
  unfold normalize
  split
  · exact Run.pure_succeeds _
  · exact (Run.log1_succeeds _).bind fun _ _ => Run.pure_succeeds _

theorem embed_progress (scripted : e.Scripted module) (r : Resource)
    (known : ResourceKind.ofName module ≠ .unknown) : (e.embed module r).Succeeds := by
  unfold embed
  split
  · refine (scripted r).bind fun code _ => ?_
    dsimp only
    split
    · exact (Run.log1_succeeds _).bind fun _ _ => Run.pure_succeeds _
    · exact Run.pure_succeeds _
  · exact Run.pure_succeeds _
  · split
    · exact (normalize_progress module r.text).bind fun _ _ => Run.pure_succeeds _
    · exact Run.pure_succeeds _
  · exact Run.pure_succeeds _
  · exact Run.pure_succeeds _
  · contradiction

theorem entry?_progress (scripted : e.Scripted module) : (e.entry? module).Succeeds := by
  unfold entry?
  split
  · exact (Run.log1_succeeds _).bind fun _ _ => Run.pure_succeeds _
  · split
    · exact (Run.log1_succeeds _).bind fun _ _ => Run.pure_succeeds _
    · rename_i known
      exact (embed_progress scripted _ known).bind fun _ _ => Run.pure_succeeds _

end Embedder

namespace Plan

variable {e : Embedder}

theorem raw_progress {module : String} (scripted : e.Scripted module) (declares : Bool) (p : Plan) :
    (raw e declares p module).Succeeds := by
  unfold raw
  split
  · exact (Run.log1_succeeds _).bind fun _ _ => Run.pure_succeeds _
  · exact (scripted _).bind fun _ _ => Run.pure_succeeds _

theorem preload_progress {s : ResolvedSection} (scripted : ∀ module ∈ s.modules, e.Scripted module)
    (p : Plan) : (p.preload e s).Succeeds := by
  have sorted := List.mergeSort_perm s.modules fun a b => a ≤ b
  unfold preload
  refine Run.Succeeds.bind (.mapM fun module hm => ?_) fun tried trying => ?_
  · have scripted := scripted module (sorted.mem_iff.1 hm)
    exact (Embedder.predefine?_progress scripted).bind fun _ _ => Run.pure_succeeds _
  · dsimp only
    split
    · exact Run.pure_succeeds _
    · refine Run.Succeeds.bind (.mapM fun module hm => ?_) fun _ _ => Run.pure_succeeds _
      obtain ⟨t, ht, rfl⟩ := List.mem_map.1 hm
      have mem : t.1 ∈ tried.map (·.1) := List.mem_map_of_mem (List.mem_of_mem_filter ht)
      rw [(tried_spec trying).1] at mem
      exact Embedder.entry?_progress (scripted t.1 (sorted.mem_iff.1 mem))

/-- An announcement has a name with the extension of scripts. -/
def Announced (s : ResolvedSection) : Prop :=
  ∃ name, s.name = some name ∧ (Text.before? Name.scriptExtension name.toList).isSome

theorem addSection_progress {s : ResolvedSection}
    (scripted : ∀ module ∈ s.modules, e.Scripted module)
    (announced : s.mode = .bundleInfo → Announced s) (p : Plan) : (addSection e p s).Succeeds := by
  unfold addSection
  split
  case h_1 => exact Run.pure_succeeds _
  case h_2 => exact .foldlM (fun p module hm => raw_progress (scripted module hm) _ p) p
  case h_3 => exact preload_progress scripted p
  case h_4 mode =>
    obtain ⟨name, named, extension⟩ := announced mode
    unfold bundleInfo
    rw [named]
    dsimp only
    rw [if_pos extension]
    exact Run.pure_succeeds _
  case h_5 => exact Run.pure_succeeds _

end Plan

theorem Resolved.embeddedRecord_progress (pool : Pool) (module : String) :
    (embeddedRecord pool module).Succeeds := by
  unfold embeddedRecord
  split
  · exact Run.pure_succeeds _
  · exact (Run.log1_succeeds _).bind fun _ _ => Run.pure_succeeds _

theorem Resolved.record_progress (r : Resolved) (pool : Pool) : (r.record pool).Succeeds := by
  have embedAll (info : ModuleInfo) (modules : List String) :
      (embedAll pool info modules).Succeeds :=
    .foldlM (fun _ module _ =>
      (embeddedRecord_progress pool module).bind fun _ _ => Run.pure_succeeds _) info
  refine .foldlM (fun info s _ => ?_) _
  unfold recordSection
  split
  · exact Run.pure_succeeds _
  · exact Run.pure_succeeds _
  · exact Run.pure_succeeds _
  · exact embedAll _ _
  · exact embedAll _ _

/-- **What resolves is built**, unless a script is refused or an announcement lacks its name. -/
theorem Builder.build_progress {b : Builder} {options : Options} {d : Definition} {r : Resolved}
    (resolved : (d.resolve b.pool options.ignoreMissing).Yields r)
    (scripted : ∀ s ∈ r.sections, ∀ module ∈ s.modules, (b.embedder options).Scripted module)
    (announced : ∀ s ∈ r.sections, s.mode = .bundleInfo → Plan.Announced s) :
    (b.build options d).Succeeds := by
  have planned : (r.pieces (b.embedder options) (r.decoration b.format options)).Succeeds :=
    (Run.Succeeds.foldlM (fun p s hs =>
      Plan.addSection_progress (scripted s hs) (announced s hs) p) _).bind
        fun _ _ => Run.pure_succeeds _
  obtain ⟨pieces, planned⟩ := planned
  obtain ⟨w, written, _⟩ := Piece.writeAll_texts b.format pieces
  obtain ⟨record, recorded⟩ := r.record_progress b.pool
  exact ⟨_, build_yields.2 ⟨r, resolved, pieces, planned, w, written, record, recorded, rfl⟩⟩

/-- Where nothing is minified or announced, what resolves is built. -/
theorem Builder.build_plain {b : Builder} {options : Options} {d : Definition} {r : Resolved}
    (resolved : (d.resolve b.pool options.ignoreMissing).Yields r)
    (plain : options.optimize = false) (silent : ∀ s ∈ r.sections, s.mode ≠ .bundleInfo) :
    (b.build options d).Succeeds := by
  have shortener : (b.source options).shortener? = none := by
    simp [Source.shortener?, Builder.source, plain]
  refine build_progress resolved ?_ ?_
  · intro _ _ module _ r
    exact Source.script_progress shortener module r
  · intro s hs announced
    exact absurd announced (silent s hs)

theorem Builder.create_progress {b : Builder} {options : Options} {d : Definition}
    (one : options.numberOfParts ≤ 1) (h : (b.build options d).Succeeds) :
    (b.create options d).Succeeds := by
  unfold create
  rw [if_pos one]
  exact h.bind fun _ _ => Run.pure_succeeds _

theorem Builder.buildParts_progress {b : Builder} {options : Options} {parts : List Definition}
    (each : ∀ part ∈ parts, (b.build options part).Succeeds) :
    (b.buildParts options parts).Succeeds := by
  have one : ∀ part ∈ parts, (b.buildPart options part).Succeeds := by
    intro part hp
    obtain ⟨bundle, built⟩ := each part hp
    exact ⟨bundle, Run.explain_yields.2 built⟩
  unfold buildParts
  split
  · exact (one _ List.mem_cons_self).bind fun _ _ => Run.pure_succeeds _
  · refine .mapM fun part hp => ?_
    obtain ⟨bundle, built⟩ := one part hp
    exact ⟨bundle, Run.silent_yields.2 built⟩

end Bundler
