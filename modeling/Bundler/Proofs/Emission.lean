import Bundler.Proofs.Records

/-!
# What the options of a build leave alone

Most options decide how a bundle is written, and only `ignoreMissing` has a say in what is selected.
Two builds that agree on it embed the same modules and have the same record: `create_unaffected`. A
module has the same bytes in both where it is embedded in the same way.
-/

namespace Bundler

theorem Source.IsScript.unique {s : Source} {module code code' : String} {r : Resource}
    (h : s.IsScript module r code) (h' : s.IsScript module r code') : code = code' :=
  (script_yields.2 h).unique (script_yields.2 h')

namespace Embedder

/-- The module becomes no predefinition, so that it is registered along with others. -/
def Keeps (e : Embedder) (module : String) : Prop := (e.predefine? module).Yields none

variable {e e' : Embedder} {mode : Mode} {module text text' : String}

/-- A script that can be rewritten is not kept. -/
theorem predefine?_rewritten (asked : e.predefines) (kind : ResourceKind.ofName module = .script)
    {r : Resource} {code : String} {p : Predefinition} (found : e.source.pool.find module = .ok r)
    (script : e.source.IsScript module r code)
    (rewritten : Predefinition.ofScript module code e.eager = .ok p) :
    (e.predefine? module).Yields (some (.predefine module p.code)) := by
  unfold predefine?
  rw [if_pos (by simp [asked, kind]), found]
  refine Run.bind_yields.2 ⟨code, Source.script_yields.2 script, ?_⟩
  rw [rewritten]
  exact Run.log1_bind_yields.2 (Run.pure_yields.2 rfl)

/-- An embedding does not depend on what becomes a predefinition. -/
theorem embed_congr (source : e.source = e'.source) (eager : e.eager = e'.eager) :
    e.embed = e'.embed := by
  funext module r
  unfold embed embedScript
  rw [source, eager]

/-- The embedders treat a module in a section of this mode alike: it is taken from the same source
and, if it is preloaded, enclosed alike and kept by both or by neither. -/
structure Alike (e e' : Embedder) (mode : Mode) (module : String) : Prop where
  source : e.source = e'.source
  eager : mode = .preload → e.eager = e'.eager
  kept : mode = .preload → (e.Keeps module ↔ e'.Keeps module)

/-- What is treated alike becomes the same text. -/
theorem Holds.unique (h : e.Holds module mode text) (h' : e'.Holds module mode text')
    (alike : e.Alike e' mode module) : text = text' := by
  have source := alike.source
  cases h with
  | raw found script =>
    obtain ⟨found', script'⟩ := h'
    rw [← source] at found' script'
    cases found.symm.trans found'
    exact script.unique script'
  | predefined asked kind found script rewritten =>
    have eager := alike.eager rfl
    cases h' with
    | predefined asked' kind' found' script' rewritten' =>
      rw [← source] at found' script'
      cases found.symm.trans found'
      cases script.unique script'
      rw [← eager] at rewritten'
      cases rewritten.symm.trans rewritten'
      rfl
    | entry kept' =>
      have kept := (alike.kept rfl).2 kept'
      cases kept.unique (predefine?_rewritten asked kind found script rewritten)
  | entry kept found embedded =>
    have eager := alike.eager rfl
    cases h' with
    | predefined asked' kind' found' script' rewritten' =>
      have kept' := (alike.kept rfl).1 kept
      cases kept'.unique (predefine?_rewritten asked' kind' found' script' rewritten')
    | entry kept' found' embedded' =>
      rw [← source] at found'
      cases found.symm.trans found'
      have embedded' := embed_yields.2 embedded'
      rw [← embed_congr source eager] at embedded'
      cases (embed_yields.2 embedded).unique embedded'
      rfl

end Embedder

namespace Builder

variable {b : Builder} {options options' : Options} {d : Definition}

theorem embedder_alike (optimize : options.optimize = options'.optimize) {mode : Mode}
    {module : String} (preload : mode = .preload →
      options.avoidLazyParsing = options'.avoidLazyParsing ∧
      ((b.embedder options).Keeps module ↔ (b.embedder options').Keeps module)) :
    (b.embedder options).Alike (b.embedder options') mode module := by
  constructor
  case source =>
    change b.source options = b.source options'
    unfold source
    rw [optimize]
  case eager => exact fun mode => (preload mode).1
  case kept => exact fun mode => (preload mode).2

/-- **Options of writing do not change what is selected.** If two builds of a definition in one
bundle from a pool in memory agree on whether missing modules are ignored, the same modules have
segments in both, those that are to be embedded, and the records are the same, their sizes apart. If
the builds also agree on whether sources are optimized, the segments of a raw module have the same
bytes, and so have those of a preloaded one if functions are enclosed alike and the module becomes a
predefinition in both or in neither. -/
theorem create_unaffected {p : MemoryPool} {bundles bundles' : List Bundle}
    (memory : b.pool = p.toPool) (one : options.numberOfParts ≤ 1)
    (one' : options'.numberOfParts ≤ 1) (same : options.ignoreMissing = options'.ignoreMissing)
    (h : (b.create options d).Yields bundles) (h' : (b.create options' d).Yields bundles') :
    ∃ bundle bundle' r, bundles = [bundle] ∧ bundles' = [bundle'] ∧
      (d.resolve b.pool options.ignoreMissing).Yields r ∧
      (∀ module, module ∈ bundle.modules ↔ ∃ t ∈ r.sections, module ∈ t.embedded) ∧
      bundle.modules.Perm bundle'.modules ∧
      { bundle.record with size := none } = { bundle'.record with size := none } ∧
      (options.optimize = options'.optimize →
        ∀ s ∈ bundle.segments, ∀ s' ∈ bundle'.segments, s.module = s'.module →
          (s.module ∈ ResolvedSection.rawModules r.sections ∨
            options.avoidLazyParsing = options'.avoidLazyParsing ∧
            ((b.embedder options).Keeps s.module ↔ (b.embedder options').Keeps s.module)) →
          Writer.slice s bundle.content = Writer.slice s' bundle'.content) := by
  obtain ⟨bundle, built, rfl⟩ := create_yields_one one h
  obtain ⟨bundle', built', rfl⟩ := create_yields_one one' h'
  obtain ⟨r, resolved, _, _, _, _, info, recorded, record⟩ := build_yields.1 built
  obtain ⟨r', resolved', _, _, _, _, info', recorded', record'⟩ := build_yields.1 built'
  rw [← same] at resolved'
  cases resolved.unique resolved'
  have embedded := build_modules memory built resolved
  have embedded' := build_modules memory built' (same ▸ resolved)
  refine ⟨bundle, bundle', r, rfl, rfl, resolved, embedded, ?modules, ?record, ?bytes⟩
  case modules =>
    refine (List.perm_ext_iff_of_nodup (build_nodup built) (build_nodup built')).2 fun module => ?_
    rw [embedded, embedded']
  case record =>
    cases recorded.unique recorded'
    rw [record, record']
  case bytes =>
    intro optimize s hs s' hs' module treated
    obtain ⟨t, ht, hm, text, holds, slice⟩ := build_holds built resolved hs
    obtain ⟨t', ht', hm', text', holds', slice'⟩ := build_holds built' (same ▸ resolved) hs'
    rw [← module] at hm' holds'
    have distinct := Definition.distributed_nodup resolved
    -- the resolutions are the same, so the module is in the same section
    cases ResolvedSection.eq_of_mem_distributed distinct
      (ResolvedSection.mem_distributed ht holds.mode)
      (ResolvedSection.mem_distributed ht' holds'.mode) hm hm'
    have alike : (b.embedder options).Alike (b.embedder options') t.mode s.module :=
      embedder_alike optimize fun preload =>
        treated.resolve_left (ResolvedSection.not_mem_rawModules distinct ht preload hm)
    rw [slice, slice', holds.unique holds' alike]

end Builder

namespace Pictured

/-- Every option of writing is set the other way, those that change bytes apart. -/
def dressed : Options :=
  { decorateBootstrap := false, restartWrapper := true, predefineCalls := true,
    optimizedSources := true, debug := true }

theorem dressed_creates : (builder.create dressed definition).Succeeds :=
  Builder.create_progress (Nat.le_refl 1) (Builder.build_plain resolves rfl (by decide))

/-- No markup becomes a predefinition. -/
theorem keeps_view (options : Options) : (builder.embedder options).Keeps "lib/view.xml" := by
  have kind : ResourceKind.ofName "lib/view.xml" ≠ .script := by decide +kernel
  unfold Embedder.Keeps Embedder.predefine?
  rw [if_neg (by simp [kind])]
  exact Run.pure_yields.2 rfl

theorem picture_unaffected : ∃ bundle bundle', (builder.create {} definition).Yields [bundle] ∧
    (builder.create dressed definition).Yields [bundle'] ∧ bundle.modules.Perm bundle'.modules ∧
    { bundle.record with size := none } = { bundle'.record with size := none } ∧
    ∀ s ∈ bundle.segments, ∀ s' ∈ bundle'.segments, s.module = s'.module →
      Writer.slice s bundle.content = Writer.slice s' bundle'.content := by
  obtain ⟨bundles, h⟩ := creates
  obtain ⟨bundles', h'⟩ := dressed_creates
  have lenient : ({} : Options).ignoreMissing = dressed.ignoreMissing := rfl
  obtain ⟨bundle, bundle', r, rfl, rfl, again, embedded, modules, records, bytes⟩ :=
    Builder.create_unaffected (p := memory) rfl (Nat.le_refl 1) (Nat.le_refl 1) lenient h h'
  cases resolves.unique again
  refine ⟨bundle, bundle', h, h', modules, records, fun s hs s' hs' same =>
    bytes rfl s hs s' hs' same ?_⟩
  have only : ∀ module ∈ resolved.sections.flatMap (·.embedded),
      module ∈ ResolvedSection.rawModules resolved.sections ∨ module = "lib/view.xml" := by
    decide +kernel
  have mem := List.mem_flatMap.2 ((embedded s.module).1 (List.mem_map_of_mem hs))
  refine (only _ mem).imp_right fun view => ⟨rfl, ?_⟩
  rw [view]
  exact iff_of_true (keeps_view _) (keeps_view _)

end Pictured

end Bundler
