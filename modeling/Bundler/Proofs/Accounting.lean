import Bundler.Proofs.PartBundles

/-!
# Which modules have segments

`build_texts` says what the segments of a bundle hold, as long as its modules can be embedded. In a
build that succeeds every raw module is embedded, and every preloaded one of a known kind. So the
segments of a bundle are accounted for, their place in it included: `create_accounts`.
-/

namespace Bundler

/-! ## What a module is embedded as -/

/-- The text that the script of a module is embedded as: its own, or what the minifier makes of it
where scripts are to be minified. -/
inductive Source.IsScript (s : Source) (module : String) (r : Resource) : String → Prop
  | whole (plain : s.shortener? = none) : IsScript s module r r.text
  | minified {minify : Minifier} {code : String} (shortens : s.shortener? = some minify)
      (shortened : minify module r.text = .ok code) : IsScript s module r code

theorem Source.script_yields {s : Source} {module : String} {r : Resource} {code : String} :
    (s.script module r).Yields code ↔ s.IsScript module r code := by
  unfold script
  cases shortener : s.shortener? with
  | none =>
    rw [Run.pure_yields]
    constructor
    · rintro rfl
      exact .whole shortener
    · rintro (_ | ⟨shortens, _⟩)
      · rfl
      · cases shortener.symm.trans shortens
  | some minify =>
    rw [Run.ofExcept_yields]
    constructor
    · intro shortened
      exact .minified shortener shortened
    · rintro (plain | ⟨shortens, shortened⟩)
      · cases shortener.symm.trans plain
      · cases shortener.symm.trans shortens
        exact shortened

namespace Embedder

/-- What a preloaded module becomes by its kind: a script a function, or a string where it needs the
top level scope, and any other module a string of its text. JSON is read and written without
formatting where sources are optimized, and stays as it is if it cannot be read. -/
inductive IsEmbedding (e : Embedder) (module : String) (r : Resource) : Embedding → Prop
  | function {code : String} {info : ModuleInfo} (kind : ResourceKind.ofName module = .script)
      (record : info = r.info.getD { name := module }) (script : e.source.IsScript module r code)
      (enclosed : ¬info.requiresTopLevelScope) :
      IsEmbedding e module r (.function code info.exposedGlobals e.eager)
  | topLevel {code : String} {info : ModuleInfo} (kind : ResourceKind.ofName module = .script)
      (record : info = r.info.getD { name := module }) (script : e.source.IsScript module r code)
      (required : info.requiresTopLevelScope) : IsEmbedding e module r (.literal code)
  | properties (kind : ResourceKind.ofName module = .properties) :
      IsEmbedding e module r (.literal (Literal.properties r.latin1Text))
  | normalized {value : Json} (kind : ResourceKind.ofName module = .json)
      (optimized : e.source.optimize) (read : Json.parse r.text = some value) :
      IsEmbedding e module r (.literal value.text)
  | json (kind : ResourceKind.ofName module = .json)
      (kept : e.source.optimize → Json.parse r.text = none) :
      IsEmbedding e module r (.literal r.text)
  | markup (kind : ResourceKind.ofName module = .markup) :
      IsEmbedding e module r (.literal (e.source.markup r))
  | text (kind : ResourceKind.ofName module = .text) : IsEmbedding e module r (.literal r.text)

theorem normalize_yields {module text normal : String} :
    (normalize module text).Yields normal ↔ ((Json.parse text).map Json.text).getD text = normal := by
  unfold normalize
  split
  · rename_i value read
    rw [read, Run.pure_yields]
    rfl
  · rename_i unread
    rw [unread, Run.log1_bind_yields, Run.pure_yields]
    rfl

theorem isEmbedding_of_embed {e : Embedder} {module : String} {r : Resource} {embedding : Embedding}
    (h : (e.embed module r).Yields embedding) : e.IsEmbedding module r embedding := by
  unfold embed at h
  cases kind : ResourceKind.ofName module with
  | script =>
    rw [kind] at h
    obtain ⟨code, script, h⟩ := Run.bind_yields.1 h
    have script := Source.script_yields.1 script
    dsimp only at h
    split at h
    · rename_i required
      rw [Run.log1_bind_yields] at h
      cases Run.pure_yields.1 h
      exact .topLevel kind rfl script required
    · rename_i enclosed
      cases Run.pure_yields.1 h
      exact .function kind rfl script enclosed
  | json =>
    rw [kind] at h
    dsimp only at h
    split at h
    · rename_i optimized
      obtain ⟨_, normal, h⟩ := Run.bind_yields.1 h
      cases Run.pure_yields.1 h
      cases normalize_yields.1 normal
      cases read : Json.parse r.text with
      | some value => exact .normalized kind optimized read
      | none => exact .json kind fun _ => read
    · rename_i plain
      cases Run.pure_yields.1 h
      exact .json kind fun optimized => absurd optimized plain
  | properties =>
    rw [kind] at h
    cases Run.pure_yields.1 h
    exact .properties kind
  | markup =>
    rw [kind] at h
    cases Run.pure_yields.1 h
    exact .markup kind
  | text =>
    rw [kind] at h
    cases Run.pure_yields.1 h
    exact .text kind
  | unknown =>
    rw [kind] at h
    exact absurd h Run.fail_yields

theorem IsEmbedding.embeds {e : Embedder} {module : String} {r : Resource} {embedding : Embedding}
    (h : e.IsEmbedding module r embedding) : (e.embed module r).Yields embedding := by
  unfold embed
  cases h with
  | function kind record script enclosed =>
    subst record
    rw [kind]
    refine Run.bind_yields.2 ⟨_, Source.script_yields.2 script, ?_⟩
    dsimp only
    rw [if_neg enclosed]
    exact Run.pure_yields.2 rfl
  | topLevel kind record script required =>
    subst record
    rw [kind]
    refine Run.bind_yields.2 ⟨_, Source.script_yields.2 script, ?_⟩
    dsimp only
    rw [if_pos required]
    exact Run.log1_bind_yields.2 (Run.pure_yields.2 rfl)
  | normalized kind optimized read =>
    rw [kind]
    dsimp only
    rw [if_pos optimized]
    refine Run.bind_yields.2 ⟨_, normalize_yields.2 rfl, ?_⟩
    rw [read, Run.pure_yields]
    rfl
  | json kind kept =>
    rw [kind]
    dsimp only
    split
    · rename_i optimized
      refine Run.bind_yields.2 ⟨_, normalize_yields.2 rfl, ?_⟩
      rw [kept optimized, Run.pure_yields]
      rfl
    · exact Run.pure_yields.2 rfl
  | properties kind | markup kind | text kind =>
    rw [kind]
    exact Run.pure_yields.2 rfl

/-- `embed` takes each module for what its kind says. -/
theorem embed_yields {e : Embedder} {module : String} {r : Resource} {embedding : Embedding} :
    (e.embed module r).Yields embedding ↔ e.IsEmbedding module r embedding :=
  ⟨isEmbedding_of_embed, IsEmbedding.embeds⟩

/-- The text is what a module is embedded as in a section of this mode: a raw module as its script,
a preloaded one as its predefinition or else as its embedding, under its quoted name. -/
inductive Holds (e : Embedder) (module : String) : Mode → String → Prop
  | raw {r : Resource} {code : String} (found : e.source.pool.find module = .ok r)
      (script : e.source.IsScript module r code) : Holds e module .raw code
  | predefined {r : Resource} {code : String} {p : Predefinition} (asked : e.predefines)
      (kind : ResourceKind.ofName module = .script) (found : e.source.pool.find module = .ok r)
      (script : e.source.IsScript module r code)
      (rewritten : Predefinition.ofScript module code e.eager = .ok p) :
      Holds e module .preload p.code
  | entry {r : Resource} {embedding : Embedding} (kept : (e.predefine? module).Yields none)
      (found : e.source.pool.findWithInfo module = .ok r)
      (embedded : e.IsEmbedding module r embedding) :
      Holds e module .preload (Json.quote module ++ ":" ++ embedding.text)

variable {e : Embedder} {mode : Mode} {module name text : String}

theorem holds_of_mem_texts (h : (name, text) ∈ e.texts mode module) :
    name = module ∧ e.Holds module mode text := by
  cases mode with
  | raw =>
    have h : (name, text) ∈ e.rawTexts module := h
    unfold rawTexts at h
    split at h
    · cases h
    · rename_i r found
      split at h
      · cases h
      · rename_i code script
        cases List.mem_singleton.1 h
        exact ⟨rfl, .raw found (Source.script_yields.1 script)⟩
  | preload =>
    have h : (name, text) ∈ e.preloadTexts module := h
    unfold preloadTexts at h
    split at h
    · cases h
    · rename_i p predefined
      obtain ⟨asked, kind, r, found, code, script, q, rewritten, rfl⟩ :=
        predefine?_yields predefined
      cases List.mem_singleton.1 h
      exact ⟨rfl, .predefined asked kind found (Source.script_yields.1 script) rewritten⟩
    · rename_i kept
      split at h
      · rename_i entry embeds
        obtain ⟨_, r, found, embedding, embedded, rfl⟩ := entry?_yields embeds
        cases List.mem_singleton.1 h
        exact ⟨rfl, .entry kept found (embed_yields.1 embedded)⟩
      · cases h
  | _ => cases h

end Embedder

/-! ## Successful builds -/

/-- The modules of a section that are embedded: all raw ones, and the preloaded ones of a known
kind. -/
def ResolvedSection.embedded (s : ResolvedSection) : List String :=
  s.modules.filter fun module =>
    s.mode = .raw ∨ s.mode = .preload ∧ ResourceKind.ofName module ≠ .unknown

/-- Each way to look for the module finds it. -/
def Pool.Finds (p : Pool) (module : String) : Prop :=
  (∃ r, p.find module = .ok r) ∧ ∃ r, p.findWithInfo module = .ok r

namespace Plan

variable {e : Embedder} {p p' : Plan} {module : String}

theorem raw_embeds {declares : Bool} (h : (raw e declares p module).Yields p')
    (found : e.source.pool.Finds module) : e.texts .raw module ≠ [] := by
  obtain ⟨⟨r, found⟩, _⟩ := found
  unfold raw at h
  rw [found] at h
  obtain ⟨code, script, _⟩ := Run.bind_yields.1 h
  show e.rawTexts module ≠ []
  rw [Embedder.rawTexts, found]
  dsimp only
  rw [script]
  simp

theorem entry_embeds {entry : Option Entry} (kept : (e.predefine? module).Yields none)
    (h : (e.entry? module).Yields entry) (found : e.source.pool.Finds module) :
    e.texts .preload module ≠ [] ↔ ResourceKind.ofName module ≠ .unknown := by
  have texts : e.texts .preload module =
      (entry.map fun entry => (entry.module, entry.text)).toList := by
    show e.preloadTexts module = _
    rw [Embedder.preloadTexts, kept]
    dsimp only
    rw [h]
    cases entry <;> rfl
  rw [texts]
  obtain ⟨_, r, found⟩ := found
  cases entry with
  | some entry =>
    have known := (Embedder.entry?_yields h).1
    exact iff_of_true (by simp) known
  | none =>
    refine iff_of_false (by simp) fun known => ?_
    unfold Embedder.entry? at h
    rw [found] at h
    dsimp only at h
    rw [if_neg known] at h
    obtain ⟨_, _, h⟩ := Run.bind_yields.1 h
    cases Run.pure_yields.1 h

theorem preload_embeds {s : ResolvedSection} (h : (p.preload e s).Yields p')
    (hm : module ∈ s.modules) (found : e.source.pool.Finds module) :
    e.texts .preload module ≠ [] ↔ ResourceKind.ofName module ≠ .unknown := by
  obtain ⟨tried, trying, h⟩ := Run.bind_yields.1 h
  obtain ⟨modules, all⟩ := tried_spec trying
  have mem : module ∈ tried.map (·.1) := by
    rw [modules, List.mem_mergeSort]
    exact hm
  obtain ⟨predefined, ht⟩ : ∃ predefined, (module, predefined) ∈ tried := by simpa using mem
  have this : (e.predefine? module).Yields predefined := all (module, predefined) ht
  cases predefined with
  | some piece =>
    obtain ⟨_, kind, _, _, _, _, q, _, rfl⟩ := Embedder.predefine?_yields this
    refine iff_of_true ?_ (by simp [kind])
    show e.preloadTexts module ≠ []
    rw [Embedder.preloadTexts, this]
    simp [Piece.texts]
  | none =>
    have remains : module ∈ (tried.filter (·.2.isNone)).map (·.1) :=
      List.mem_map_of_mem (List.mem_filter.2 ⟨ht, rfl⟩)
    dsimp only at h
    split at h
    · rename_i empty
      exact absurd (List.isEmpty_iff.1 empty) (List.ne_nil_of_mem remains)
    · obtain ⟨entries, embedding, _⟩ := Run.bind_yields.1 h
      obtain ⟨entry, embeds⟩ := Run.mapM_each embedding module remains
      exact entry_embeds this embeds found

/-- A section that is planned embeds what it is to embed. -/
theorem addSection_embeds {s : ResolvedSection} (h : (addSection e p s).Yields p')
    (found : ∀ module ∈ s.modules, e.source.pool.Finds module) :
    (e.sectionTexts s).map (·.1) = s.embedded := by
  rw [Embedder.sectionTexts_names_eq]
  refine List.filter_congr fun module hm => decide_eq_decide.2 ?_
  have this := found module hm
  unfold addSection at h
  cases mode : s.mode with
  | raw =>
    rw [mode] at h
    obtain ⟨_, _, planned⟩ := Run.foldlM_each h module hm
    simpa using raw_embeds planned this
  | preload =>
    rw [mode] at h
    simpa using preload_embeds h hm this
  | _ => simp [Embedder.texts]

end Plan

theorem Resolved.pieces_embeds {r : Resolved} {e : Embedder} {d : Decoration} {pieces : List Piece}
    (h : (r.pieces e d).Yields pieces)
    (found : ∀ s ∈ r.sections, ∀ module ∈ s.modules, e.source.pool.Finds module) :
    ∀ s ∈ r.sections, (e.sectionTexts s).map (·.1) = s.embedded := by
  intro s hs
  obtain ⟨p, planned, _⟩ := Run.bind_yields.1 h
  obtain ⟨_, _, planned⟩ := Run.foldlM_each planned s hs
  exact Plan.addSection_embeds planned (found s hs)

namespace ResolvedSection

variable {s : ResolvedSection} {module : String}

theorem mem_embedded : module ∈ s.embedded ↔ module ∈ s.modules ∧
    (s.mode = .raw ∨ s.mode = .preload ∧ ResourceKind.ofName module ≠ .unknown) := by
  rw [embedded, List.mem_filter, decide_eq_true_iff]

theorem mem_distributed {sections : List ResolvedSection} (hs : s ∈ sections)
    (mode : s.mode = .raw ∨ s.mode = .preload) : s ∈ distributed sections :=
  List.mem_filter.2 ⟨hs, by rcases mode with mode | mode <;> simp [mode]⟩

end ResolvedSection

/-- What a resolution selects is found. -/
theorem Definition.resolve_found {d : Definition} {pool : Pool} {ignoreMissing : Bool}
    {r : Resolved} (h : (d.resolve pool ignoreMissing).Yields r) {s : ResolvedSection}
    (hs : s ∈ r.sections) {module : String} (hm : module ∈ s.modules) :
    ∃ resource, pool.findWithInfo module = .ok resource := by
  obtain ⟨_, _, all⟩ := resolve_yields.1 h
  obtain ⟨_, _, _, sound, this⟩ := ResolvedSection.ofSections_each Walk.sound_empty all s hs
  obtain ⟨search, searched, _, _, outcome⟩ := ResolvedSection.ofSection_outcome sound this
  obtain ⟨_, info, found, _⟩ := (outcome.mem module).1 hm
  obtain ⟨_, _, rfl⟩ := Section.search_eq_ok.1 searched
  unfold Pool.record? at found
  split at found
  · exact ⟨_, ‹_›⟩
  · cases found

theorem MemoryPool.finds {p : MemoryPool} {module : String} {r : Resource}
    (h : p.toPool.findWithInfo module = .ok r) : p.toPool.Finds module :=
  ⟨Pool.ok_of_describe h, r, h⟩

theorem Definition.resolve_finds {d : Definition} {p : MemoryPool} {pool : Pool}
    (memory : pool = p.toPool) {ignoreMissing : Bool} {r : Resolved}
    (h : (d.resolve pool ignoreMissing).Yields r) :
    ∀ s ∈ r.sections, ∀ module ∈ s.modules, pool.Finds module := by
  intro s hs module hm
  obtain ⟨resource, found⟩ := resolve_found h hs hm
  rw [memory] at found ⊢
  exact MemoryPool.finds found

namespace Embedder.Carries

variable {e : Embedder} {sections : List ResolvedSection} {embedded : List (String × String)}

theorem raw_names (h : e.Carries sections embedded)
    (nodup : ((ResolvedSection.distributed sections).flatMap (·.modules)).Nodup)
    (each : ∀ s ∈ sections, (e.sectionTexts s).map (·.1) = s.embedded) :
    (embedded.filter (·.1 ∈ ResolvedSection.rawModules sections)).map (·.1) =
      ResolvedSection.rawModules sections := by
  have others : ∀ s ∈ sections, ¬decide (s.mode = .raw) →
      s.modules.flatMap (e.rawOnly s.mode) = [] := by
    intro s _ other
    have silent : e.rawOnly s.mode = fun _ => [] := by
      cases mode : s.mode <;> first | rfl | simp_all
    rw [silent]
    exact List.flatMap_eq_nil_iff.2 fun _ _ => rfl
  rw [h.filter_rawModules nodup, ← flatMap_filter_of_nil others, List.map_flatMap,
    ResolvedSection.rawModules]
  refine List.flatMap_congr fun s hs => ?_
  obtain ⟨hs, raw⟩ := List.mem_filter.1 hs
  have raw : s.mode = .raw := of_decide_eq_true raw
  have texts : s.modules.flatMap (e.rawOnly s.mode) = e.sectionTexts s := by
    rw [Embedder.sectionTexts, raw]
    rfl
  rw [texts, each s hs]
  exact List.filter_eq_self.2 fun _ _ => by simp [raw]

theorem holds (h : e.Carries sections embedded) {module text : String}
    (mem : (module, text) ∈ embedded) :
    ∃ s ∈ sections, module ∈ s.modules ∧ e.Holds module s.mode text := by
  obtain ⟨s, hs, mem⟩ := List.mem_flatMap.1 (h.perm.mem_iff.1 mem)
  obtain ⟨module, hm, mem⟩ := List.mem_flatMap.1 mem
  obtain ⟨rfl, holds⟩ := Embedder.holds_of_mem_texts mem
  exact ⟨s, hs, hm, holds⟩

end Embedder.Carries

theorem Embedder.Holds.mode {e : Embedder} {module text : String} {mode : Mode}
    (h : e.Holds module mode text) : mode = .raw ∨ mode = .preload := by
  cases h with
  | raw => exact .inl rfl
  | predefined => exact .inr rfl
  | entry => exact .inr rfl

namespace Builder

variable {b : Builder} {options : Options} {d : Definition}

/-- The segments of a bundle lie within it, one behind the other. -/
theorem build_layout {bundle : Bundle} (h : (b.build options d).Yields bundle) :
    (∀ s ∈ bundle.segments,
      s.startIndex ≤ s.endIndex ∧ s.endIndex ≤ bundle.content.utf8ByteSize) ∧
    bundle.segments.Pairwise fun s t => s.endIndex ≤ t.startIndex := by
  obtain ⟨_, _, _, _, w, written, _, _, rfl⟩ := build_yields.1 h
  have sound := Piece.writeAll_sound written
  exact ⟨sound.within, sound.ordered⟩

theorem build_nodup {bundle : Bundle} (h : (b.build options d).Yields bundle) :
    bundle.modules.Nodup := by
  obtain ⟨r, resolved, _⟩ := build_yields.1 h
  rw [(build_names h resolved).nodup_iff]
  exact Embedder.sectionTexts_names_nodup _ (Definition.distributed_nodup resolved)

/-- Each segment holds what its module is embedded as in its section. -/
theorem build_holds {bundle : Bundle} {r : Resolved} (h : (b.build options d).Yields bundle)
    (resolved : (d.resolve b.pool options.ignoreMissing).Yields r) {s : Segment}
    (hs : s ∈ bundle.segments) :
    ∃ t ∈ r.sections, s.module ∈ t.modules ∧ ∃ text,
      (b.embedder options).Holds s.module t.mode text ∧
      Writer.slice s bundle.content = Utf8.encode text := by
  obtain ⟨r', again, embedded, carries, texts⟩ := build_texts h
  cases resolved.unique again
  have here : (s.module, Writer.slice s bundle.content) ∈ bundle.texts := List.mem_map_of_mem hs
  rw [texts] at here
  obtain ⟨⟨module, text⟩, he, same⟩ := List.mem_map.1 here
  obtain ⟨rfl, slice⟩ := Prod.mk.inj same
  obtain ⟨t, ht, hm, holds⟩ := carries.holds he
  exact ⟨t, ht, hm, text, holds, slice.symm⟩

/-- From a pool in memory, what is to be embedded is found, and has a segment. -/
theorem build_modules {p : MemoryPool} (memory : b.pool = p.toPool) {bundle : Bundle}
    {r : Resolved} (h : (b.build options d).Yields bundle)
    (resolved : (d.resolve b.pool options.ignoreMissing).Yields r) (module : String) :
    module ∈ bundle.modules ↔ ∃ t ∈ r.sections, module ∈ t.embedded := by
  obtain ⟨r', again, pieces, planned, _⟩ := build_yields.1 h
  cases resolved.unique again
  have each := Resolved.pieces_embeds planned (Definition.resolve_finds memory resolved)
  rw [(build_names h resolved).mem_iff, List.map_flatMap, List.flatMap_congr each,
    List.mem_flatMap]

/-- From a pool in memory, the raw modules have segments in the order of their sections. -/
theorem build_rawModules {p : MemoryPool} (memory : b.pool = p.toPool) {bundle : Bundle}
    {r : Resolved} (h : (b.build options d).Yields bundle)
    (resolved : (d.resolve b.pool options.ignoreMissing).Yields r) :
    bundle.modules.filter (· ∈ ResolvedSection.rawModules r.sections) =
      ResolvedSection.rawModules r.sections := by
  obtain ⟨r', again, pieces, planned, _⟩ := build_yields.1 h
  cases resolved.unique again
  obtain ⟨r', again, embedded, carries, texts⟩ := build_texts h
  cases resolved.unique again
  have found := Definition.resolve_finds memory resolved
  have each := Resolved.pieces_embeds planned found
  rw [← bundle.texts_names, texts, Writer.encoded_names]
  exact (List.filter_map ..).trans
    (carries.raw_names (Definition.distributed_nodup resolved) each)

/-- **The segments of a bundle are accounted for.** If a definition is built in one bundle from a
pool in memory, the segments lie within the bundle, one behind the other, and no module has two. The
raw modules have one, in the order of their sections, and of the preloaded modules those of a known
kind; no other module has one. Each segment holds just what its module is embedded as. -/
theorem create_accounts {p : MemoryPool} {bundles : List Bundle} (memory : b.pool = p.toPool)
    (one : options.numberOfParts ≤ 1) (h : (b.create options d).Yields bundles) :
    ∃ bundle r, bundles = [bundle] ∧ (d.resolve b.pool options.ignoreMissing).Yields r ∧
      (∀ s ∈ bundle.segments,
        s.startIndex ≤ s.endIndex ∧ s.endIndex ≤ bundle.content.utf8ByteSize) ∧
      bundle.segments.Pairwise (fun s t => s.endIndex ≤ t.startIndex) ∧
      bundle.modules.Nodup ∧
      (∀ module, module ∈ bundle.modules ↔ ∃ t ∈ r.sections, module ∈ t.embedded) ∧
      bundle.modules.filter (· ∈ ResolvedSection.rawModules r.sections) =
        ResolvedSection.rawModules r.sections ∧
      ∀ s ∈ bundle.segments, ∀ t ∈ r.sections, s.module ∈ t.embedded →
        ∃ text, (b.embedder options).Holds s.module t.mode text ∧
          Writer.slice s bundle.content = Utf8.encode text := by
  obtain ⟨bundle, built, rfl⟩ := create_yields_one one h
  obtain ⟨r, resolved, _⟩ := build_yields.1 built
  obtain ⟨within, ordered⟩ := build_layout built
  refine ⟨bundle, r, rfl, resolved, within, ordered, build_nodup built,
    build_modules memory built resolved, build_rawModules memory built resolved, ?_⟩
  intro s hs t ht mem
  obtain ⟨t', ht', hm', text, holds, slice⟩ := build_holds built resolved hs
  obtain ⟨hm, mode⟩ := ResolvedSection.mem_embedded.1 mem
  -- no other section that is embedded has the module
  have only : t = t' := ResolvedSection.eq_of_mem_distributed
    (Definition.distributed_nodup resolved)
    (ResolvedSection.mem_distributed ht (mode.imp_right And.left))
    (ResolvedSection.mem_distributed ht' holds.mode) hm hm'
  cases only
  exact ⟨text, holds, slice⟩

end Builder

/-! ## A picture in a library -/

namespace Pictured

def memory : MemoryPool := .ofResources
  [{ name := "lib/boot.js", content := [59] }, { name := "lib/view.xml", content := [60, 47, 62] },
    { name := "lib/logo.png", content := [137] }]

def booting : Section := { mode := .raw, filters := ["lib/boot.js"] }

def views : Section := { filters := ["lib/"] }

def definition : Definition := { sections := [booting, views] }

def bootSearch : Search := ⟨memory.toPool, true, booting, [⟨true, .directory "lib/boot.js"⟩]⟩

def viewSearch : Search := ⟨memory.toPool, true, views, [⟨true, .directory "lib/"⟩]⟩

def resolved : Resolved :=
  ⟨definition, [⟨booting, ["lib/boot.js"]⟩, ⟨views, ["lib/view.xml", "lib/logo.png"]⟩]⟩

theorem walks : ∃ booted reached, bootSearch.Walks {} bootSearch.roots booted ∧
    booted.selected.names = ["lib/boot.js"] ∧ viewSearch.Walks booted viewSearch.roots reached ∧
    reached.selected.names = ["lib/boot.js", "lib/view.xml", "lib/logo.png"] := by
  have first : bootSearch.roots = [⟨"lib/boot.js", [], false⟩] := by decide +kernel
  have second : viewSearch.roots = [⟨"lib/boot.js", [], false⟩, ⟨"lib/view.xml", [], false⟩,
      ⟨"lib/logo.png", [], false⟩] := by
    decide +kernel
  refine ⟨?booted, ?reached, ?boot, ?bootNames, ?view, ?viewNames⟩
  case boot =>
    rw [first]
    have found : bootSearch.pool.record? "lib/boot.js" = some { name := "lib/boot.js" } := rfl
    refine .selected (by decide) (by decide +kernel) found (by decide +kernel) ?_
    exact .done
  case view =>
    rw [second]
    refine .repeated (by decide) ?_
    have found : viewSearch.pool.record? "lib/view.xml" = some { name := "lib/view.xml" } := rfl
    refine .selected (by decide) (by decide +kernel) found (by decide +kernel) ?_
    have found : viewSearch.pool.record? "lib/logo.png" = some { name := "lib/logo.png" } := rfl
    refine .selected (by decide) (by decide +kernel) found (by decide +kernel) ?_
    exact .done
  case bootNames => rfl
  case viewNames => rfl

theorem resolves : (definition.resolve memory.toPool true).Yields resolved := by
  obtain ⟨booted, reached, boot, bootNames, view, viewNames⟩ := walks
  refine Definition.resolve_yields.2 ⟨rfl, reached, ?_⟩
  refine ResolvedSection.ofSections_cons.2 ⟨booted, _, ?first, _, ?second, rfl⟩
  case first =>
    have searched : booting.search memory.toPool true = .ok bootSearch := rfl
    exact ResolvedSection.ofSection_of_walks searched (by decide) rfl boot bootNames
  case second =>
    refine ResolvedSection.ofSections_cons.2 ⟨_, _, ?_, _, Run.pure_yields.2 rfl, rfl⟩
    have searched : views.search memory.toPool true = .ok viewSearch := rfl
    refine ResolvedSection.ofSection_of_walks searched (by decide) rfl view ?_
    rw [bootNames, viewNames]
    rfl

def builder : Builder := { pool := memory.toPool, format := .ofPool memory.toPool }

theorem creates : (builder.create {} definition).Succeeds :=
  Builder.create_progress (Nat.le_refl 1) (Builder.build_plain resolves rfl (by decide))

/-- The picture is selected but not embedded. -/
theorem picture_accounted : (Builder.ofPool memory.toPool none).Yields builder ∧
    ∃ bundle, (builder.create {} definition).Yields [bundle] ∧
      bundle.modules.Perm ["lib/boot.js", "lib/view.xml"] := by
  obtain ⟨bundles, h⟩ := creates
  obtain ⟨bundle, r, rfl, again, _, _, nodup, modules, _⟩ :=
    Builder.create_accounts (p := memory) rfl (Nat.le_refl 1) h
  cases resolves.unique again
  refine ⟨rfl, bundle, h, (List.perm_ext_iff_of_nodup nodup (by decide)).2 fun module => ?_⟩
  rw [modules]
  have embedded : resolved.sections.flatMap (·.embedded) = ["lib/boot.js", "lib/view.xml"] := by
    decide +kernel
  rw [← embedded, List.mem_flatMap]

end Pictured

end Bundler
