import Bundler.Proofs.Accounting
import Bundler.Proofs.Lenient
import Bundler.Proofs.Progress
import Bundler.Proofs.Strictness
import Bundler.Proofs.Texts

/-!
# Why bundles are refused

`Builder.Refuses` lists what a definition can be refused for: patterns that are none, missing
dependencies, scripts that the minifier fails on, and announcements without a name. In one bundle,
from a pool in memory, nothing else makes a build fail, and each of them does: `create_fails`.
-/

namespace Bundler

/-- The names of scripts are those with their extension. -/
theorem ResourceKind.ofName_eq_script {name : String} :
    ofName name = .script ↔ ∃ stem, name = stem ++ ".js" := by
  have script (extension : String) : ofExtension extension = .script ↔ extension = "js" := by
    unfold ofExtension
    split_ifs <;> simp_all
  unfold ofName
  dsimp only
  constructor
  · intro h
    split at h
    · rename_i dotted
      obtain ⟨stem, file⟩ := Text.eq_append_afterLast (List.contains_iff_mem.1 dotted)
      have js : Text.afterLast '.' (Name.file name) = "js".toList := by
        rw [← (script _).1 h, String.toList_ofList]
      obtain ⟨directory, whole⟩ := Name.file_suffix name
      refine ⟨String.ofList (directory ++ stem), String.toList_inj.1 ?_⟩
      rw [← whole, file, js]
      simp
    · cases h
  · rintro ⟨stem, rfl⟩
    have last : Name.file (stem ++ ".js") = Name.file stem ++ ".js".toList := by
      rw [Name.file, String.toList_append]
      exact Text.afterLast_append_of_not_mem (by decide)
    rw [last, if_pos (by simp), script, Text.afterLast_append_of_mem (by decide)]
    decide

/-! ## Scripts that are refused -/

namespace Source

variable {s : Source} {module : String}

/-- The minifier fails on the text of the module. -/
def Refuses (s : Source) (module reason : String) : Prop :=
  ∃ minify r, s.shortener? = some minify ∧ s.pool.find module = .ok r ∧
    minify module r.text = .error reason

theorem script_fails {r : Resource} {fault : Fault} (h : (s.script module r).Fails fault) :
    ∃ minify reason, s.shortener? = some minify ∧ minify module r.text = .error reason ∧
      .minification module reason = fault := by
  unfold script at h
  split at h
  · rename_i minify shortens
    obtain ⟨reason, failed, rfl⟩ := Run.ofExcept_fails.1 h
    exact ⟨minify, reason, shortens, failed, rfl⟩
  · exact absurd h Run.pure_fails

theorem Refuses.not_isScript {reason : String} (h : s.Refuses module reason) {r : Resource}
    {code : String} (script : s.IsScript module r code)
    (found : ∃ r', s.pool.find module = .ok r' ∧ r'.text = r.text) : False := by
  obtain ⟨minify, r', shortens, found', failed⟩ := h
  obtain ⟨_, again, same⟩ := found
  cases again.symm.trans found'
  rw [same] at failed
  cases script with
  | whole plain => cases plain.symm.trans shortens
  | minified shortens' shortened =>
    cases shortens.symm.trans shortens'
    cases failed.symm.trans shortened

end Source

/-- A module has the same text whether it is looked up with its record or without. -/
def Pool.Plain (p : Pool) : Prop :=
  ∀ module r, p.findWithInfo module = .ok r → ∃ r', p.find module = .ok r' ∧ r'.text = r.text

theorem MemoryPool.plain (p : MemoryPool) : p.toPool.Plain := by
  intro module r h
  change Pool.describe module (Pool.findIn p.resources module) = .ok r at h
  obtain ⟨r', found⟩ := Pool.ok_of_describe h
  rw [found] at h
  cases h
  exact ⟨r', found, rfl⟩

namespace Embedder

variable {e : Embedder} {module : String} {fault : Fault}

/-- The module cannot be embedded, because its script is refused. -/
def Refuses (e : Embedder) (module : String) (fault : Fault) : Prop :=
  ∃ reason, e.source.Refuses module reason ∧ .minification module reason = fault

theorem refuses_of_script_fails {r : Resource} (h : (e.source.script module r).Fails fault)
    (found : ∃ r', e.source.pool.find module = .ok r' ∧ r'.text = r.text) :
    e.Refuses module fault := by
  obtain ⟨minify, reason, shortens, failed, rfl⟩ := Source.script_fails h
  obtain ⟨r', found, same⟩ := found
  rw [← same] at failed
  exact ⟨reason, ⟨minify, r', shortens, found, failed⟩, rfl⟩

theorem predefine?_fails (h : (e.predefine? module).Fails fault) :
    ResourceKind.ofName module = .script ∧ e.Refuses module fault := by
  unfold predefine? at h
  split at h
  · rename_i asked
    obtain ⟨_, kind⟩ := Bool.and_eq_true_iff.1 asked
    refine ⟨of_decide_eq_true kind, ?_⟩
    split at h
    · rw [Run.log1_bind_fails] at h
      exact absurd h Run.pure_fails
    · rename_i r found
      rcases Run.bind_fails.1 h with h | ⟨code, _, h⟩
      · exact refuses_of_script_fails h ⟨r, found, rfl⟩
      · split at h
        · rw [Run.log1_bind_fails] at h
          exact absurd h Run.pure_fails
        · rw [Run.log1_bind_fails] at h
          exact absurd h Run.pure_fails
        · exact absurd h Run.pure_fails
  · exact absurd h Run.pure_fails

/-- The kinds that are embedded leave only the script to fail. -/
theorem embed_fails {r : Resource} (known : ResourceKind.ofName module ≠ .unknown)
    (h : (e.embed module r).Fails fault) :
    ResourceKind.ofName module = .script ∧ (e.source.script module r).Fails fault := by
  unfold embed at h
  split at h
  · rename_i script
    refine ⟨script, ?_⟩
    rcases Run.bind_fails.1 h with h | ⟨code, _, h⟩
    · exact h
    · dsimp only at h
      split at h
      · rw [Run.log1_bind_fails] at h
        exact absurd h Run.pure_fails
      · exact absurd h Run.pure_fails
  · exact absurd h Run.pure_fails
  · dsimp only at h
    split at h
    · obtain ⟨_, normal⟩ := normalize_progress module r.text
      rcases Run.bind_fails.1 h with h | ⟨_, _, h⟩
      · exact absurd h (normal.not_fails fault)
      · exact absurd h Run.pure_fails
    · exact absurd h Run.pure_fails
  · exact absurd h Run.pure_fails
  · exact absurd h Run.pure_fails
  · contradiction

theorem entry?_fails (plain : e.source.pool.Plain) (h : (e.entry? module).Fails fault) :
    ResourceKind.ofName module = .script ∧ e.Refuses module fault := by
  unfold entry? at h
  split at h
  · rw [Run.log1_bind_fails] at h
    exact absurd h Run.pure_fails
  · rename_i r found
    split at h
    · rw [Run.log1_bind_fails] at h
      exact absurd h Run.pure_fails
    · rename_i known
      rcases Run.bind_fails.1 h with h | ⟨_, _, h⟩
      · obtain ⟨kind, failed⟩ := embed_fails known h
        exact ⟨kind, refuses_of_script_fails failed (plain module r found)⟩
      · exact absurd h Run.pure_fails

/-- What a script is embedded in comes from its text, so it has not been refused. -/
theorem Holds.not_refuses {mode : Mode} {text : String} (plain : e.source.pool.Plain)
    (h : e.Holds module mode text)
    (script : mode = .raw ∨ ResourceKind.ofName module = .script) (reason : String) :
    ¬e.source.Refuses module reason := by
  intro refuses
  cases h with
  | @raw r _ found code => exact refuses.not_isScript code ⟨r, found, rfl⟩
  | @predefined r _ _ _ _ found code => exact refuses.not_isScript code ⟨r, found, rfl⟩
  | @entry r _ _ found embedded =>
    have kind : ResourceKind.ofName module = .script := script.resolve_left (by simp)
    cases embedded with
    | function _ _ code | topLevel _ _ code => exact refuses.not_isScript code (plain module r found)
    | properties other | normalized other | json other | markup other | text other =>
      cases kind.symm.trans other

end Embedder

/-! ## Sections that are refused -/

namespace Plan

variable {e : Embedder} {p : Plan} {fault : Fault}

theorem raw_fails {declares : Bool} {module : String}
    (h : (raw e declares p module).Fails fault) : e.Refuses module fault := by
  unfold raw at h
  split at h
  · rw [Run.log1_bind_fails] at h
    exact absurd h Run.pure_fails
  · rename_i r found
    rcases Run.bind_fails.1 h with h | ⟨_, _, h⟩
    · exact Embedder.refuses_of_script_fails h ⟨r, found, rfl⟩
    · exact absurd h Run.pure_fails

theorem preload_fails {s : ResolvedSection} (plain : e.source.pool.Plain)
    (h : (p.preload e s).Fails fault) :
    ∃ module ∈ s.modules, ResourceKind.ofName module = .script ∧ e.Refuses module fault := by
  have sorted := List.mergeSort_perm s.modules fun a b => a ≤ b
  unfold preload at h
  rcases Run.bind_fails.1 h with h | ⟨tried, trying, h⟩
  · obtain ⟨module, hm, failed⟩ := Run.mapM_fails h
    rcases Run.bind_fails.1 failed with failed | ⟨_, _, failed⟩
    · exact ⟨module, sorted.mem_iff.1 hm, Embedder.predefine?_fails failed⟩
    · exact absurd failed Run.pure_fails
  · dsimp only at h
    split at h
    · exact absurd h Run.pure_fails
    · rcases Run.bind_fails.1 h with h | ⟨_, _, h⟩
      · obtain ⟨module, hm, failed⟩ := Run.mapM_fails h
        obtain ⟨t, ht, rfl⟩ := List.mem_map.1 hm
        have mem : t.1 ∈ tried.map (·.1) := List.mem_map_of_mem (List.mem_of_mem_filter ht)
        rw [(tried_spec trying).1] at mem
        exact ⟨t.1, sorted.mem_iff.1 mem, Embedder.entry?_fails plain failed⟩
      · exact absurd h Run.pure_fails

end Plan

namespace Section

/-- The section announces a bundle, and what it calls the bundle is no name of a script. -/
inductive Anonymous (s : Section) : Fault → Prop
  | unnamed (mode : s.mode = .bundleInfo) (none : s.name = none) : Anonymous s .unnamedAnnouncement
  | extension {name : String} (mode : s.mode = .bundleInfo) (named : s.name = some name)
      (other : ∀ stem, name ≠ stem ++ ".js") : Anonymous s (.announcedWithoutExtension name)

end Section

namespace ResolvedSection

/-- The section embeds the script of the module: any module is one in a raw section, and in a
preload section those with the extension of scripts. -/
structure Scripts (s : ResolvedSection) (module : String) : Prop where
  mem : module ∈ s.modules
  mode : s.mode = .raw ∨ s.mode = .preload ∧ ∃ stem, module = stem ++ ".js"

theorem Scripts.embedded {s : ResolvedSection} {module : String} (h : s.Scripts module) :
    module ∈ s.embedded := by
  rw [mem_embedded]
  refine ⟨h.mem, h.mode.imp_right fun ⟨preload, stem⟩ => ⟨preload, ?_⟩⟩
  rw [ResourceKind.ofName_eq_script.2 stem]
  decide

end ResolvedSection

namespace Plan

variable {e : Embedder} {p p' : Plan} {s : ResolvedSection} {fault : Fault}

theorem bundleInfo_fails (mode : s.mode = .bundleInfo) (h : (p.bundleInfo s).Fails fault) :
    s.definition.Anonymous fault := by
  unfold bundleInfo at h
  split at h
  · rename_i unnamed
    cases Run.fail_fails.1 h
    exact .unnamed mode unnamed
  · rename_i name named
    split at h
    · exact absurd h Run.pure_fails
    · rename_i other
      cases Run.fail_fails.1 h
      apply Section.Anonymous.extension mode named
      intro stem same
      have found : Text.before? Name.scriptExtension name.toList = some stem.toList :=
        Name.before?_scriptExtension.2 (by simpa using same)
      exact other (by rw [found]; rfl)

theorem addSection_fails (plain : e.source.pool.Plain) (h : (addSection e p s).Fails fault) :
    (∃ module, s.Scripts module ∧ e.Refuses module fault) ∨ s.definition.Anonymous fault := by
  unfold addSection at h
  split at h
  case h_1 => exact absurd h Run.pure_fails
  case h_2 mode =>
    obtain ⟨module, hm, _, failed⟩ := Run.foldlM_fails h
    exact .inl ⟨module, ⟨hm, .inl mode⟩, raw_fails failed⟩
  case h_3 mode =>
    obtain ⟨module, hm, script, refuses⟩ := preload_fails plain h
    have stem := ResourceKind.ofName_eq_script.1 script
    exact .inl ⟨module, ⟨hm, .inr ⟨mode, stem⟩⟩, refuses⟩
  case h_4 mode => exact .inr (bundleInfo_fails mode h)
  case h_5 => exact absurd h Run.pure_fails

theorem bundleInfo_named (h : (p.bundleInfo s).Yields p') :
    ∃ stem, s.name = some (stem ++ ".js") := by
  unfold bundleInfo at h
  split at h
  · exact (Run.fail_yields h).elim
  · rename_i name named
    split at h
    · rename_i extension
      obtain ⟨stem, found⟩ := Option.isSome_iff_exists.1 extension
      exact ⟨String.ofList stem, by rw [named, Name.before?_scriptExtension.1 found]⟩
    · exact (Run.fail_yields h).elim

/-- What has been planned has a name if it is an announcement. -/
theorem addSection_named (h : (addSection e p s).Yields p') : ¬s.definition.Anonymous fault := by
  intro anonymous
  have mode : s.mode = .bundleInfo := by cases anonymous <;> assumption
  unfold addSection at h
  rw [mode] at h
  obtain ⟨stem, named⟩ := bundleInfo_named h
  have named : s.definition.name = some (stem ++ ".js") := named
  cases anonymous with
  | unnamed _ none => cases none.symm.trans named
  | extension _ same other =>
    cases same.symm.trans named
    exact other stem rfl

end Plan

/-! ## Definitions that are refused -/

namespace Definition

variable {d : Definition} {pool : Pool} {ignoreMissing : Bool} {r : Resolved} {fault : Fault}

/-- What resolves does so as well where the missing is ignored, and to the same. -/
theorem resolve_yields_lenient (h : (d.resolve pool ignoreMissing).Yields r) :
    (d.resolve pool true).Yields r := by
  cases ignoreMissing with
  | true => exact h
  | false => rwa [← (d.resolve_tightens pool).eq_of_yields h]

/-- What resolves strictly has lacked nothing. -/
theorem resolve_complete (h : (d.resolve pool false).Yields r) (name requirer : String) :
    .missing name requirer ∉ (d.resolve pool true).log := by
  intro logged
  cases first : (d.resolve pool true).log.find? Event.isMissing with
  | none => exact absurd rfl (List.find?_eq_none.1 first _ logged)
  | some event =>
    obtain ⟨_, _, _, _, _, failed, _⟩ := (d.resolve_tightens pool).first_missing first
    exact h.not_fails _ failed

theorem resolve_parses (readable : pool.Readable) (h : (d.resolve pool ignoreMissing).Yields r)
    {s : Section} (hs : s ∈ d.sections) {pattern : String} (hp : pattern ∈ s.filters)
    (e : InvalidPattern) : Filter.parse pattern ≠ .error e := by
  intro invalid
  obtain ⟨e', parse⟩ : ∃ e', FilterList.parse s.filters = .error e' := mapM_error_of_mem hp invalid
  obtain ⟨e'', all⟩ :=
    mapM_error_of_mem (f := fun s : Section => FilterList.parse s.filters) hs parse
  have failed := (resolve_lenient_fails readable).2 ⟨e'', all, rfl⟩
  exact (resolve_yields_lenient h).not_fails _ failed

/-- A pattern is none, or a dependency is missing that may not be. -/
theorem resolve_fails_cases (readable : pool.Readable)
    (h : (d.resolve pool ignoreMissing).Fails fault) :
    (∃ s ∈ d.sections, ∃ pattern ∈ s.filters, ∃ e, Filter.parse pattern = .error e ∧
      .invalidPattern e = fault) ∨
    ¬ignoreMissing ∧ ∃ name requirer cause,
      .missing name requirer ∈ (d.resolve pool true).log ∧
        .missingModule name requirer cause = fault := by
  have pattern (h : (d.resolve pool true).Fails fault) : ∃ s ∈ d.sections,
      ∃ pattern ∈ s.filters, ∃ e, Filter.parse pattern = .error e ∧ .invalidPattern e = fault := by
    obtain ⟨e, all, rfl⟩ := (resolve_lenient_fails readable).1 h
    obtain ⟨s, hs, parse⟩ := exists_of_mapM_error all
    obtain ⟨pattern, hp, invalid⟩ := exists_of_mapM_error parse
    exact ⟨s, hs, pattern, hp, e, invalid, rfl⟩
  cases ignoreMissing with
  | true => exact .inl (pattern h)
  | false =>
    have tightens := d.resolve_tightens pool
    cases first : (d.resolve pool true).log.find? Event.isMissing with
    | none =>
      rw [tightens.eq_of_complete first] at h
      exact .inl (pattern h)
    | some event =>
      obtain ⟨name, requirer, cause, rfl, _, failed, _⟩ := tightens.first_missing first
      have logged := List.mem_of_find?_eq_some first
      have same : Fault.missingModule name requirer cause = fault :=
        Except.error.inj (failed.symm.trans h)
      exact .inr ⟨by decide, name, requirer, cause, logged, same⟩

end Definition

theorem Resolved.pieces_fails {r : Resolved} {e : Embedder} {decoration : Decoration}
    {fault : Fault} (plain : e.source.pool.Plain) (h : (r.pieces e decoration).Fails fault) :
    ∃ t ∈ r.sections, (∃ module, t.Scripts module ∧ e.Refuses module fault) ∨
      t.definition.Anonymous fault := by
  unfold pieces at h
  rcases Run.bind_fails.1 h with h | ⟨_, _, h⟩
  · obtain ⟨t, ht, _, failed⟩ := Run.foldlM_fails h
    exact ⟨t, ht, Plan.addSection_fails plain failed⟩
  · exact absurd h Run.pure_fails

namespace Builder

variable {b : Builder} {options : Options} {d : Definition} {fault : Fault}

/-- What the builder can refuse a definition for, as the fault says it. -/
inductive Refuses (b : Builder) (options : Options) (d : Definition) : Fault → Prop
  | pattern {s : Section} {pattern : String} {e : InvalidPattern} (hs : s ∈ d.sections)
      (hp : pattern ∈ s.filters) (invalid : Filter.parse pattern = .error e) :
      Refuses b options d (.invalidPattern e)
  /-- A resolution that ignores the missing would report this dependency. -/
  | missing {name requirer : String} {cause : PoolError} (strict : ¬options.ignoreMissing)
      (logged : .missing name requirer ∈ (d.resolve b.pool true).log) :
      Refuses b options d (.missingModule name requirer cause)
  | script {r : Resolved} {t : ResolvedSection} {module reason : String}
      (resolved : (d.resolve b.pool options.ignoreMissing).Yields r) (ht : t ∈ r.sections)
      (embeds : t.Scripts module) (refuses : (b.source options).Refuses module reason) :
      Refuses b options d (.minification module reason)
  | announcement {s : Section} {fault : Fault} (hs : s ∈ d.sections)
      (anonymous : s.Anonymous fault) : Refuses b options d fault

/-- Only the resolution and the plan of a bundle can fail. -/
theorem build_fails : (b.build options d).Fails fault ↔
    (d.resolve b.pool options.ignoreMissing).Fails fault ∨
      ∃ r, (d.resolve b.pool options.ignoreMissing).Yields r ∧
        (r.pieces (b.embedder options) (r.decoration b.format options)).Fails fault := by
  unfold build
  rw [Run.bind_fails]
  refine or_congr_right (exists_congr fun r => and_congr_right fun _ => ?_)
  rw [Run.bind_fails]
  refine or_iff_left ?_
  rintro ⟨pieces, _, h⟩
  obtain ⟨w, written, _⟩ := Piece.writeAll_texts b.format pieces
  obtain ⟨record, recorded⟩ := r.record_progress b.pool
  rw [written] at h
  rcases Run.bind_fails.1 h with h | ⟨_, _, h⟩
  · exact Run.pure_fails h
  · rcases Run.bind_fails.1 h with h | ⟨_, _, h⟩
    · exact recorded.not_fails fault h
    · rw [Run.log1_bind_fails] at h
      exact Run.pure_fails h

theorem create_fails_one (one : options.numberOfParts ≤ 1) :
    (b.create options d).Fails fault ↔ (b.build options d).Fails fault := by
  unfold create
  rw [if_pos one, Run.bind_fails]
  refine or_iff_left ?_
  rintro ⟨_, _, h⟩
  exact Run.pure_fails h

theorem refuses_of_fails {p : MemoryPool} (memory : b.pool = p.toPool)
    (h : (b.build options d).Fails fault) : b.Refuses options d fault := by
  have readable : b.pool.Readable := memory ▸ p.readable
  have plain : b.pool.Plain := memory ▸ p.plain
  rcases build_fails.1 h with h | ⟨r, resolved, h⟩
  · rcases Definition.resolve_fails_cases readable h with
      ⟨s, hs, pattern, hp, e, invalid, rfl⟩ | ⟨strict, name, requirer, cause, logged, rfl⟩
    · exact .pattern hs hp invalid
    · exact .missing strict logged
  · obtain ⟨t, ht, ⟨module, embeds, reason, refuses, rfl⟩ | anonymous⟩ :=
      Resolved.pieces_fails plain h
    · exact .script resolved ht embeds refuses
    · have hs : t.definition ∈ d.sections :=
        Definition.resolve_definitions resolved ▸ List.mem_map_of_mem ht
      exact .announcement hs anonymous

theorem not_refuses_of_yields {p : MemoryPool} (memory : b.pool = p.toPool) {bundle : Bundle}
    (h : (b.build options d).Yields bundle) : ¬b.Refuses options d fault := by
  have readable : b.pool.Readable := memory ▸ p.readable
  have plain : b.pool.Plain := memory ▸ p.plain
  obtain ⟨r, resolved, pieces, planned, _⟩ := build_yields.1 h
  intro refuses
  cases refuses with
  | pattern hs hp invalid => exact Definition.resolve_parses readable resolved hs hp _ invalid
  | missing strict logged =>
    rw [Bool.not_eq_true] at strict
    rw [strict] at resolved
    exact Definition.resolve_complete resolved _ _ logged
  | @script r' t module reason again ht embeds refuses =>
    cases resolved.unique again
    have found := Definition.resolve_finds memory resolved
    have mem := embeds.embedded
    rw [← Resolved.pieces_embeds planned found t ht] at mem
    obtain ⟨⟨name, text⟩, texts, rfl⟩ := List.mem_map.1 mem
    obtain ⟨_, _, texts⟩ := List.mem_flatMap.1 texts
    obtain ⟨rfl, holds⟩ := Embedder.holds_of_mem_texts texts
    have script := embeds.mode.imp_right fun ⟨_, stem⟩ => ResourceKind.ofName_eq_script.2 stem
    exact holds.not_refuses plain script reason refuses
  | announcement hs anonymous =>
    rw [← Definition.resolve_definitions resolved] at hs
    obtain ⟨t, ht, rfl⟩ := List.mem_map.1 hs
    obtain ⟨_, all, _⟩ := Run.bind_yields.1 planned
    obtain ⟨_, _, added⟩ := Run.foldlM_each all t ht
    exact Plan.addSection_named added anonymous

/-- **A build fails for what the builder refuses, and for nothing else.** From a pool in memory, in
one bundle: it fails if and only if there is something to refuse the definition for, and the fault
is such a reason. So writing never fails, and no module of an unsupported kind comes to be
embedded. -/
theorem create_fails {p : MemoryPool} (memory : b.pool = p.toPool)
    (one : options.numberOfParts ≤ 1) :
    ((∃ fault, (b.create options d).Fails fault) ↔ ∃ fault, b.Refuses options d fault) ∧
    ∀ fault, (b.create options d).Fails fault → b.Refuses options d fault ∧
      (∀ e, fault ≠ .writer e) ∧ ∀ module, fault ≠ .unsupportedResource module := by
  simp only [create_fails_one one]
  refine ⟨⟨?_, ?_⟩, ?_⟩
  · rintro ⟨fault, failed⟩
    exact ⟨fault, refuses_of_fails memory failed⟩
  · rintro ⟨fault, refuses⟩
    rcases Run.succeeds_or_fails (b.build options d) with ⟨bundle, built⟩ | failed
    · exact absurd refuses (not_refuses_of_yields memory built)
    · exact failed
  · intro fault failed
    have refuses := refuses_of_fails memory failed
    refine ⟨refuses, ?_, ?_⟩
    · rintro e rfl
      cases refuses with
      | announcement _ anonymous => cases anonymous
    · rintro module rfl
      cases refuses with
      | announcement _ anonymous => cases anonymous

end Builder

/-! ### A boot script that the minifier fails on -/

namespace Pictured

def failing : Minifier := .deleting "" ["lib/boot.js"]

def refusing : Builder :=
  { pool := memory.toPool, minifier := some failing, format := .ofPool memory.toPool }

theorem boot_refused : (Builder.ofPool memory.toPool (some failing)).Yields refusing ∧
    ∃ fault, (refusing.create { optimize := true } definition).Fails fault := by
  have refuses : refusing.Refuses { optimize := true } definition
      (.minification "lib/boot.js" "unexpected token") := by
    refine .script (t := ⟨booting, ["lib/boot.js"]⟩) resolves List.mem_cons_self ?embeds ?fails
    case embeds => exact ⟨List.mem_cons_self, .inl rfl⟩
    case fails => exact ⟨_, _, rfl, rfl, rfl⟩
  exact ⟨rfl, (Builder.create_fails (p := memory) rfl (Nat.le_refl 1)).1.2 ⟨_, refuses⟩⟩

end Pictured

end Bundler
