import Bundler.Proofs.Embedded
import Bundler.Proofs.Listing
import Bundler.Proofs.Progress
import Mathlib.Data.List.Nodup
import Mathlib.Data.List.Pairwise

/-!
# The bundles of parts

A definition may be built as one bundle or in parts. `create_split` says that the parts together
have what the one bundle has: every embedded module in one of them, with the same bytes, and the
raw modules in the same order.
-/

namespace Bundler

/-- Where nothing is in two of the lists, the list that has it is unique. -/
theorem eq_of_mem_flatMap {α β : Type} {f : α → List β} {l : List α}
    (nodup : (l.flatMap f).Nodup) {a b : α} (ha : a ∈ l) (hb : b ∈ l) {x : β} (hx : x ∈ f a)
    (hx' : x ∈ f b) : a = b := by
  have disjoint := (List.nodup_flatMap.1 nodup).2
  have : Std.Symm (Function.onFun List.Disjoint f) := ⟨fun _ _ h _ hb ha => h ha hb⟩
  by_contra different
  exact disjoint.forall ha hb different hx hx'

namespace Embedder

variable {e : Embedder} {sections : List ResolvedSection} {embedded : List (String × String)}

theorem Carries.perm (h : e.Carries sections embedded) :
    embedded.Perm (sections.flatMap e.sectionTexts) := by
  obtain ⟨groups, each, rfl⟩ := h
  induction each with
  | nil => exact .refl _
  | cons first _ ih =>
    rw [List.flatten_cons, List.flatMap_cons]
    exact first.perm.append ih

theorem Embeds.names {s : ResolvedSection} (h : e.Embeds s embedded) :
    ∀ entry ∈ embedded, entry.1 ∈ s.modules := by
  intro entry he
  have mem : entry.1 ∈ (e.sectionTexts s).map (·.1) :=
    List.mem_map_of_mem (h.perm.mem_iff.1 he)
  exact (e.sectionTexts_names s).subset mem

/-- As `texts`, where only raw sections count. -/
def rawOnly (e : Embedder) : Mode → String → List (String × String)
  | .raw => e.rawTexts
  | _ => fun _ => []

theorem Embeds.filter_raw {s : ResolvedSection} {raws : List String} (h : e.Embeds s embedded)
    (raw : s.mode = .raw → ∀ module ∈ s.modules, module ∈ raws)
    (preload : s.mode = .preload → ∀ module ∈ s.modules, module ∉ raws) :
    embedded.filter (·.1 ∈ raws) = s.modules.flatMap (e.rawOnly s.mode) := by
  have silent : s.modules.flatMap (fun _ => ([] : List (String × String))) = [] :=
    List.flatMap_eq_nil_iff.2 fun _ _ => rfl
  have order := h.order
  rw [sectionTexts] at order
  cases mode : s.mode with
  | raw =>
    have all : embedded.filter (·.1 ∈ raws) = embedded :=
      List.filter_eq_self.2 fun entry he => decide_eq_true (raw mode entry.1 (h.names entry he))
    rw [mode] at order
    rw [all]
    exact order (by simp)
  | preload =>
    have none : embedded.filter (·.1 ∈ raws) = [] := by
      apply List.filter_eq_nil_iff.2
      intro entry he
      simpa using preload mode entry.1 (h.names entry he)
    exact none.trans silent.symm
  | _ =>
    rw [mode] at order
    have none : embedded = [] := (order (by simp)).trans silent
    rw [none]
    exact silent.symm

/-- Among modules of raw sections, the texts keep the order of the modules. -/
theorem Carries.filter_raw {raws : List String} (h : e.Carries sections embedded)
    (raw : ∀ s ∈ sections, s.mode = .raw → ∀ module ∈ s.modules, module ∈ raws)
    (preload : ∀ s ∈ sections, s.mode = .preload → ∀ module ∈ s.modules, module ∉ raws) :
    embedded.filter (·.1 ∈ raws) =
      sections.flatMap fun s => s.modules.flatMap (e.rawOnly s.mode) := by
  obtain ⟨groups, each, rfl⟩ := h
  induction each with
  | nil => rfl
  | @cons s _ _ _ first _ ih =>
    have here := first.filter_raw (raw s List.mem_cons_self) (preload s List.mem_cons_self)
    have later := ih (fun t ht => raw t (List.mem_cons_of_mem _ ht))
      (fun t ht => preload t (List.mem_cons_of_mem _ ht))
    rw [List.flatten_cons, List.filter_append, List.flatMap_cons, here, later]

theorem sectionTexts_names_nodup (e : Embedder)
    (nodup : ((ResolvedSection.distributed sections).flatMap (·.modules)).Nodup) :
    ((sections.flatMap e.sectionTexts).map (·.1)).Nodup := by
  have silent : (ResolvedSection.distributed sections).flatMap e.sectionTexts =
      sections.flatMap e.sectionTexts := by
    apply flatMap_filter_of_nil
    intro s _ other
    have silent : e.texts s.mode = fun _ => [] := by
      cases mode : s.mode <;> first | rfl | simp_all
    rw [sectionTexts, silent]
    exact List.flatMap_eq_nil_iff.2 fun _ _ => rfl
  rw [← silent, List.map_flatMap]
  exact nodup.sublist (List.Sublist.flatMap_right _ fun s _ => e.sectionTexts_names s)

end Embedder

namespace ResolvedSection

def rawModules (sections : List ResolvedSection) : List String :=
  (sections.filter (·.mode = .raw)).flatMap (·.modules)

theorem mem_rawModules {sections : List ResolvedSection} {s : ResolvedSection}
    (hs : s ∈ sections) (raw : s.mode = .raw) {module : String} (hm : module ∈ s.modules) :
    module ∈ rawModules sections :=
  List.mem_flatMap.2 ⟨s, List.mem_filter.2 ⟨hs, decide_eq_true raw⟩, hm⟩

/-- Where no module is in two sections, the section of a module is unique. -/
theorem eq_of_mem_distributed {sections : List ResolvedSection}
    (nodup : ((distributed sections).flatMap (·.modules)).Nodup) {s t : ResolvedSection}
    (hs : s ∈ distributed sections) (ht : t ∈ distributed sections) {module : String}
    (hm : module ∈ s.modules) (hm' : module ∈ t.modules) : s = t :=
  eq_of_mem_flatMap nodup hs ht hm hm'

/-- Where no module is in two sections, those of preload sections are no raw ones. -/
theorem not_mem_rawModules {sections : List ResolvedSection}
    (nodup : ((distributed sections).flatMap (·.modules)).Nodup) {s : ResolvedSection}
    (hs : s ∈ sections) (preload : s.mode = .preload) {module : String} (hm : module ∈ s.modules) :
    module ∉ rawModules sections := by
  intro raw
  obtain ⟨t, ht, hm'⟩ := List.mem_flatMap.1 raw
  obtain ⟨ht, raw⟩ := List.mem_filter.1 ht
  have raw : t.mode = .raw := of_decide_eq_true raw
  have hs : s ∈ distributed sections := List.mem_filter.2 ⟨hs, by simp [preload]⟩
  have ht : t ∈ distributed sections := List.mem_filter.2 ⟨ht, by simp [raw]⟩
  cases eq_of_mem_distributed nodup hs ht hm hm'
  cases preload.symm.trans raw

end ResolvedSection

/-- The texts of the raw modules are in the order of the sections. -/
theorem Embedder.Carries.filter_rawModules {e : Embedder} {sections : List ResolvedSection}
    {embedded : List (String × String)} (h : e.Carries sections embedded)
    (nodup : ((ResolvedSection.distributed sections).flatMap (·.modules)).Nodup) :
    embedded.filter (·.1 ∈ ResolvedSection.rawModules sections) =
      sections.flatMap fun s => s.modules.flatMap (e.rawOnly s.mode) := by
  refine h.filter_raw ?raw ?preload
  case raw =>
    intro s hs raw module hm
    exact ResolvedSection.mem_rawModules hs raw hm
  case preload =>
    intro s hs preload module hm
    exact ResolvedSection.not_mem_rawModules nodup hs preload hm

/-! ## Bundles of parts -/

/-- The sections of a part, each with the modules it lists. -/
def Definition.listed (part : Definition) : List ResolvedSection :=
  part.sections.map fun s => ⟨s, s.filters⟩

theorem Definition.listed_flatMap {α : Type} (f : Mode → String → List α)
    (parts : List Definition) :
    ((parts.flatMap listed).flatMap fun s => s.modules.flatMap (f s.mode)) =
      parts.flatMap fun part => part.sections.flatMap fun s => s.filters.flatMap (f s.mode) := by
  rw [List.flatMap_assoc]
  refine congrArg parts.flatMap (funext fun part => ?_)
  rw [listed, List.flatMap_map]
  rfl

theorem Definition.IsSplit.mem_listed {limit : Nat} {configuration : Option Configuration}
    {sections : List ResolvedSection} {parts : List Definition}
    (h : IsSplit limit configuration sections parts) {s : ResolvedSection}
    (hs : s ∈ parts.flatMap listed) :
    ∃ t ∈ sections, t.mode = s.mode ∧ ∀ module ∈ s.modules, module ∈ t.modules := by
  obtain ⟨part, hp, hs⟩ := List.mem_flatMap.1 hs
  obtain ⟨listing, hl, rfl⟩ := List.mem_map.1 hs
  obtain ⟨t, ht, modules, rfl, sublist, _⟩ := h.lists hp hl
  exact ⟨t, ht, rfl, fun module hm => sublist.subset hm⟩

namespace Definition.IsSplit

variable {limit : Nat} {configuration : Option Configuration} {sections : List ResolvedSection}
  {parts : List Definition} {e : Embedder} {whole split : List (String × String)}

/-- All parts together embed what the sections embed. -/
theorem carried_perm (h : IsSplit limit configuration sections parts)
    (carries : e.Carries sections whole) (carries' : e.Carries (parts.flatMap listed) split) :
    split.Perm whole := by
  have same : (parts.flatMap listed).flatMap e.sectionTexts = sections.flatMap e.sectionTexts :=
    (listed_flatMap e.texts parts).trans (h.flatMap_modules rfl rfl)
  apply carries'.perm.trans
  rw [same]
  exact carries.perm.symm

/-- Read over the parts, the raw modules are in the order of the sections. -/
theorem carried_raw (h : IsSplit limit configuration sections parts)
    (distinct : ((ResolvedSection.distributed sections).flatMap (·.modules)).Nodup)
    (carries : e.Carries sections whole) (carries' : e.Carries (parts.flatMap listed) split) :
    split.filter (·.1 ∈ ResolvedSection.rawModules sections) =
      whole.filter (·.1 ∈ ResolvedSection.rawModules sections) := by
  have there : split.filter (·.1 ∈ ResolvedSection.rawModules sections) =
      (parts.flatMap listed).flatMap fun s => s.modules.flatMap (e.rawOnly s.mode) := by
    refine carries'.filter_raw ?raw ?preload
    case raw =>
      intro s hs raw module hm
      obtain ⟨t, ht, mode, sub⟩ := h.mem_listed hs
      exact ResolvedSection.mem_rawModules ht (mode.trans raw) (sub module hm)
    case preload =>
      intro s hs preload module hm
      obtain ⟨t, ht, mode, sub⟩ := h.mem_listed hs
      exact ResolvedSection.not_mem_rawModules distinct ht (mode.trans preload) (sub module hm)
  rw [carries.filter_rawModules distinct, there, listed_flatMap]
  exact h.flatMap_modules rfl rfl

end Definition.IsSplit

/-- The modules that have segments in the bundle. -/
def Bundle.modules (b : Bundle) : List String := b.segments.map (·.module)

theorem Bundle.texts_names (b : Bundle) : b.texts.map (·.1) = b.modules := List.map_map ..

theorem Writer.encoded_names (texts : List (String × String)) :
    (encoded texts).map (·.1) = texts.map (·.1) := List.map_map ..

theorem Bundle.flatMap_modules (bundles : List Bundle) :
    bundles.flatMap Bundle.modules = (bundles.flatMap Bundle.texts).map (·.1) := by
  rw [List.map_flatMap]
  exact congrArg bundles.flatMap (funext fun b => b.texts_names.symm)

/-- What occurs once in some lists occurs in exactly one of them. -/
theorem existsUnique_index {α β : Type} {f : α → List β} {l : List α} (nodup : (l.flatMap f).Nodup)
    {x : β} (h : x ∈ l.flatMap f) : ∃! i : Nat, ∃ a, l[i]? = some a ∧ x ∈ f a := by
  obtain ⟨a, ha, hx⟩ := List.mem_flatMap.1 h
  obtain ⟨i, hi, rfl⟩ := List.getElem_of_mem ha
  have disjoint := List.pairwise_iff_getElem.1 (List.nodup_flatMap.1 nodup).2
  refine ⟨i, ⟨l[i], List.getElem?_eq_getElem hi, hx⟩, ?_⟩
  rintro j ⟨b, get, hx'⟩
  obtain ⟨hj, rfl⟩ := List.getElem?_eq_some_iff.1 get
  rcases Nat.lt_trichotomy i j with lt | rfl | gt
  · exact (disjoint i j hi hj lt hx hx').elim
  · rfl
  · exact (disjoint j i hj hi gt hx' hx).elim

namespace Builder

variable {b : Builder} {options : Options} {d : Definition}

theorem create_yields_one {bundles : List Bundle} (one : options.numberOfParts ≤ 1)
    (h : (b.create options d).Yields bundles) :
    ∃ bundle, (b.build options d).Yields bundle ∧ bundles = [bundle] := by
  unfold create at h
  rw [if_pos one] at h
  obtain ⟨bundle, built, last⟩ := Run.bind_yields.1 h
  exact ⟨bundle, built, (Run.pure_yields.1 last).symm⟩

/-- The modules with segments are those that have a text in their section. -/
theorem build_names {bundle : Bundle} {r : Resolved} (h : (b.build options d).Yields bundle)
    (resolved : (d.resolve b.pool options.ignoreMissing).Yields r) :
    bundle.modules.Perm ((r.sections.flatMap (b.embedder options).sectionTexts).map (·.1)) := by
  obtain ⟨r', again, embedded, carries, texts⟩ := build_texts h
  cases resolved.unique again
  rw [← bundle.texts_names, texts, Writer.encoded_names]
  exact carries.perm.map _

theorem buildParts_yields {parts : List Definition} {bundles : List Bundle}
    (h : (b.buildParts options parts).Yields bundles) :
    List.Forall₂ (fun part bundle => (b.build options part).Yields bundle) parts bundles := by
  unfold buildParts at h
  split at h
  · obtain ⟨bundle, built, last⟩ := Run.bind_yields.1 h
    cases Run.pure_yields.1 last
    exact .cons (Run.explain_yields.1 built) .nil
  · apply (Run.mapM_yields.1 h).imp
    intro part bundle built
    exact Run.explain_yields.1 (Run.silent_yields.1 built)

theorem create_yields_parts {bundles : List Bundle} (several : ¬options.numberOfParts ≤ 1)
    (h : (b.create options d).Yields bundles) :
    ∃ parts, (d.split (b.source options) options.ignoreMissing options.numberOfParts).Yields parts ∧
      List.Forall₂ (fun part bundle => (b.build options part).Yields bundle) parts bundles := by
  unfold create at h
  rw [if_neg several] at h
  obtain ⟨parts, split, built⟩ := Run.bind_yields.1 h
  exact ⟨parts, split, buildParts_yields built⟩

/-- The segments of the bundles of some parts that resolve to what they list. -/
theorem parts_texts {parts : List Definition} {bundles : List Bundle}
    (resolved : ∀ part ∈ parts,
      (part.resolve b.pool options.ignoreMissing).Yields ⟨part, part.listed⟩)
    (built : List.Forall₂ (fun part bundle => (b.build options part).Yields bundle) parts bundles) :
    ∃ embedded, (b.embedder options).Carries (parts.flatMap Definition.listed) embedded ∧
      bundles.flatMap Bundle.texts = Writer.encoded embedded := by
  induction built with
  | nil => exact ⟨[], ⟨[], .nil, rfl⟩, rfl⟩
  | @cons part _ _ _ first _ ih =>
    obtain ⟨r, again, embedded, carries, texts⟩ := build_texts first
    cases (resolved part List.mem_cons_self).unique again
    obtain ⟨others, carries', texts'⟩ := ih fun part hp => resolved part (List.mem_cons_of_mem _ hp)
    refine ⟨embedded ++ others, carries.append carries', ?_⟩
    rw [List.flatMap_cons, texts, texts', Writer.encoded_append]

/-- **Parts have what the bundle has.** If every resolved module has a name that can be listed, a
module that has a segment in the bundle of a definition has one in exactly one of its parts, with
the same bytes, and no other module has one. The raw modules are in the same order over the parts as
in the bundle. -/
theorem create_split {n : Nat} {r : Resolved} {whole parts : List Bundle} (several : 2 ≤ n)
    (resolved : (d.resolve b.pool options.ignoreMissing).Yields r)
    (listable : ∀ t ∈ r.sections, ∀ name ∈ t.modules, Name.Listable name)
    (one : (b.create { options with numberOfParts := 1 } d).Yields whole)
    (split : (b.create { options with numberOfParts := n } d).Yields parts) :
    ∃ bundle, whole = [bundle] ∧
      (∀ module ∈ bundle.modules,
        ∃! i : Nat, ∃ part, parts[i]? = some part ∧ module ∈ part.modules) ∧
      (∀ part ∈ parts, ∀ module ∈ part.modules, module ∈ bundle.modules) ∧
      (∀ part ∈ parts, ∀ s ∈ part.segments, ∀ t ∈ bundle.segments, s.module = t.module →
        Writer.slice s part.content = Writer.slice t bundle.content) ∧
      (parts.flatMap Bundle.modules).filter (· ∈ ResolvedSection.rawModules r.sections) =
        bundle.modules.filter (· ∈ ResolvedSection.rawModules r.sections) := by
  obtain ⟨bundle, built, rfl⟩ := create_yields_one (Nat.le_refl 1) one
  obtain ⟨ps, division, builds⟩ := create_yields_parts (by show ¬n ≤ 1; omega) split
  obtain ⟨r', again, embedded, carries, texts⟩ := build_texts built
  cases resolved.unique again
  obtain ⟨r', again, isSplit⟩ := Definition.split_isSplit division
  cases resolved.unique again
  obtain ⟨embedded', carries', texts'⟩ := parts_texts
    (fun part hp => isSplit.resolve resolved listable hp options.ignoreMissing) builds
  have distinct := Definition.distributed_nodup resolved
  have texts_perm : (parts.flatMap Bundle.texts).Perm bundle.texts := by
    rw [texts, texts']
    exact (isSplit.carried_perm carries carries').map _
  have names_perm : (parts.flatMap Bundle.modules).Perm bundle.modules := by
    rw [Bundle.flatMap_modules, ← bundle.texts_names]
    exact texts_perm.map _
  have nodup : bundle.modules.Nodup :=
    (build_names built resolved).nodup_iff.2 (Embedder.sectionTexts_names_nodup _ distinct)
  refine ⟨bundle, rfl, ?_, ?_, ?_, ?_⟩
  · intro module hm
    exact existsUnique_index (names_perm.nodup_iff.2 nodup) (names_perm.mem_iff.2 hm)
  · intro part hp module hm
    exact names_perm.mem_iff.1 (List.mem_flatMap.2 ⟨part, hp, hm⟩)
  · intro part hp s hs t ht same
    have here : (s.module, Writer.slice s part.content) ∈ bundle.texts :=
      texts_perm.mem_iff.1 (List.mem_flatMap.2 ⟨part, hp, List.mem_map_of_mem hs⟩)
    have there : (t.module, Writer.slice t bundle.content) ∈ bundle.texts := List.mem_map_of_mem ht
    rw [← bundle.texts_names] at nodup
    exact congrArg Prod.snd (List.inj_on_of_nodup_map nodup here there same)
  · have order := isSplit.carried_raw distinct carries carries'
    have names (embedded : List (String × String)) :
        (embedded.map (·.1)).filter (· ∈ ResolvedSection.rawModules r.sections) =
          (embedded.filter (·.1 ∈ ResolvedSection.rawModules r.sections)).map (·.1) :=
      List.filter_map ..
    rw [Bundle.flatMap_modules, ← bundle.texts_names, texts, texts', Writer.encoded_names,
      Writer.encoded_names, names, names, order]

end Builder

namespace Vendored

def builder : Builder := { pool, format := .ofPool pool }

theorem builds {options : Options} {d : Definition} {r : Resolved}
    (plain : options.optimize = false)
    (resolved : (d.resolve pool options.ignoreMissing).Yields r)
    (preload : ∀ s ∈ r.sections, s.mode = .preload) : (builder.build options d).Succeeds := by
  refine Builder.build_plain resolved plain fun s hs => ?_
  rw [preload s hs]
  decide

theorem creates_whole :
    ∃ bundles, (builder.create { numberOfParts := 1 } definition).Yields bundles := by
  have built : (builder.build { numberOfParts := 1 } definition).Succeeds :=
    builds rfl resolves (by decide)
  exact Builder.create_progress (Nat.le_refl 1) built

theorem creates_parts : ∃ bundles,
    (builder.create { numberOfParts := 2 } definition).Yields bundles ∧ bundles.length = 2 := by
  obtain ⟨parts, split, sections⟩ := splits
  obtain ⟨r, again, isSplit⟩ := Definition.split_isSplit split
  cases resolves.unique again
  have listed : ∀ part ∈ parts, part.sections ∈
      [[{ filters := ["lib/mod2.js"] }], [{ filters := ["lib/mod4.js"] }]] := by
    intro part hp
    exact sections ▸ List.mem_map_of_mem hp
  have each : ∀ part ∈ parts, (builder.build { numberOfParts := 2 } part).Succeeds := by
    intro part hp
    refine builds rfl (isSplit.resolve resolves (by decide +kernel) hp true) ?_
    have preload : ∀ s ∈ part.sections, s.mode = .preload := by
      rcases List.mem_cons.1 (listed part hp) with same | same
      · rw [same]
        decide
      · rw [List.mem_singleton.1 same]
        decide
    intro s hs
    obtain ⟨t, ht, rfl⟩ := List.mem_map.1 hs
    exact preload t ht
  obtain ⟨bundles, built⟩ := Builder.buildParts_progress each
  unfold Builder.create
  rw [if_neg (by decide)]
  refine ⟨bundles, Run.bind_yields.2 ⟨parts, split, built⟩, ?_⟩
  rw [← (Builder.buildParts_yields built).length_eq]
  simpa using congrArg List.length sections

/-- Each of the two scripts has a segment in the bundle, and in one of the parts. -/
theorem creates_split : (Builder.ofPool pool none).Yields builder ∧ ∃ whole parts,
    (builder.create { numberOfParts := 1 } definition).Yields whole ∧
    (builder.create { numberOfParts := 2 } definition).Yields parts ∧ parts.length = 2 ∧
    ∃ bundle, whole = [bundle] ∧ bundle.modules.Perm ["lib/mod2.js", "lib/mod4.js"] ∧
      ∀ module ∈ bundle.modules,
        ∃! i : Nat, ∃ part, parts[i]? = some part ∧ module ∈ part.modules := by
  obtain ⟨whole, one⟩ := creates_whole
  obtain ⟨parts, split, length⟩ := creates_parts
  have listable : ∀ t ∈ resolved.sections, ∀ name ∈ t.modules, Name.Listable name := by
    decide +kernel
  obtain ⟨bundle, same, once, _⟩ := @Builder.create_split builder {} definition 2 resolved whole
    parts (by decide) resolves listable one split
  refine ⟨rfl, whole, parts, one, split, length, bundle, same, ?_, once⟩
  obtain ⟨_, built, again⟩ := Builder.create_yields_one (Nat.le_refl 1) one
  cases same.symm.trans again
  have names : ((resolved.sections.flatMap
      (builder.embedder { numberOfParts := 1 }).sectionTexts).map (·.1)) =
        ["lib/mod2.js", "lib/mod4.js"] := by
    decide +kernel
  rw [← names]
  exact Builder.build_names built resolves

end Vendored

end Bundler
