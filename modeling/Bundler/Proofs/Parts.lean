import Bundler.Proofs.Selection
import Bundler.Split
import Mathlib.Data.List.Forall2

/-!
# What the parts of a definition hold

Splitting distributes the modules of the resolved sections over parts, changing parts in the middle
of a section where it must. `split_holds_sections` says where everything ends up: read from the
first part to the last, the parts hold the resolved sections in order. Raw sections stay whole,
preload sections come in fragments, and every part has all require sections.
-/

namespace Bundler

/-- Elements that add nothing may be left out. -/
theorem flatMap_filter_of_nil {α β : Type} {p : α → Bool} {f : α → List β} {l : List α}
    (nothing : ∀ a ∈ l, ¬p a → f a = []) : (l.filter p).flatMap f = l.flatMap f := by
  induction l with
  | nil => rfl
  | cons a rest ih =>
    have ih := ih fun b hb => nothing b (List.mem_cons_of_mem _ hb)
    by_cases kept : p a
    · rw [List.filter_cons_of_pos kept, List.flatMap_cons, List.flatMap_cons, ih]
    · rw [List.filter_cons_of_neg kept, List.flatMap_cons, nothing a List.mem_cons_self kept, ih,
        List.nil_append]

namespace ResolvedSection

/-- A section that lists modules of this one and follows nothing any more. -/
def listing (s : ResolvedSection) (modules : List String) : Section where
  mode := s.mode
  name := s.name
  filters := modules
  sort := s.mode = .raw && s.definition.sort
  declareRawModules := s.mode = .raw && s.definition.declareRawModules

/-- Sections that list one fragment each, in parts that follow one another. -/
def fragments (s : ResolvedSection) (first : Nat) (cut : List (List String)) :
    List (Nat × Section) :=
  (cut.zipIdx first).map fun (modules, part) => (part, s.listing modules)

/-- Where a section may end up: as a whole in one part, or cut into fragments that lie in parts that
follow one another. -/
inductive Placed (s : ResolvedSection) : List (Nat × Section) → Prop
  | whole {part : Nat} (mode : s.mode = .raw ∨ s.mode = .bundleInfo) :
      Placed s [(part, s.listing s.modules)]
  | cut {first : Nat} {cut : List (List String)} (mode : s.mode = .preload)
      (modules : cut.flatten = s.modules) (nonempty : [] ∉ cut) : Placed s (s.fragments first cut)

/-- The sections that are distributed over the parts. -/
def distributed (sections : List ResolvedSection) : List ResolvedSection :=
  sections.filter fun s => s.mode ≠ .provided ∧ s.mode ≠ .require

/-- The sections that every part gets. -/
def requires (sections : List ResolvedSection) : List Section :=
  (sections.filter (·.mode = .require)).map fun s => s.listing s.modules

theorem mode_of_mem_requires {sections : List ResolvedSection} {s : Section}
    (h : s ∈ requires sections) : s.mode = .require := by
  obtain ⟨r, hr, rfl⟩ := List.mem_map.1 h
  exact of_decide_eq_true (List.mem_filter.1 hr).2

theorem fragments_append_singleton (s : ResolvedSection) (first : Nat) (cut : List (List String))
    (modules : List String) :
    s.fragments first (cut ++ [modules]) =
      s.fragments first cut ++ [(first + cut.length, s.listing modules)] := by
  simp [fragments, List.zipIdx_append]

/-- The section lists some modules of a resolved section, in their order. A section that is not
preloaded has all of them. -/
def Lists (s : ResolvedSection) (t : Section) : Prop :=
  ∃ modules, t = s.listing modules ∧ modules.Sublist s.modules ∧
    (s.mode ≠ .preload → modules = s.modules)

theorem mem_fragments {s : ResolvedSection} {first : Nat} {cut : List (List String)}
    {entry : Nat × Section} (h : entry ∈ s.fragments first cut) :
    ∃ modules ∈ cut, entry.2 = s.listing modules := by
  obtain ⟨⟨modules, part⟩, hm, rfl⟩ := List.mem_map.1 h
  exact ⟨modules, List.fst_mem_of_mem_zipIdx hm, rfl⟩

theorem Placed.lists {s : ResolvedSection} {group : List (Nat × Section)} (h : s.Placed group) :
    ∀ entry ∈ group, s.Lists entry.2 := by
  intro entry he
  cases h with
  | whole =>
    cases List.mem_singleton.1 he
    exact ⟨s.modules, rfl, List.Sublist.refl _, fun _ => rfl⟩
  | cut mode modules =>
    obtain ⟨fragment, hf, same⟩ := mem_fragments he
    exact ⟨fragment, same, modules ▸ List.sublist_flatten_of_mem hf, fun other => absurd mode other⟩

/-- Wherever a section ends up, its modules stay together in order. -/
theorem Placed.flatMap {α : Type} {s : ResolvedSection} {group : List (Nat × Section)}
    (h : s.Placed group) (f : Mode → String → List α) :
    (group.flatMap fun entry => entry.2.filters.flatMap (f entry.2.mode)) =
      s.modules.flatMap (f s.mode) := by
  cases h with
  | whole => exact List.append_nil _
  | @cut first cut _ modules nonempty =>
    rw [← modules]
    clear modules nonempty
    induction cut using List.reverseRecOn with
    | nil => rfl
    | append_singleton cut fragment ih =>
      rw [fragments_append_singleton, List.flatMap_append, ih, List.flatten_append,
        List.flatMap_append, List.flatten_singleton, List.flatMap_singleton]
      rfl

end ResolvedSection

namespace Definition

/-- The sections of the parts, each with the index of its part. Require sections are left out. -/
def placed (parts : List Definition) : List (Nat × Section) :=
  parts.zipIdx.flatMap fun (d, part) => (d.sections.filter (·.mode ≠ .require)).map (part, ·)

theorem placed_append_singleton (parts : List Definition) (d : Definition) :
    placed (parts ++ [d]) =
      placed parts ++ (d.sections.filter (·.mode ≠ .require)).map (parts.length, ·) := by
  simp [placed, List.zipIdx_append]

theorem placed_map {f : Definition → Definition}
    (keeps : ∀ d, (f d).sections.filter (·.mode ≠ .require) = d.sections.filter (·.mode ≠ .require))
    (parts : List Definition) : placed (parts.map f) = placed parts := by
  induction parts using List.reverseRecOn with
  | nil => rfl
  | append_singleton parts d ih =>
    rw [List.map_append, List.map_singleton, placed_append_singleton, placed_append_singleton, ih,
      keeps, List.length_map]

end Definition

/-! ## Measured sections -/

namespace Measured

/-- The section as it was resolved; a provided one has lost its modules. -/
def resolved (s : Measured) : ResolvedSection := ⟨s.definition, s.modules⟩

theorem explicit_mode (s : Measured) (modules : List String) :
    (s.explicit modules).mode = s.mode := rfl

theorem mapM_sizes {size : String → Run Nat} {modules : List String} {entries : List (String × Nat)}
    (h : (modules.mapM fun module => return (module, ← size module)).Yields entries) :
    entries.map (·.1) = modules := by
  have each := Run.mapM_yields.1 h
  clear h
  induction each with
  | nil => rfl
  | cons first _ ih =>
    obtain ⟨n, _, last⟩ := Run.bind_yields.1 first
    cases Run.pure_yields.1 last
    rw [List.map_cons, ih]

theorem entriesOf_modules {source : Source} {s : ResolvedSection} {entries : List (String × Nat)}
    (emitted : s.mode ≠ .provided) (h : (entriesOf source s).Yields entries) :
    entries.map (·.1) = s.modules := by
  unfold entriesOf at h
  split at h
  · contradiction
  · exact mapM_sizes h
  · exact mapM_sizes h
  · cases Run.pure_yields.1 h
    rw [List.map_map]
    exact List.map_id _
  · cases Run.pure_yields.1 h
    rw [List.map_map]
    exact List.map_id _

theorem ofSection_resolved {source : Source} {s : ResolvedSection} {m : Measured}
    (h : (ofSection source s).Yields m) :
    m.mode = s.mode ∧ (s.mode ≠ .provided → m.resolved = s) := by
  obtain ⟨entries, measured, last⟩ := Run.bind_yields.1 h
  cases Run.pure_yields.1 last
  refine ⟨rfl, fun emitted => ?_⟩
  obtain ⟨definition, modules⟩ := s
  exact congrArg (ResolvedSection.mk definition) (entriesOf_modules emitted measured)

/-- Measuring sections keeps all of them, apart from the modules of the provided ones. -/
theorem filter_resolved {source : Source} {p : Mode → Bool} (emitted : p .provided = false)
    {sections : List ResolvedSection} {measured : List Measured}
    (h : (sections.mapM (ofSection source)).Yields measured) :
    (measured.map resolved).filter (fun s => p s.mode) = sections.filter fun s => p s.mode := by
  have each := Run.mapM_yields.1 h
  clear h
  induction each with
  | nil => rfl
  | @cons s m _ _ first _ ih =>
    obtain ⟨mode, same⟩ := ofSection_resolved first
    rw [List.map_cons, List.filter_cons, List.filter_cons, ih]
    have mode : m.resolved.mode = s.mode := mode
    by_cases kept : p s.mode
    · rw [mode, if_pos kept, if_pos kept]
      have := same (by rintro provided; simp [provided, emitted] at kept)
      rw [this]
    · rw [mode, if_neg kept, if_neg kept]

end Measured

/-! ## Distributing sections -/

namespace Parts

/-- The parts so far, the current one last. -/
def all (p : Parts) : List Definition := p.closed ++ [p.current]

/-- What holds of the parts at any time. -/
structure Sound (share : Share) (configuration : Option Configuration) (requires : List Section)
    (p : Parts) : Prop where
  bounded : p.closed.length < share.parts
  configured : p.all.map (·.configuration) = configuration :: List.replicate p.closed.length none
  required : ∀ d ∈ p.all, ∀ s ∈ d.sections, s.mode = .require → s ∈ requires

variable {share : Share} {configuration : Option Configuration} {requires : List Section}
  {p p' : Parts} {m : Measured} {s : Section}

theorem Sound.congr (h : p.Sound share configuration requires) (closed : p'.closed = p.closed)
    (current : p'.current = p.current) : p'.Sound share configuration requires := by
  obtain ⟨bounded, configured, required⟩ := h
  unfold all at configured required
  rw [← closed] at bounded configured required
  rw [← current] at configured required
  exact ⟨bounded, configured, required⟩

theorem Sound.withSection (h : p.Sound share configuration requires)
    (closed : p'.closed = p.closed) (current : p'.current = p.current.withSection s)
    (hs : s.mode = .require → s ∈ requires) : p'.Sound share configuration requires := by
  refine ⟨closed ▸ h.bounded, ?_, fun d hd => ?_⟩
  · have configured := h.configured
    rw [all, List.map_append] at configured ⊢
    rwa [closed, current]
  · rw [all, closed, current] at hd
    rcases List.mem_append.1 hd with hd | hd
    · exact h.required d (List.mem_append_left _ hd)
    · cases List.mem_singleton.1 hd
      intro t ht
      rcases List.mem_append.1 ht with ht | ht
      · exact h.required p.current (by simp [all]) t ht
      · cases List.mem_singleton.1 ht
        exact hs

theorem placed_withSection (closed : p'.closed = p.closed)
    (current : p'.current = p.current.withSection s) :
    Definition.placed p'.all =
      Definition.placed p.all ++ if s.mode = .require then [] else [(p.closed.length, s)] := by
  rw [all, all, closed, current, Definition.placed_append_singleton,
    Definition.placed_append_singleton, List.append_assoc]
  by_cases require : s.mode = .require <;> simp [Definition.withSection, require]

theorem close_yields : (p.close share).Yields p' ↔
    p' = { closed := p.all, current := { name := Name.part share.template p.all.length },
           size := 0 } := by
  unfold close
  rw [Run.log1_bind_yields, Run.pure_yields]
  exact eq_comm

theorem Sound.close (h : p.Sound share configuration requires)
    (room : p.closed.length + 1 < share.parts) (closing : (p.close share).Yields p') :
    p'.Sound share configuration requires := by
  cases close_yields.1 closing
  have length : p.all.length = p.closed.length + 1 := by simp [all]
  refine ⟨by rw [length]; exact room, ?_, fun d hd => ?_⟩
  · rw [all, List.map_append, h.configured, length, List.replicate_succ']
    rfl
  · rcases List.mem_append.1 hd with hd | hd
    · exact h.required d hd
    · cases List.mem_singleton.1 hd
      intro t ht
      cases ht

theorem placed_close (closing : (p.close share).Yields p') :
    Definition.placed p'.all = Definition.placed p.all ∧ p'.closed.length = p.closed.length + 1 ∧
      p'.fragment = [] := by
  cases close_yields.1 closing
  refine ⟨?_, by simp [all], rfl⟩
  rw [all, Definition.placed_append_singleton]
  exact List.append_nil _

theorem isFull_room {size : Nat} (full : p.isFull share size) :
    p.closed.length + 1 < share.parts := by
  unfold isFull at full
  simp only [Bool.and_eq_true, decide_eq_true_eq] at full
  exact full.1

/-! ### Cutting a section -/

/-- The modules `done` of a section are in the parts: some in fragments behind what was placed
`before`, the others in the pending fragment of the current part. -/
structure Cutting (s : ResolvedSection) (before : List (Nat × Section)) (done : List String)
    (p : Parts) (first : Nat) (cut : List (List String)) : Prop where
  modules : cut.flatten ++ p.fragment = done
  nonempty : [] ∉ cut
  placed : Definition.placed p.all = before ++ s.fragments first cut
  consecutive : first + cut.length = p.closed.length
  pending : cut = [] ∨ p.fragment ≠ []

variable {before : List (Nat × Section)} {done : List String} {first : Nat}
  {cut : List (List String)}

theorem finishFragment_of_nil (empty : p.fragment = []) : p.finishFragment m = p := by
  rw [finishFragment, empty]
  rfl

theorem finishFragment_size : (p.finishFragment m).size = p.size := by
  unfold finishFragment
  split <;> rfl

theorem finishFragment_closed : (p.finishFragment m).closed = p.closed := by
  unfold finishFragment
  split <;> rfl

theorem finishFragment_current (pending : p.fragment ≠ []) :
    (p.finishFragment m).current = p.current.withSection (m.explicit p.fragment) := by
  rw [finishFragment, if_neg (by simpa using pending)]

theorem finishFragment_fragment : (p.finishFragment m).fragment = [] := by
  unfold finishFragment
  split
  · simpa using ‹p.fragment.isEmpty›
  · rfl

theorem explicit_mode_ne (mode : m.mode = .preload) (modules : List String) :
    (m.explicit modules).mode ≠ .require := by
  intro require
  cases mode.symm.trans require

theorem Sound.finishFragment (mode : m.mode = .preload) (h : p.Sound share configuration requires) :
    (p.finishFragment m).Sound share configuration requires := by
  by_cases empty : p.fragment = []
  · rwa [finishFragment_of_nil empty]
  · exact h.withSection finishFragment_closed (finishFragment_current empty) fun require =>
      absurd require (explicit_mode_ne mode _)

/-- With the pending fragment finished, all of the modules are in fragments. -/
theorem Cutting.finish (mode : m.mode = .preload) (h : p.Cutting m.resolved before done first cut) :
    ∃ first cut, cut.flatten = done ∧ [] ∉ cut ∧ first + cut.length = p.closed.length + 1 ∧
      Definition.placed (p.finishFragment m).all = before ++ m.resolved.fragments first cut := by
  obtain ⟨modules, nonempty, placed, consecutive, pending⟩ := h
  by_cases empty : p.fragment = []
  · -- nothing is pending, so nothing has been cut yet
    have uncut : cut = [] := pending.resolve_right (not_not_intro empty)
    subst uncut
    rw [finishFragment_of_nil empty]
    refine ⟨p.closed.length + 1, [], ?_, List.not_mem_nil, rfl, ?_⟩
    · simpa [empty] using modules
    · simpa [ResolvedSection.fragments] using placed
  · refine ⟨first, cut ++ [p.fragment], ?_, ?_, ?_, ?_⟩
    · simpa using modules
    · simpa using And.intro nonempty (Ne.symm empty)
    · rw [List.length_append, List.length_singleton]
      omega
    · rw [placed_withSection finishFragment_closed (finishFragment_current empty),
        if_neg (explicit_mode_ne mode _), placed, ResolvedSection.fragments_append_singleton,
        consecutive, List.append_assoc]
      rfl

theorem place_yields {entry : String × Nat} :
    (place share m p entry).Yields p' ↔ ∃ q,
      (if p.isFull share entry.2 then ((p.finishFragment m).close share).Yields q else p = q) ∧
      p' = { q with fragment := q.fragment ++ [entry.1], size := q.size + entry.2 } := by
  unfold place
  split <;> simp only [Run.bind_yields, Run.pure_yields, exists_eq_left', eq_comm]

theorem place_sound {entry : String × Nat} (mode : m.mode = .preload)
    (h : p.Sound share configuration requires) (placing : (place share m p entry).Yields p') :
    p'.Sound share configuration requires := by
  obtain ⟨q, changed, rfl⟩ := place_yields.1 placing
  refine Sound.congr (p := q) ?_ rfl rfl
  split at changed
  · rename_i full
    refine (h.finishFragment mode).close ?_ changed
    rw [finishFragment_closed]
    exact isFull_room full
  · exact changed ▸ h

theorem place_cutting {entry : String × Nat} (mode : m.mode = .preload)
    (h : p.Cutting m.resolved before done first cut)
    (placing : (place share m p entry).Yields p') :
    ∃ first cut, p'.Cutting m.resolved before (done ++ [entry.1]) first cut := by
  obtain ⟨q, changed, rfl⟩ := place_yields.1 placing
  split at changed
  · obtain ⟨first, cut, modules, nonempty, consecutive, placed⟩ := h.finish mode
    obtain ⟨same, length, fresh⟩ := placed_close changed
    rw [finishFragment_closed] at length
    refine ⟨first, cut, ?_, nonempty, ?_, ?_, .inr ?_⟩
    · rw [fresh, List.nil_append, modules]
    · exact same.trans placed
    · exact consecutive.trans length.symm
    · exact List.append_ne_nil_of_right_ne_nil _ (List.cons_ne_nil _ _)
  · subst changed
    refine ⟨first, cut, ?_, h.nonempty, h.placed, h.consecutive, .inr ?_⟩
    · rw [← List.append_assoc, h.modules]
    · exact List.append_ne_nil_of_right_ne_nil _ (List.cons_ne_nil _ _)

/-! ### All sections -/

/-- The sections `done` have been distributed, and none is being cut. -/
structure Holds (share : Share) (configuration : Option Configuration) (requires : List Section)
    (done : List ResolvedSection) (p : Parts) : Prop where
  sound : p.Sound share configuration requires
  idle : p.fragment = []
  groups : ∃ groups, List.Forall₂ ResolvedSection.Placed (ResolvedSection.distributed done) groups ∧
    Definition.placed p.all = groups.flatten

theorem foldlM_place (mode : m.mode = .preload) (h : p.Sound share configuration requires)
    (idle : p.fragment = []) (placing : (m.entries.foldlM (place share m) p).Yields p') :
    p'.Sound share configuration requires ∧ ∃ first cut,
      p'.Cutting m.resolved (Definition.placed p.all) m.modules first cut := by
  refine Run.foldlM_invariant (P := fun done q => q.Sound share configuration requires ∧
    ∃ first cut, q.Cutting m.resolved (Definition.placed p.all) (done.map (·.1)) first cut)
    ?step ?start placing
  case start =>
    refine ⟨h, p.closed.length, [], ?_, List.not_mem_nil, ?_, rfl, .inl rfl⟩
    · rw [idle]
      rfl
    · exact (List.append_nil _).symm
  case step =>
    rintro done entry _ q q' ⟨sound, first, cut, cutting⟩ placing
    refine ⟨place_sound mode sound placing, ?_⟩
    rw [List.map_append]
    exact place_cutting mode cutting placing

theorem Holds.skip {done : List ResolvedSection} (h : p.Holds share configuration requires done)
    {s : ResolvedSection} (hs : s.mode = .provided ∨ s.mode = .require)
    (sound : p'.Sound share configuration requires) (idle : p'.fragment = [])
    (placed : Definition.placed p'.all = Definition.placed p.all) :
    p'.Holds share configuration requires (done ++ [s]) := by
  obtain ⟨groups, each, before⟩ := h.groups
  refine ⟨sound, idle, groups, ?_, placed.trans before⟩
  have skipped : ResolvedSection.distributed (done ++ [s]) = ResolvedSection.distributed done := by
    rcases hs with hs | hs <;> simp [ResolvedSection.distributed, hs]
  rwa [skipped]

theorem Holds.place {done : List ResolvedSection} (h : p.Holds share configuration requires done)
    {s : ResolvedSection} {group : List (Nat × Section)} (hs : s.Placed group)
    (sound : p'.Sound share configuration requires) (idle : p'.fragment = [])
    (placed : Definition.placed p'.all = Definition.placed p.all ++ group) :
    p'.Holds share configuration requires (done ++ [s]) := by
  obtain ⟨groups, each, before⟩ := h.groups
  refine ⟨sound, idle, groups ++ [group], ?_, ?_⟩
  · have kept : ResolvedSection.distributed (done ++ [s]) =
        ResolvedSection.distributed done ++ [s] := by
      cases hs with
      | whole mode => rcases mode with mode | mode <;> simp [ResolvedSection.distributed, mode]
      | cut mode => simp [ResolvedSection.distributed, mode]
    rw [kept]
    exact List.rel_append each (.cons hs .nil)
  · rw [placed, before, List.flatten_append, List.flatten_singleton]

theorem Holds.addSection {done : List ResolvedSection}
    (h : p.Holds share configuration requires done) (emitted : m.mode ≠ .preload)
    (shown : m.mode ≠ .provided)
    (required : m.mode = .require → m.resolved.listing m.modules ∈ requires) :
    (p.addSection (m.explicit m.modules) m.size).Holds share configuration requires
      (done ++ [m.resolved]) := by
  have sound : (p.addSection (m.explicit m.modules) m.size).Sound share configuration requires :=
    h.sound.withSection rfl rfl required
  have placed : Definition.placed (p.addSection (m.explicit m.modules) m.size).all =
      Definition.placed p.all ++ if (m.explicit m.modules).mode = .require then []
        else [(p.closed.length, m.explicit m.modules)] :=
    placed_withSection rfl rfl
  rw [Measured.explicit_mode] at placed
  by_cases require : m.mode = .require
  · refine h.skip (.inr require) sound h.idle ?_
    rw [placed, if_pos require, List.append_nil]
  · have whole : m.resolved.mode = .raw ∨ m.resolved.mode = .bundleInfo := by
      show m.mode = .raw ∨ m.mode = .bundleInfo
      cases mode : m.mode <;> simp_all
    rw [if_neg require] at placed
    exact h.place (.whole whole) sound h.idle placed

theorem distribute_holds {done : List ResolvedSection}
    (required : m.mode = .require → m.resolved.listing m.modules ∈ requires)
    (h : p.Holds share configuration requires done)
    (distributing : (distribute share p m).Yields p') :
    p'.Holds share configuration requires (done ++ [m.resolved]) := by
  unfold distribute at distributing
  split at distributing
  case h_1 mode =>
    cases Run.pure_yields.1 distributing
    exact h.skip (.inl mode) h.sound h.idle rfl
  case h_5 mode =>
    obtain ⟨q, placing, last⟩ := Run.bind_yields.1 distributing
    cases Run.pure_yields.1 last
    obtain ⟨sound, _, _, cutting⟩ := foldlM_place mode h.sound h.idle placing
    obtain ⟨first, cut, modules, nonempty, _, placed⟩ := cutting.finish mode
    exact h.place (.cut mode modules nonempty) (sound.finishFragment mode) finishFragment_fragment
      placed
  all_goals
    rename_i mode
    cases Run.pure_yields.1 distributing
    exact h.addSection (by simp [mode]) (by simp [mode]) required

theorem start_holds (positive : 0 < share.parts) (name : String) (size : Nat) :
    Holds share configuration requires [] { current := { name, configuration }, size } := by
  refine ⟨⟨positive, rfl, ?_⟩, rfl, [], .nil, rfl⟩
  intro d hd s hs
  cases List.mem_singleton.1 hd
  cases hs

theorem foldlM_distribute {measured : List Measured}
    (required : ∀ m ∈ measured, m.mode = .require → m.resolved.listing m.modules ∈ requires)
    (h : p.Holds share configuration requires [])
    (distributing : (measured.foldlM (distribute share) p).Yields p') :
    p'.Holds share configuration requires (measured.map Measured.resolved) := by
  refine Run.foldlM_invariant
    (P := fun done q => q.Holds share configuration requires (done.map Measured.resolved))
    ?step h distributing
  intro done m hm q q' before distributing
  rw [List.map_append]
  exact distribute_holds (required m hm) before distributing

end Parts

/-! ## Require sections in every part -/

namespace Definition

theorem withMissing_sections {d : Definition} {s t : Section} :
    t ∈ (d.withMissing s).sections ↔ t ∈ d.sections ∨ t = s := by
  unfold withMissing
  split
  · rename_i present
    have present : s ∈ d.sections := by simpa using present
    constructor
    · exact .inl
    · rintro (ht | rfl)
      · exact ht
      · exact present
  · exact List.mem_append.trans (or_congr_right List.mem_singleton)

theorem withMissing_filter {d : Definition} {s : Section} (h : s.mode = .require) :
    (d.withMissing s).sections.filter (·.mode ≠ .require) =
      d.sections.filter (·.mode ≠ .require) := by
  unfold withMissing
  split
  · rfl
  · simp [withSection, h]

theorem withMissing_configuration {d : Definition} {s : Section} :
    (d.withMissing s).configuration = d.configuration := by
  unfold withMissing
  split <;> rfl

theorem foldl_withMissing_sections {d : Definition} {requires : List Section} {s : Section} :
    s ∈ (requires.foldl withMissing d).sections ↔ s ∈ d.sections ∨ s ∈ requires := by
  induction requires generalizing d with
  | nil => simp
  | cons r rest ih => rw [List.foldl_cons, ih, withMissing_sections, List.mem_cons, or_assoc]

theorem foldl_withMissing_filter {d : Definition} {requires : List Section}
    (h : ∀ s ∈ requires, s.mode = .require) :
    (requires.foldl withMissing d).sections.filter (·.mode ≠ .require) =
      d.sections.filter (·.mode ≠ .require) := by
  induction requires generalizing d with
  | nil => rfl
  | cons r rest ih =>
    rw [List.foldl_cons, ih fun s hs => h s (List.mem_cons_of_mem _ hs),
      withMissing_filter (h r List.mem_cons_self)]

theorem foldl_withMissing_configuration {d : Definition} {requires : List Section} :
    (requires.foldl withMissing d).configuration = d.configuration := by
  induction requires generalizing d with
  | nil => rfl
  | cons r rest ih => rw [List.foldl_cons, ih, withMissing_configuration]

/-! ## Main statement -/

/-- `parts` hold the resolved sections of a definition, in at most `limit` parts. -/
structure IsSplit (limit : Nat) (configuration : Option Configuration)
    (sections : List ResolvedSection) (parts : List Definition) : Prop where
  nonempty : 1 ≤ parts.length
  bounded : parts.length ≤ limit
  /-- Only the first part is configured. -/
  configured : parts.map (·.configuration) =
    configuration :: List.replicate (parts.length - 1) none
  /-- Every part has all require sections, and no others. -/
  required : ∀ d ∈ parts, ∀ s,
    s ∈ d.sections ∧ s.mode = .require ↔ s ∈ ResolvedSection.requires sections
  /-- Read from the first part to the last, the parts hold the other sections in order. -/
  groups : ∃ groups, List.Forall₂ ResolvedSection.Placed (ResolvedSection.distributed sections)
    groups ∧ placed parts = groups.flatten

/-- The first part, before anything is distributed. -/
def start (d : Definition) : Parts where
  current := { name := Name.part (Name.partTemplate d.name) 0, configuration := d.configuration }
  size := configurationSize d.configuration

def share (d : Definition) (limit : Nat) (measured : List Measured) : Share where
  template := Name.partTemplate d.name
  parts := limit
  total := configurationSize d.configuration + Measured.total (measured.map Measured.size)

theorem distribute_yields {d : Definition} {limit : Nat} {measured : List Measured}
    {parts : List Definition} : (d.distribute limit measured).Yields parts ↔
    ∃ p, (measured.foldlM (Parts.distribute (d.share limit measured)) d.start).Yields p ∧
      parts = p.all.map fun part =>
        (ResolvedSection.requires (measured.map Measured.resolved)).foldl withMissing part := by
  have requires : ((measured.filter (·.mode = .require)).map fun s => s.explicit s.modules) =
      ResolvedSection.requires (measured.map Measured.resolved) := by
    rw [ResolvedSection.requires, List.filter_map, List.map_map]
    rfl
  unfold distribute
  rw [Run.log1_bind_yields, Run.bind_yields]
  simp only [Run.log1_bind_yields, Run.pure_yields, requires]
  exact exists_congr fun p => and_congr_right fun _ => eq_comm

theorem distribute_isSplit {d : Definition} {limit : Nat} {measured : List Measured}
    {parts : List Definition} (positive : 0 < limit)
    (h : (d.distribute limit measured).Yields parts) :
    IsSplit limit d.configuration (measured.map Measured.resolved) parts := by
  obtain ⟨p, distributing, rfl⟩ := distribute_yields.1 h
  have listed : ∀ m ∈ measured, m.mode = .require → m.resolved.listing m.modules ∈
      ResolvedSection.requires (measured.map Measured.resolved) := by
    intro m hm require
    refine List.mem_map_of_mem (f := fun s : ResolvedSection => s.listing s.modules) ?_
    exact List.mem_filter.2 ⟨List.mem_map_of_mem hm, decide_eq_true require⟩
  obtain ⟨sound, _, groups, each, placed⟩ :=
    Parts.foldlM_distribute listed (Parts.start_holds positive _ _) distributing
  have length : p.all.length = p.closed.length + 1 := by simp [Parts.all]
  have bounded : p.closed.length < limit := sound.bounded
  have require := fun s => @ResolvedSection.mode_of_mem_requires (measured.map Measured.resolved) s
  constructor
  case nonempty => rw [List.length_map]; omega
  case bounded => rw [List.length_map]; omega
  case configured =>
    rw [List.map_map, List.length_map, length, Nat.add_sub_cancel, ← sound.configured]
    exact List.map_congr_left fun part _ => foldl_withMissing_configuration
  case required =>
    intro part hp s
    obtain ⟨before, hb, rfl⟩ := List.mem_map.1 hp
    rw [foldl_withMissing_sections]
    constructor
    · rintro ⟨hs | hs, mode⟩
      · exact sound.required before hb s hs mode
      · exact hs
    · intro hs
      exact ⟨.inr hs, require s hs⟩
  case groups =>
    refine ⟨groups, each, ?_⟩
    rw [← placed]
    exact placed_map (fun part => foldl_withMissing_filter require) _

theorem flatMap_placed {α : Type} {f : Mode → String → List α} (require : f .require = fun _ => [])
    (parts : List Definition) :
    ((placed parts).flatMap fun entry => entry.2.filters.flatMap (f entry.2.mode)) =
      parts.flatMap fun part => part.sections.flatMap fun s => s.filters.flatMap (f s.mode) := by
  induction parts using List.reverseRecOn with
  | nil => rfl
  | append_singleton parts d ih =>
    rw [placed_append_singleton, List.flatMap_append, List.flatMap_append, ih,
      List.flatMap_singleton, List.flatMap_map]
    refine congrArg _ (flatMap_filter_of_nil fun s _ other => ?_)
    have mode : s.mode = .require := by simpa using other
    rw [mode, require]
    exact List.flatMap_eq_nil_iff.2 fun _ _ => rfl

namespace IsSplit

variable {limit : Nat} {configuration : Option Configuration} {sections : List ResolvedSection}
  {parts : List Definition}

theorem mem_placed {parts : List Definition} {i : Nat} {d : Definition} (hd : parts[i]? = some d)
    {s : Section} (hs : s ∈ d.sections) (other : s.mode ≠ .require) : (i, s) ∈ placed parts := by
  refine List.mem_flatMap.2 ⟨(d, i), List.mk_mem_zipIdx_iff_getElem?.2 hd, ?_⟩
  exact List.mem_map_of_mem (List.mem_filter.2 ⟨hs, decide_eq_true other⟩)

/-- Every section of a part lists modules of a resolved section. -/
theorem lists (h : IsSplit limit configuration sections parts) {d : Definition} (hd : d ∈ parts)
    {s : Section} (hs : s ∈ d.sections) : ∃ r ∈ sections, r.Lists s := by
  by_cases require : s.mode = .require
  · obtain ⟨r, hr, rfl⟩ := List.mem_map.1 ((h.required d hd s).1 ⟨hs, require⟩)
    exact ⟨r, List.mem_of_mem_filter hr, r.modules, rfl, List.Sublist.refl _, fun _ => rfl⟩
  · obtain ⟨i, hi, get⟩ := List.getElem_of_mem hd
    obtain ⟨groups, each, same⟩ := h.groups
    have placed := mem_placed (List.getElem?_eq_some_iff.2 ⟨hi, get⟩) hs require
    rw [same] at placed
    obtain ⟨group, hg, he⟩ := List.mem_flatten.1 placed
    obtain ⟨j, hj, get⟩ := List.getElem_of_mem hg
    have hr : j < (ResolvedSection.distributed sections).length := each.length_eq ▸ hj
    refine ⟨(ResolvedSection.distributed sections)[j], ?_, ?_⟩
    · exact List.mem_of_mem_filter (List.getElem_mem hr)
    · exact (each.get hr hj).lists _ (by simpa [get] using he)

/-- Nothing is lost, doubled or moved. -/
theorem placed_flatMap {α : Type} (h : IsSplit limit configuration sections parts)
    (f : Mode → String → List α) :
    ((placed parts).flatMap fun entry => entry.2.filters.flatMap (f entry.2.mode)) =
      (ResolvedSection.distributed sections).flatMap fun s => s.modules.flatMap (f s.mode) := by
  obtain ⟨groups, each, same⟩ := h.groups
  rw [same]
  clear same
  generalize ResolvedSection.distributed sections = distributed at each ⊢
  induction each with
  | nil => rfl
  | cons first _ ih =>
    rw [List.flatten_cons, List.flatMap_append, List.flatMap_cons, first.flatMap, ih]

theorem placed_modules (h : IsSplit limit configuration sections parts) :
    (placed parts).flatMap (·.2.filters) =
      (ResolvedSection.distributed sections).flatMap (·.modules) := by
  simpa using h.placed_flatMap fun _ module => [module]

/-- What is gathered from the modules of the parts is what is gathered from the resolved ones, where
provided and require sections count for nothing. -/
theorem flatMap_modules {α : Type} (h : IsSplit limit configuration sections parts)
    {f : Mode → String → List α} (provided : f .provided = fun _ => [])
    (require : f .require = fun _ => []) :
    (parts.flatMap fun part => part.sections.flatMap fun s => s.filters.flatMap (f s.mode)) =
      sections.flatMap fun s => s.modules.flatMap (f s.mode) := by
  rw [← flatMap_placed require, h.placed_flatMap]
  apply flatMap_filter_of_nil
  intro s _ other
  have silent : f s.mode = fun _ => [] := by
    cases mode : s.mode <;> simp_all
  rw [silent]
  exact List.flatMap_eq_nil_iff.2 fun _ _ => rfl

end IsSplit

theorem split_isSplit {d : Definition} {source : Source} {ignoreMissing : Bool} {limit : Nat}
    {parts : List Definition} (h : (d.split source ignoreMissing limit).Yields parts) :
    ∃ r, (d.resolve source.pool ignoreMissing).Yields r ∧
      IsSplit (max limit 1) d.configuration r.sections parts := by
  obtain ⟨r, resolved, h⟩ := Run.bind_yields.1 h
  obtain ⟨measured, measuring, distributing⟩ := Run.bind_yields.1 h
  have split := distribute_isSplit (by omega) distributing
  have requires := Measured.filter_resolved (p := (· = .require)) rfl measuring
  have distributed := Measured.filter_resolved
    (p := fun mode => mode ≠ .provided ∧ mode ≠ .require) rfl measuring
  obtain ⟨nonempty, bounded, configured, required, groups⟩ := split
  unfold ResolvedSection.requires at required
  unfold ResolvedSection.distributed at groups
  rw [requires] at required
  rw [distributed] at groups
  exact ⟨r, resolved, nonempty, bounded, configured, required, groups⟩

/-- **The parts hold the resolved sections in order.** There is at least one part and at most as
many as asked for. Raw and bundle info sections stay whole, preload sections are cut into fragments
that lie in parts that follow one another, and every part has all require sections. Only the first
part has the configuration, and no section of a part follows dependencies or renderers. -/
theorem split_holds_sections {d : Definition} {source : Source} {ignoreMissing : Bool} {limit : Nat}
    {parts : List Definition} (h : (d.split source ignoreMissing limit).Yields parts) :
    ∃ r, (d.resolve source.pool ignoreMissing).Yields r ∧
      IsSplit (max limit 1) d.configuration r.sections parts ∧
      ∀ part ∈ parts, ∀ s ∈ part.sections, ∃ t ∈ r.sections, t.Lists s ∧
        s.resolve = false ∧ s.resolveConditional = false ∧ s.renderer = false := by
  obtain ⟨r, resolved, split⟩ := split_isSplit h
  refine ⟨r, resolved, split, fun part hp s hs => ?_⟩
  obtain ⟨t, ht, lists⟩ := split.lists hp hs
  refine ⟨t, ht, lists, ?_⟩
  obtain ⟨modules, rfl, _⟩ := lists
  exact ⟨rfl, rfl, rfl⟩

end Definition

namespace Vendored

def measured : List Measured := [⟨vendor, [("lib/mod2.js", 1), ("lib/mod4.js", 1)]⟩]

/-- The bundle of `resolves` in two parts, a module each. -/
theorem splits : ∃ parts, (definition.split { pool } true 2).Yields parts ∧
    parts.map (·.sections) =
      [[{ filters := ["lib/mod2.js"] }], [{ filters := ["lib/mod4.js"] }]] := by
  have sizes : (resolved.sections.mapM (Measured.ofSection { pool })).Yields measured := rfl
  have cut : ∃ parts, (definition.distribute 2 measured).Yields parts ∧ parts.map (·.sections) =
      [[{ filters := ["lib/mod2.js"] }], [{ filters := ["lib/mod4.js"] }]] := ⟨_, rfl, rfl⟩
  obtain ⟨parts, distributed, sections⟩ := cut
  exact ⟨parts, Run.bind_yields.2 ⟨_, resolves, Run.bind_yields.2 ⟨_, sizes, distributed⟩⟩,
    sections⟩

theorem splits_hold_sections : ∃ parts, (definition.split { pool } true 2).Yields parts ∧
    parts.length = 2 ∧ Definition.IsSplit 2 none resolved.sections parts := by
  obtain ⟨parts, split, sections⟩ := splits
  obtain ⟨r, again, same, _⟩ := Definition.split_holds_sections split
  cases resolves.unique again
  refine ⟨parts, split, ?_, same⟩
  simpa using congrArg List.length sections

end Vendored

end Bundler
