import Bundler.Proofs.Roots

/-!
# The order of require sections in parts

Parts are filled one after the other, with require sections where they stand in the definition. When
all parts are full, each gets the require sections that it lacks behind what it is filled with. So
the require sections that a part met while it was being filled come first, and the others follow:
`split_requires`.
-/

namespace Bundler

/-- What stands in a part: a require section, or a module of another section. -/
inductive Item where
  | required (s : Section)
  | module (mode : Mode) (name : String)
  deriving DecidableEq

def Section.items (s : Section) : List Item :=
  if s.mode = .require then [.required s] else s.filters.map (.module s.mode)

/-- What of a resolved section is distributed over parts. -/
def ResolvedSection.items (s : ResolvedSection) : List Item :=
  if s.mode = .provided then [] else (s.listing s.modules).items

def Item.require? : Item → Option Section
  | .required s => some s
  | .module .. => none

def Definition.requires (d : Definition) : List Section := d.sections.filter (·.mode = .require)

theorem Section.items_require (sections : List Section) :
    (sections.flatMap items).filterMap Item.require? = sections.filter (·.mode = .require) := by
  induction sections with
  | nil => rfl
  | cons s rest ih =>
    rw [List.flatMap_cons, List.filterMap_append, ih]
    by_cases require : s.mode = .require
    · simp [items, require, Item.require?]
    · simp [items, require, Item.require?, List.filterMap_map, Function.comp_def]

theorem ResolvedSection.items_require (sections : List ResolvedSection) :
    (sections.flatMap items).filterMap Item.require? = requires sections := by
  induction sections with
  | nil => rfl
  | cons s rest ih =>
    rw [List.flatMap_cons, List.filterMap_append, ih]
    have listed : (s.listing s.modules).mode = s.mode := rfl
    cases mode : s.mode <;>
      simp [items, Section.items, listed, mode, Item.require?, List.filterMap_map,
        Function.comp_def, requires]

/-! ## Filling parts -/

namespace Parts

variable {share : Share} {p p' : Parts} {m : Measured}

/-- All that has been distributed, from the first part to the last. -/
def items (p : Parts) : List Item :=
  p.all.flatMap (fun d => d.sections.flatMap Section.items) ++ p.fragment.map (.module .preload)

theorem items_withSection {s : Section} (closed : p'.closed = p.closed)
    (current : p'.current = p.current.withSection s) (idle : p'.fragment = []) :
    p'.items = p.all.flatMap (fun d => d.sections.flatMap Section.items) ++ s.items := by
  simp [items, all, closed, current, idle, Definition.withSection]

theorem items_finishFragment (mode : m.mode = .preload) :
    (p.finishFragment m).items = p.items := by
  by_cases idle : p.fragment = []
  · rw [finishFragment_of_nil idle]
  · rw [items_withSection finishFragment_closed (finishFragment_current idle)
      finishFragment_fragment, items]
    have other : (m.explicit p.fragment).mode ≠ .require := explicit_mode_ne mode _
    rw [Section.items, if_neg other, Measured.explicit_mode, mode]
    rfl

theorem items_close (idle : p.fragment = []) (closing : (p.close share).Yields p') :
    p'.items = p.items := by
  cases close_yields.1 closing
  simp [items, all, idle]

theorem items_place {entry : String × Nat} (mode : m.mode = .preload)
    (placing : (place share m p entry).Yields p') :
    p'.items = p.items ++ [.module .preload entry.1] := by
  obtain ⟨q, changed, rfl⟩ := place_yields.1 placing
  have same : q.items = p.items := by
    split at changed
    · rw [items_close finishFragment_fragment changed, items_finishFragment mode]
    · rw [changed]
  rw [← same]
  simp [items, all]

theorem items_addSection (idle : p.fragment = []) (s : Section) (size : Nat) :
    (p.addSection s size).items = p.items ++ s.items := by
  have added : (p.addSection s size).items =
      p.all.flatMap (fun d => d.sections.flatMap Section.items) ++ s.items :=
    items_withSection rfl rfl idle
  rw [added, items, idle]
  simp

theorem items_foldlM_place (mode : m.mode = .preload)
    (placing : (m.entries.foldlM (place share m) p).Yields p') :
    p'.items = p.items ++ m.modules.map (.module .preload) := by
  have placed : p'.items = p.items ++ m.entries.map fun entry => .module .preload entry.1 := by
    refine Run.foldlM_invariant
      (P := fun done q => q.items = p.items ++ done.map fun entry => .module .preload entry.1)
      ?step ?start placing
    case start => simp
    case step =>
      intro done entry _ q q' before placing
      rw [items_place mode placing, before, List.map_append, List.append_assoc]
      rfl
  rw [placed, Measured.modules, List.map_map]
  rfl

theorem items_distribute (idle : p.fragment = [])
    (distributing : (distribute share p m).Yields p') :
    p'.fragment = [] ∧ p'.items = p.items ++ m.resolved.items := by
  have resolved : m.resolved.items =
      if m.mode = .provided then [] else (m.explicit m.modules).items := rfl
  rw [resolved]
  unfold distribute at distributing
  split at distributing
  case h_1 mode =>
    cases Run.pure_yields.1 distributing
    rw [if_pos mode, List.append_nil]
    exact ⟨idle, rfl⟩
  case h_5 mode =>
    obtain ⟨q, placing, last⟩ := Run.bind_yields.1 distributing
    cases Run.pure_yields.1 last
    have other : (m.explicit m.modules).mode ≠ .require := explicit_mode_ne mode _
    rw [items_finishFragment mode, items_foldlM_place mode placing, if_neg (by simp [mode]),
      Section.items, if_neg other, Measured.explicit_mode, mode]
    exact ⟨finishFragment_fragment, rfl⟩
  all_goals
    rename_i mode
    cases Run.pure_yields.1 distributing
    rw [if_neg (by simp [mode])]
    exact ⟨idle, items_addSection idle _ _⟩

theorem items_foldlM_distribute {measured : List Measured} (idle : p.fragment = [])
    (distributing : (measured.foldlM (distribute share) p).Yields p') :
    p'.fragment = [] ∧ p'.items = p.items ++ measured.flatMap (·.resolved.items) := by
  refine Run.foldlM_invariant
    (P := fun done q => q.fragment = [] ∧ q.items = p.items ++ done.flatMap (·.resolved.items))
    ?step ?start distributing
  case start => exact ⟨idle, by simp⟩
  case step =>
    rintro done m _ q q' ⟨idle, before⟩ distributing
    obtain ⟨idle, placed⟩ := items_distribute idle distributing
    refine ⟨idle, ?_⟩
    rw [placed, before, List.flatMap_append, List.flatMap_singleton, List.append_assoc]

end Parts

/-! ## Adding what a part lacks -/

/-- What stands before the elements that were met comes behind them. -/
theorem append_missing_eq_iff {α : Type} [DecidableEq α] {before met after : List α}
    (distinct : (before ++ met ++ after).Nodup) :
    met ++ (before ++ met ++ after).filter (· ∉ met) = before ++ met ++ after ↔
      met = [] ∨ before = [] := by
  obtain ⟨early, _, apart⟩ := List.nodup_append.1 distinct
  obtain ⟨_, _, disjoint⟩ := List.nodup_append.1 early
  have missing : (before ++ met ++ after).filter (· ∉ met) = before ++ after := by
    have first : before.filter (· ∉ met) = before :=
      List.filter_eq_self.2 fun x hx => decide_eq_true fun hm => disjoint x hx x hm rfl
    have own : met.filter (· ∉ met) = [] :=
      List.filter_eq_nil_iff.2 fun x hx missing => of_decide_eq_true missing hx
    have last : after.filter (· ∉ met) = after := List.filter_eq_self.2 fun x hx =>
      decide_eq_true fun hm => apart x (List.mem_append_right _ hm) x hx rfl
    rw [List.filter_append, List.filter_append, first, own, last, List.append_nil]
  rw [missing]
  constructor
  · intro same
    cases met with
    | nil => exact .inl rfl
    | cons x met =>
      cases before with
      | nil => exact .inr rfl
      | cons y before =>
        have first : x = y := (List.cons.inj same).1
        exact absurd first.symm (disjoint y List.mem_cons_self x List.mem_cons_self)
  · rintro (rfl | rfl) <;> simp

namespace Definition

theorem foldl_withMissing {d : Definition} {requires : List Section} (distinct : requires.Nodup) :
    (requires.foldl withMissing d).sections =
      d.sections ++ requires.filter (· ∉ d.sections) := by
  induction requires generalizing d with
  | nil => exact (List.append_nil _).symm
  | cons s rest ih =>
    obtain ⟨fresh, distinct⟩ := List.nodup_cons.1 distinct
    rw [List.foldl_cons, ih distinct]
    by_cases present : s ∈ d.sections
    · have kept : d.withMissing s = d := if_pos (List.contains_iff_mem.2 present)
      rw [kept, List.filter_cons_of_neg (by simpa using present)]
    · have added : (d.withMissing s).sections = d.sections ++ [s] := by
        rw [withMissing, if_neg (by simpa using present)]
        rfl
      have others : rest.filter (· ∉ d.sections ++ [s]) = rest.filter (· ∉ d.sections) := by
        refine List.filter_congr fun t ht => ?_
        have other : t ≠ s := fun same => fresh (same ▸ ht)
        simp [other]
      rw [added, others, List.filter_cons_of_pos (by simpa using present), List.append_assoc,
        List.singleton_append]

/-- The sections `filled` stand in the parts, list by list. Behind them each part has the require
sections that it lacks. -/
structure Fills (requires : List Section) (parts : List Definition)
    (filled : List (List Section)) : Prop where
  parts : List.Forall₂ (fun part own => part.sections = own ++ requires.filter (· ∉ own)) parts
    filled
  distinct : requires.Nodup
  order : filled.flatten.filter (·.mode = .require) = requires

theorem filter_require_eq_nil {sections : List Section} :
    sections.filter (·.mode = .require) = [] ↔ ∀ s ∈ sections, s.mode ≠ .require := by
  simp [List.filter_eq_nil_iff]

theorem Fills.requires_eq_iff {requires : List Section} {parts : List Definition}
    {filled : List (List Section)} (h : Fills requires parts filled) {i : Nat} {part : Definition}
    {own : List Section} (hp : parts[i]? = some part) (ho : filled[i]? = some own) :
    part.requires = requires ↔
      (∀ s ∈ own, s.mode ≠ .require) ∨ ∀ s ∈ (filled.take i).flatten, s.mode ≠ .require := by
  obtain ⟨each, distinct, order⟩ := h
  obtain ⟨bound, rfl⟩ := List.getElem?_eq_some_iff.1 ho
  obtain ⟨bound', rfl⟩ := List.getElem?_eq_some_iff.1 hp
  have sections : parts[i].sections = filled[i] ++ requires.filter (· ∉ filled[i]) :=
    each.get bound' bound
  -- what went into earlier parts, into this one and into later ones
  have cut : filled.flatten =
      (filled.take i).flatten ++ filled[i] ++ (filled.drop (i + 1)).flatten := by
    rw [List.append_assoc, ← List.flatten_cons, List.getElem_cons_drop, ← List.flatten_append,
      List.take_append_drop]
  generalize filled[i] = own at *
  have lacking : (requires.filter (· ∉ own)).filter (·.mode = .require) =
      requires.filter (· ∉ own.filter (·.mode = .require)) := by
    rw [← order, List.filter_filter, List.filter_filter, List.filter_filter]
    refine List.filter_congr fun s _ => ?_
    by_cases require : s.mode = .require <;> simp [require]
  rw [cut, List.filter_append, List.filter_append] at order
  rw [Definition.requires, sections, List.filter_append, lacking, ← order,
    append_missing_eq_iff (order ▸ distinct), filter_require_eq_nil, filter_require_eq_nil]

theorem distribute_fills {d : Definition} {limit : Nat} {measured : List Measured}
    {parts : List Definition} (h : (d.distribute limit measured).Yields parts)
    (distinct : (ResolvedSection.requires (measured.map Measured.resolved)).Nodup) :
    ∃ filled, Fills (ResolvedSection.requires (measured.map Measured.resolved)) parts filled ∧
      filled.flatten.flatMap Section.items = measured.flatMap (·.resolved.items) := by
  obtain ⟨p, distributing, rfl⟩ := distribute_yields.1 h
  obtain ⟨idle, items⟩ := Parts.items_foldlM_distribute rfl distributing
  have filled : (p.all.map (·.sections)).flatten.flatMap Section.items =
      measured.flatMap (·.resolved.items) := by
    calc
      _ = p.all.flatMap fun part => part.sections.flatMap Section.items := by
        rw [← List.flatMap_def, List.flatMap_assoc]
      _ = p.items := by simp [Parts.items, idle]
      _ = _ := by
        have fresh : d.start.items = [] := rfl
        rw [items, fresh, List.nil_append]
  refine ⟨p.all.map (·.sections), ⟨?each, distinct, ?order⟩, filled⟩
  case each =>
    rw [List.forall₂_map_left_iff, List.forall₂_map_right_iff]
    exact List.forall₂_same.2 fun part _ => foldl_withMissing distinct
  case order =>
    rw [← Section.items_require, filled, ← ResolvedSection.items_require, List.flatMap_map]

/-- **Each part has first the require sections that it met.** While parts are filled, each section
goes into them in its place. Behind these, each part gets the require sections that it lacks. If the
require sections are pairwise different, then a part has them in the order of the definition if and
only if it met none of them, or no part before it did. -/
theorem split_requires {d : Definition} {source : Source} {ignoreMissing : Bool} {limit : Nat}
    {parts : List Definition} {r : Resolved} (h : (d.split source ignoreMissing limit).Yields parts)
    (resolved : (d.resolve source.pool ignoreMissing).Yields r)
    (distinct : (ResolvedSection.requires r.sections).Nodup) :
    ∃ filled, Fills (ResolvedSection.requires r.sections) parts filled ∧
      filled.flatten.flatMap Section.items = r.sections.flatMap ResolvedSection.items ∧
      ∀ (i : Nat) (part : Definition) (own : List Section),
        parts[i]? = some part → filled[i]? = some own →
        (part.requires = ResolvedSection.requires r.sections ↔
          (∀ s ∈ own, s.mode ≠ .require) ∨
            ∀ s ∈ (filled.take i).flatten, s.mode ≠ .require) := by
  obtain ⟨r', again, h⟩ := Run.bind_yields.1 h
  cases resolved.unique again
  obtain ⟨measured, measuring, distributing⟩ := Run.bind_yields.1 h
  have requires : ResolvedSection.requires (measured.map Measured.resolved) =
      ResolvedSection.requires r.sections :=
    congrArg (List.map _) (Measured.filter_resolved (p := (· = .require)) rfl measuring)
  have items : measured.flatMap (·.resolved.items) = r.sections.flatMap ResolvedSection.items := by
    have emitted := Measured.filter_resolved (p := (· ≠ .provided)) rfl measuring
    have silent : ∀ (sections : List ResolvedSection), ∀ s ∈ sections,
        ¬decide (s.mode ≠ .provided) → s.items = [] := by
      intro _ s _ provided
      exact if_pos (by simpa using provided)
    rw [← flatMap_filter_of_nil (silent r.sections), ← emitted,
      flatMap_filter_of_nil (silent _), List.flatMap_map]
  rw [← requires] at distinct ⊢
  obtain ⟨filled, fills, same⟩ := distribute_fills distributing distinct
  exact ⟨filled, fills, same.trans items, fun i part own hp ho => fills.requires_eq_iff hp ho⟩

end Definition

/-! ## Sections around a preload -/

namespace Boot

def resources : List Resource :=
  [{ name := "app/a.js", content := .replicate 20 97 },
    { name := "app/b.js", content := .replicate 20 98 },
    { name := "boot/first.js", content := [59] }, { name := "boot/second.js", content := [59] }]

def pool : Pool := .ofResources resources

def first : Section := { mode := .require, filters := ["boot/first.js"] }

def app : Section := { filters := ["app/a.js", "app/b.js"] }

def second : Section := { mode := .require, filters := ["boot/second.js"] }

def definition : Definition := { sections := [first, app, second] }

def resolved : Resolved := ⟨definition, definition.sections.map fun s => ⟨s, s.filters⟩⟩

theorem resolves : (definition.resolve pool true).Yields resolved := by
  have keeps (name : String) : pool.Keeps name := Pool.keeps_of_bare (by decide) name
  have enumerates : ∀ s ∈ definition.sections, s.Enumerates pool := by
    intro s hs
    have plain : s.resolve = false ∧ s.renderer = false ∧ s.mode ≠ .raw ∧ s.filters ≠ [] ∧
        s.filters.Nodup ∧ ∀ name ∈ s.filters, name ∈ pool.names ∧ Name.Listable name := by
      revert s
      decide
    obtain ⟨resolve, renderer, mode, nonempty, nodup, each⟩ := plain
    have complete := Pool.ofResources_complete resources
    exact ⟨resolve, renderer, fun raw => absurd raw mode, nonempty, nodup,
      fun name hn => (each name hn).1, fun name hn => complete.record (each name hn).1,
      fun name _ => keeps name, fun name hn => (each name hn).2.starless,
      fun name hn => (each name hn).2.unmarked⟩
  apply Definition.resolve_settled ?settled (by decide)
  intro s hs
  apply (enumerates s hs).settled
  revert s
  decide

def measured : List Measured :=
  [⟨first, [("boot/first.js", 33)]⟩, ⟨app, [("app/a.js", 20), ("app/b.js", 20)]⟩,
    ⟨second, [("boot/second.js", 34)]⟩]

/-- The second part meets the second section alone, and gets the first one behind it. -/
theorem splits : ∃ parts, (definition.split { pool } true 2).Yields parts ∧
    parts.map (·.sections) =
      [[first, { filters := ["app/a.js"] }, second],
        [{ filters := ["app/b.js"] }, second, first]] := by
  have sizes : (resolved.sections.mapM (Measured.ofSection { pool })).Yields measured := rfl
  have cut : ∃ parts, (definition.distribute 2 measured).Yields parts ∧ parts.map (·.sections) =
      [[first, { filters := ["app/a.js"] }, second],
        [{ filters := ["app/b.js"] }, second, first]] := ⟨_, rfl, rfl⟩
  obtain ⟨parts, distributed, sections⟩ := cut
  exact ⟨parts, Run.bind_yields.2 ⟨_, resolves, Run.bind_yields.2 ⟨_, sizes, distributed⟩⟩,
    sections⟩

theorem first_part_ordered : ∃ parts part, (definition.split { pool } true 2).Yields parts ∧
    (ResolvedSection.requires resolved.sections).Nodup ∧ parts[0]? = some part ∧
    part.requires = [first, second] := by
  obtain ⟨parts, split, sections⟩ := splits
  have distinct : (ResolvedSection.requires resolved.sections).Nodup := by decide
  obtain ⟨filled, fills, _, ordered⟩ := Definition.split_requires split resolves distinct
  have length : parts.length = 2 := by simpa using congrArg List.length sections
  have bound : 0 < filled.length := by
    rw [← fills.parts.length_eq, length]
    decide
  have part := List.getElem?_eq_getElem (l := parts) (i := 0) (by omega)
  have own := List.getElem?_eq_getElem bound
  refine ⟨parts, parts[0], split, distinct, part, ?_⟩
  -- no part comes before the first one
  exact (ordered 0 _ _ part own).2 (.inr fun s hs => absurd hs List.not_mem_nil)

/-- The second part has the two sections in the opposite order. -/
theorem second_part_reordered : ∃ parts part, (definition.split { pool } true 2).Yields parts ∧
    (ResolvedSection.requires resolved.sections).Nodup ∧ parts[1]? = some part ∧
    ResolvedSection.requires resolved.sections = [first, second] ∧
    part.requires = [second, first] := by
  obtain ⟨parts, split, sections⟩ := splits
  have length : parts.length = 2 := by simpa using congrArg List.length sections
  have own := congrArg (·[1]?) sections
  have bound : 1 < parts.length := by omega
  refine ⟨parts, parts[1], split, by decide, List.getElem?_eq_getElem bound, rfl, ?_⟩
  have last : parts[1].sections = [{ filters := ["app/b.js"] }, second, first] := by
    simpa [List.getElem?_eq_getElem bound] using own
  rw [Definition.requires, last]
  rfl

end Boot

end Bundler
