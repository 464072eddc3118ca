import Bundler.Proofs.Roots
import Bundler.Width

/-!
# Parts without modules

A part is closed before a module, whatever it holds by then. What closes a part goes into the next
one, so from the first preload module on every part that is begun gets a module. Only the first part
may be closed with nothing in it: when that module is so large that half of it lies beyond a share,
and nothing stands before it. `split_vacant` says exactly when this happens, as long as the products
that decide it stay within 64 bits; `Fits.products` says that one bound is enough for all of them.
-/

namespace Bundler

theorem getElem?_append_singleton_eq_some {α : Type} {l : List α} {a b : α} {i : Nat} :
    (l ++ [a])[i]? = some b ↔ l[i]? = some b ∨ i = l.length ∧ a = b := by
  rw [List.getElem?_append, List.getElem?_singleton]
  split
  · simp [*, Nat.ne_of_lt]
  · grind

/-- The modules of the sections that are distributed over parts. -/
def Definition.contents (d : Definition) : List String :=
  (d.sections.filter fun s => s.mode ≠ .provided ∧ s.mode ≠ .require).flatMap (·.filters)

/-- The definition has neither a configuration nor a module, apart from what it requires. -/
structure Definition.Vacant (d : Definition) : Prop where
  configuration : d.configuration = none
  contents : d.contents = []

theorem Definition.contents_withSection (d : Definition) (s : Section) :
    (d.withSection s).contents = d.contents ++
      if s.mode ≠ .provided ∧ s.mode ≠ .require then s.filters else [] := by
  by_cases distributed : s.mode ≠ .provided ∧ s.mode ≠ .require <;>
    simp [contents, withSection, distributed]

/-- Require sections do not count. -/
theorem Definition.contents_congr {d d' : Definition}
    (same : d.sections.filter (·.mode ≠ .require) = d'.sections.filter (·.mode ≠ .require)) :
    d.contents = d'.contents := by
  have cut (sections : List Section) :
      sections.filter (fun s => s.mode ≠ .provided ∧ s.mode ≠ .require) =
        (sections.filter (·.mode ≠ .require)).filter (·.mode ≠ .provided) := by
    simp [List.filter_filter]
  rw [contents, contents, cut, cut, same]

/-! ## Measured sections -/

namespace Measured

/-- The modules of a section that is distributed. -/
def contents (m : Measured) : List String := if m.mode = .require then [] else m.modules

/-- Provided modules are not measured. -/
theorem ofSection_provided {source : Source} {s : ResolvedSection} {m : Measured}
    (h : (ofSection source s).Yields m) (provided : m.mode = .provided) : m.entries = [] := by
  obtain ⟨entries, measured, last⟩ := Run.bind_yields.1 h
  cases Run.pure_yields.1 last
  have mode : s.mode = .provided := provided
  rw [entriesOf, mode] at measured
  exact (Run.pure_yields.1 measured).symm

theorem mapM_provided {source : Source} {sections : List ResolvedSection} {measured : List Measured}
    (h : (sections.mapM (ofSection source)).Yields measured) :
    ∀ m ∈ measured, m.mode = .provided → m.entries = [] := by
  have each := Run.mapM_yields.1 h
  clear h
  induction each with
  | nil => simp
  | cons first _ ih => exact List.forall_mem_cons.2 ⟨ofSection_provided first, ih⟩

/-- The sections begin with those `before` the first one that preloads a module. The first module of
that section, with what it contributes, is `first`. -/
structure Opening (measured before : List Measured) (first : String × Nat) : Prop where
  preload : ∃ m after, measured = before ++ m :: after ∧ m.mode = .preload ∧
    m.entries.head? = some first
  idle : ∀ m ∈ before, m.mode = .preload → m.entries = []

theorem exists_preload {source : Source} {sections : List ResolvedSection}
    {measured : List Measured} (h : (sections.mapM (ofSection source)).Yields measured)
    (preloads : ∃ s ∈ sections, s.mode = .preload ∧ s.modules ≠ []) :
    ∃ m ∈ measured, m.mode = .preload ∧ m.entries ≠ [] := by
  obtain ⟨s, hs, mode, nonempty⟩ := preloads
  have kept : s ∈ sections.filter (·.mode = .preload) := by simpa using ⟨hs, mode⟩
  rw [← filter_resolved (p := (· = .preload)) rfl h] at kept
  obtain ⟨m, hm, rfl⟩ := List.mem_map.1 (List.mem_of_mem_filter kept)
  refine ⟨m, hm, mode, fun none => nonempty ?_⟩
  rw [resolved, modules, none]
  rfl

theorem exists_opening {measured : List Measured}
    (preloads : ∃ m ∈ measured, m.mode = .preload ∧ m.entries ≠ []) :
    ∃ before first, Opening measured before first := by
  induction measured with
  | nil => simp at preloads
  | cons m rest ih =>
    by_cases opens : m.mode = .preload ∧ m.entries ≠ []
    · obtain ⟨mode, nonempty⟩ := opens
      obtain ⟨first, later, entries⟩ := List.exists_cons_of_ne_nil nonempty
      exact ⟨[], first, ⟨m, rest, rfl, mode, by rw [entries]; rfl⟩, by simp⟩
    · obtain ⟨before, first, ⟨m', after, rfl, mode, head⟩, idle⟩ := ih (by simp_all)
      refine ⟨m :: before, first, ⟨m', after, rfl, mode, head⟩, List.forall_mem_cons.2 ⟨?_, idle⟩⟩
      intro mode
      by_contra nonempty
      exact opens ⟨mode, nonempty⟩

end Measured

/-- What the sections make of a bundle, with its configuration. -/
def Definition.sizeOf (d : Definition) (sections : List Measured) : Nat :=
  configurationSize d.configuration + Measured.total (sections.map Measured.size)

/-- The first part is closed for the first preload module, and no module has been put into it. -/
structure Definition.Skips (d : Definition) (limit : Nat) (measured before : List Measured)
    (size : Nat) : Prop where
  hollow : ∀ m ∈ before, m.mode ≠ .require → m.entries = []
  several : 1 < limit
  /-- Half of the module, behind what stands before it, would lie beyond a share. -/
  large : 2 * d.sizeOf measured < limit * (2 * d.sizeOf before + size)

theorem Definition.skips_max {d : Definition} {limit : Nat} {measured before : List Measured}
    {size : Nat} :
    d.Skips (max limit 1) measured before size ↔ d.Skips limit measured before size := by
  by_cases several : 1 < limit
  · rw [max_eq_left several.le]
  · have alone : ¬1 < max limit 1 := by omega
    exact iff_of_false (fun skips => alone skips.several) fun skips => several skips.several

theorem Definition.sizeOf_append (d : Definition) (sections more : List Measured) :
    d.sizeOf (sections ++ more) = d.sizeOf sections + Measured.total (more.map Measured.size) := by
  have sum : Measured.total ((sections ++ more).map Measured.size) =
      Measured.total (sections.map Measured.size) + Measured.total (more.map Measured.size) := by
    rw [List.map_append]
    exact List.sum_append
  rw [sizeOf, sizeOf, sum, Nat.add_assoc]

theorem Definition.sizeOf_append_singleton (d : Definition) (sections : List Measured)
    (m : Measured) : d.sizeOf (sections ++ [m]) = d.sizeOf sections + m.size :=
  d.sizeOf_append sections [m]

/-! ## Within 64 bits -/

namespace Parts

variable {share : Share} {p p' : Parts} {m : Measured}

theorem place_size_le {entry : String × Nat} (placing : (place share m p entry).Yields p') :
    p'.size ≤ p.size + entry.2 := by
  obtain ⟨q, changed, rfl⟩ := place_yields.1 placing
  refine Nat.add_le_add_right ?_ _
  split at changed
  · cases close_yields.1 changed
    exact Nat.zero_le _
  · exact changed ▸ Nat.le_refl _

theorem foldlM_place_size_le {entries : List (String × Nat)}
    (placing : (entries.foldlM (place share m) p).Yields p') :
    p'.size ≤ p.size + Measured.total (entries.map (·.2)) := by
  refine Run.foldlM_invariant
    (P := fun done q => q.size ≤ p.size + Measured.total (done.map (·.2))) ?step (Nat.le_refl _)
    placing
  intro done entry _ q q' before placing
  have sum : Measured.total ((done ++ [entry]).map (·.2)) =
      Measured.total (done.map (·.2)) + entry.2 := by
    rw [List.map_append]
    exact List.sum_append
  have next := place_size_le placing
  omega

theorem distribute_size_le (distributing : (distribute share p m).Yields p') :
    p'.size ≤ p.size + m.size := by
  unfold distribute at distributing
  split at distributing
  case h_1 =>
    cases Run.pure_yields.1 distributing
    exact Nat.le_add_right ..
  case h_5 =>
    obtain ⟨q, placing, last⟩ := Run.bind_yields.1 distributing
    cases Run.pure_yields.1 last
    rw [finishFragment_size]
    exact foldlM_place_size_le placing
  all_goals
    cases Run.pure_yields.1 distributing
    exact Nat.le_refl _

/-- No part becomes larger than what has been distributed. -/
theorem foldlM_distribute_size_le {d : Definition} {done : List Measured}
    (distributing : (done.foldlM (distribute share) d.start).Yields p) : p.size ≤ d.sizeOf done := by
  refine Run.foldlM_invariant (P := fun done q => q.size ≤ d.sizeOf done) ?step (Nat.le_refl _)
    distributing
  intro done m _ q q' before distributing
  rw [d.sizeOf_append_singleton]
  exact (distribute_size_le distributing).trans (Nat.add_le_add_right before _)

end Parts

/-- Even the largest product that may decide where a part is closed stays within 64 bits. -/
def Definition.Fits (d : Definition) (limit : Nat) (measured : List Measured) : Prop :=
  max limit 1 * (2 * d.sizeOf measured) < limit64

/-- Wherever a module is placed, both of the products that `Parts.isFull` compares are below
`limit64`. -/
theorem Definition.Fits.products {d : Definition} {limit : Nat} {measured done after : List Measured}
    {m : Measured} {before rest : List (String × Nat)} {entry : String × Nat} {p q : Parts}
    (fits : d.Fits limit measured) (cut : measured = done ++ m :: after)
    (entries : m.entries = before ++ entry :: rest) {share : Share}
    (shares : share = d.share (max limit 1) measured)
    (distributing : (done.foldlM (Parts.distribute share) d.start).Yields p)
    (placing : (before.foldlM (Parts.place share m) p).Yields q) :
    2 * share.total < limit64 ∧ share.parts * (2 * q.size + entry.2) < limit64 := by
  subst shares
  have size : m.size = Measured.total (before.map (·.2)) + (entry.2 +
      Measured.total (rest.map (·.2))) := by
    rw [Measured.size, entries, List.map_append]
    exact List.sum_append
  have whole : d.sizeOf measured =
      d.sizeOf done + (m.size + Measured.total (after.map Measured.size)) := by
    rw [cut]
    exact d.sizeOf_append ..
  have start := Parts.foldlM_distribute_size_le distributing
  have here := Parts.foldlM_place_size_le placing
  have bounded : 2 * q.size + entry.2 ≤ 2 * d.sizeOf measured := by omega
  constructor
  case left => exact (Nat.le_mul_of_pos_left _ (le_max_right limit 1)).trans_lt fits
  case right => exact (Nat.mul_le_mul_left _ bounded).trans_lt fits

/-! ## Filling parts -/

namespace Parts

variable {share : Share} {p p' : Parts} {m : Measured} {skipped : Prop}

/-- The modules of the current part, with those that are not in a section yet. -/
def held (p : Parts) : List String := p.current.contents ++ p.fragment

theorem held_finishFragment (mode : m.mode = .preload) : (p.finishFragment m).held = p.held := by
  by_cases idle : p.fragment = []
  · rw [finishFragment_of_nil idle]
  · rw [held, finishFragment_fragment, finishFragment_current idle,
      Definition.contents_withSection, Measured.explicit_mode, mode, List.append_nil]
    rfl

theorem held_addSection {s : Section} {size : Nat} (idle : p.fragment = []) :
    (p.addSection s size).held = p.held ++
      if s.mode ≠ .provided ∧ s.mode ≠ .require then s.filters else [] := by
  have fragment : (p.addSection s size).fragment = [] := idle
  have current : (p.addSection s size).current = p.current.withSection s := rfl
  rw [held, held, fragment, current, idle, Definition.contents_withSection, List.append_nil,
    List.append_nil]

/-- What putting a module into parts does: the current part gets it, or is closed and the next one
gets it. -/
theorem place_held {entry : String × Nat} (mode : m.mode = .preload)
    (placing : (place share m p entry).Yields p') :
    (p.isFull share entry.2 ∧ p'.held = [entry.1] ∧
        ∃ part, p'.closed = p.closed ++ [part] ∧ part.contents = p.held) ∨
      (¬p.isFull share entry.2 ∧ p'.held = p.held ++ [entry.1] ∧ p'.closed = p.closed) := by
  obtain ⟨q, changed, rfl⟩ := place_yields.1 placing
  split at changed
  · rename_i full
    cases close_yields.1 changed
    refine .inl ⟨full, rfl, (p.finishFragment m).current, ?_, ?_⟩
    · rw [all, finishFragment_closed]
    · rw [← held_finishFragment mode, held, finishFragment_fragment, List.append_nil]
  · rename_i room
    subst changed
    exact .inr ⟨room, (List.append_assoc ..).symm, rfl⟩

/-! ### Before the first preload module -/

/-- The sections `done` have been distributed, and none of them preloads a module. -/
structure Waiting (d : Definition) (done : List Measured) (p : Parts) : Prop where
  closed : p.closed = []
  idle : p.fragment = []
  size : p.size = d.sizeOf done
  held : p.held = done.flatMap Measured.contents

theorem start_waiting (d : Definition) : d.start.Waiting d [] := ⟨rfl, rfl, rfl, rfl⟩

theorem Waiting.skip {d : Definition} {done : List Measured} (h : p.Waiting d done)
    (nothing : m.entries = []) : p.Waiting d (done ++ [m]) := by
  have modules : m.contents = [] := by simp [Measured.contents, Measured.modules, nothing]
  have size : m.size = 0 := by rw [Measured.size, nothing]; rfl
  refine ⟨h.closed, h.idle, ?_, ?_⟩
  · rw [h.size, Definition.sizeOf_append_singleton, size, Nat.add_zero]
  · rw [h.held, List.flatMap_append, List.flatMap_singleton, modules, List.append_nil]

theorem Waiting.addSection {d : Definition} {done : List Measured} (h : p.Waiting d done)
    (shown : m.mode ≠ .provided) :
    (p.addSection (m.explicit m.modules) m.size).Waiting d (done ++ [m]) := by
  refine ⟨h.closed, h.idle, ?_, ?_⟩
  · have added : (p.addSection (m.explicit m.modules) m.size).size = p.size + m.size := rfl
    rw [added, h.size, Definition.sizeOf_append_singleton]
  · rw [held_addSection h.idle, h.held, List.flatMap_append, List.flatMap_singleton,
      Measured.explicit_mode, Measured.contents]
    by_cases require : m.mode = .require
    · simp [require]
    · simp [require, shown, Measured.explicit]

theorem Waiting.distribute {d : Definition} {done : List Measured} (h : p.Waiting d done)
    (provided : m.mode = .provided → m.entries = []) (idle : m.mode = .preload → m.entries = [])
    (distributing : (distribute share p m).Yields p') : p'.Waiting d (done ++ [m]) := by
  unfold Parts.distribute at distributing
  split at distributing
  case h_1 mode =>
    cases Run.pure_yields.1 distributing
    exact h.skip (provided mode)
  case h_5 mode =>
    rw [idle mode] at distributing
    cases Run.pure_yields.1 distributing
    rw [finishFragment_of_nil h.idle]
    exact h.skip (idle mode)
  all_goals
    rename_i mode
    cases Run.pure_yields.1 distributing
    exact h.addSection (by simp [mode])

theorem foldlM_waiting {d : Definition} {before : List Measured}
    (provided : ∀ m ∈ before, m.mode = .provided → m.entries = [])
    (idle : ∀ m ∈ before, m.mode = .preload → m.entries = [])
    (distributing : (before.foldlM (Parts.distribute share) d.start).Yields p) :
    p.Waiting d before := by
  refine Run.foldlM_invariant (P := fun done q => q.Waiting d done) ?step (start_waiting d)
    distributing
  intro done m hm q q' waiting distributing
  exact waiting.distribute (provided m hm) (idle m hm) distributing

/-! ### From the first preload module on -/

/-- Every closed part has modules, apart from the first if it was skipped. The current part has
modules, and it is not the skipped one. -/
structure Peopled (skipped : Prop) (p : Parts) : Prop where
  closed : ∀ (i : Nat) (part : Definition), p.closed[i]? = some part →
    (part.contents = [] ↔ i = 0 ∧ skipped)
  reached : skipped → p.closed ≠ []
  current : p.held ≠ []

/-- The first module of all closes the first part or joins what stands there. -/
theorem Waiting.place {d : Definition} {before : List Measured} (h : p.Waiting d before)
    {entry : String × Nat} (mode : m.mode = .preload)
    (placing : (place share m p entry).Yields p') :
    p'.Peopled (p.isFull share entry.2 ∧ p.held = []) := by
  rcases place_held mode placing with ⟨full, held, part, closed, contents⟩ | ⟨room, held, closed⟩
  · rw [h.closed] at closed
    refine ⟨fun i part' hi => ?_, fun _ => by simp [closed], by simp [held]⟩
    rw [closed] at hi
    rcases getElem?_append_singleton_eq_some.1 hi with hi | ⟨rfl, rfl⟩
    · cases hi
    · simp [contents, full]
  · rw [h.closed] at closed
    refine ⟨fun i part hi => ?_, fun skipped => absurd skipped.1 room, by simp [held]⟩
    rw [closed] at hi
    cases hi

/-- Held modules make a part that is not the skipped one. -/
theorem Peopled.settled (h : p.Peopled skipped) {part : Definition}
    (contents : part.contents = p.held) : part.contents = [] ↔ p.closed.length = 0 ∧ skipped := by
  rw [contents, List.length_eq_zero_iff]
  exact iff_of_false h.current fun ⟨unclosed, skipped⟩ => h.reached skipped unclosed

theorem Peopled.place (h : p.Peopled skipped) {entry : String × Nat} (mode : m.mode = .preload)
    (placing : (place share m p entry).Yields p') : p'.Peopled skipped := by
  rcases place_held mode placing with ⟨_, held, part, closed, contents⟩ | ⟨_, held, closed⟩
  · refine ⟨fun i part' hi => ?_, fun _ => by simp [closed], by simp [held]⟩
    rw [closed] at hi
    rcases getElem?_append_singleton_eq_some.1 hi with hi | ⟨rfl, rfl⟩
    · exact h.closed i part' hi
    · exact h.settled contents
  · exact ⟨closed ▸ h.closed, closed ▸ h.reached, by simp [held]⟩

theorem Peopled.finishFragment (h : p.Peopled skipped) (mode : m.mode = .preload) :
    (p.finishFragment m).Peopled skipped := by
  refine ⟨?_, ?_, ?_⟩
  · rw [finishFragment_closed]
    exact h.closed
  · rw [finishFragment_closed]
    exact h.reached
  · rw [held_finishFragment mode]
    exact h.current

theorem Peopled.addSection (h : p.Peopled skipped) (idle : p.fragment = []) (s : Section)
    (size : Nat) : (p.addSection s size).Peopled skipped := by
  refine ⟨h.closed, h.reached, ?_⟩
  rw [held_addSection idle]
  exact List.append_ne_nil_of_left_ne_nil h.current _

theorem Peopled.foldlM_place (h : p.Peopled skipped) (mode : m.mode = .preload)
    {entries : List (String × Nat)} (placing : (entries.foldlM (Parts.place share m) p).Yields p') :
    p'.Peopled skipped := by
  refine Run.foldlM_invariant (P := fun _ q => q.Peopled skipped) ?step h placing
  intro _ entry _ q q' peopled placing
  exact peopled.place mode placing

theorem Peopled.distribute (h : p.Peopled skipped) (idle : p.fragment = [])
    (distributing : (distribute share p m).Yields p') : p'.Peopled skipped ∧ p'.fragment = [] := by
  unfold Parts.distribute at distributing
  split at distributing
  case h_1 mode =>
    cases Run.pure_yields.1 distributing
    exact ⟨h, idle⟩
  case h_5 mode =>
    obtain ⟨q, placing, last⟩ := Run.bind_yields.1 distributing
    cases Run.pure_yields.1 last
    exact ⟨(h.foldlM_place mode placing).finishFragment mode, finishFragment_fragment⟩
  all_goals
    cases Run.pure_yields.1 distributing
    exact ⟨h.addSection idle _ _, idle⟩

/-- The section that begins with the first module of all. -/
theorem Waiting.distribute_preload {d : Definition} {before : List Measured}
    (h : p.Waiting d before) {first : String × Nat} (mode : m.mode = .preload)
    (head : m.entries.head? = some first)
    (distributing : (Parts.distribute share p m).Yields p') :
    p'.Peopled (p.isFull share first.2 ∧ p.held = []) ∧ p'.fragment = [] := by
  obtain ⟨later, entries⟩ := List.head?_eq_some_iff.1 head
  unfold Parts.distribute at distributing
  rw [mode] at distributing
  obtain ⟨q', placing, last⟩ := Run.bind_yields.1 distributing
  cases Run.pure_yields.1 last
  rw [entries, List.foldlM_cons] at placing
  obtain ⟨q, placed, placing⟩ := Run.bind_yields.1 placing
  exact ⟨((h.place mode placed).foldlM_place mode placing).finishFragment mode,
    finishFragment_fragment⟩

/-- What it takes to skip the first part. -/
theorem Waiting.skips_iff {d : Definition} {before measured : List Measured} {limit size : Nat}
    (h : p.Waiting d before) :
    p.isFull (d.share limit measured) size ∧ p.held = [] ↔
      d.Skips limit measured before size := by
  have hollow : p.held = [] ↔ ∀ m ∈ before, m.mode ≠ .require → m.entries = [] := by
    rw [h.held, List.flatMap_eq_nil_iff]
    refine forall₂_congr fun m _ => ?_
    by_cases require : m.mode = .require <;>
      simp [Measured.contents, Measured.modules, require]
  have full : p.isFull (d.share limit measured) size ↔
      1 < limit ∧ 2 * d.sizeOf measured < limit * (2 * d.sizeOf before + size) := by
    rw [isFull, Bool.and_eq_true, decide_eq_true_eq, decide_eq_true_eq, h.size, h.closed]
    rfl
  rw [full, hollow]
  constructor
  · rintro ⟨⟨several, large⟩, hollow⟩
    exact ⟨hollow, several, large⟩
  · rintro ⟨hollow, several, large⟩
    exact ⟨⟨several, large⟩, hollow⟩

theorem Peopled.foldlM_distribute (h : p.Peopled skipped) (idle : p.fragment = [])
    {measured : List Measured}
    (distributing : (measured.foldlM (Parts.distribute share) p).Yields p') :
    p'.Peopled skipped ∧ p'.fragment = [] := by
  refine Run.foldlM_invariant (P := fun _ q => q.Peopled skipped ∧ q.fragment = []) ?step
    ⟨h, idle⟩ distributing
  rintro _ m _ q q' ⟨peopled, idle⟩ distributing
  exact peopled.distribute idle distributing

theorem foldlM_distribute_opening {d : Definition} {before after : List Measured}
    {first : String × Nat} (provided : ∀ m ∈ before, m.mode = .provided → m.entries = [])
    (idle : ∀ m ∈ before, m.mode = .preload → m.entries = []) (mode : m.mode = .preload)
    (head : m.entries.head? = some first)
    (distributing : ((before ++ m :: after).foldlM (Parts.distribute share) d.start).Yields p) :
    ∃ q : Parts, q.Waiting d before ∧ p.Peopled (q.isFull share first.2 ∧ q.held = []) ∧
      p.fragment = [] := by
  rw [List.foldlM_append] at distributing
  obtain ⟨q, earlier, distributing⟩ := Run.bind_yields.1 distributing
  rw [List.foldlM_cons] at distributing
  obtain ⟨_, opening, later⟩ := Run.bind_yields.1 distributing
  have waiting := foldlM_waiting provided idle earlier
  obtain ⟨peopled, idle⟩ := waiting.distribute_preload mode head opening
  exact ⟨q, waiting, peopled.foldlM_distribute idle later⟩

/-- Each part has modules, apart from the first if it was skipped. -/
theorem Peopled.contents_eq_nil_iff (h : p.Peopled skipped) (idle : p.fragment = []) {i : Nat}
    {part : Definition} (hp : p.all[i]? = some part) : part.contents = [] ↔ i = 0 ∧ skipped := by
  rcases getElem?_append_singleton_eq_some.1 hp with hp | ⟨rfl, rfl⟩
  · exact h.closed i part hp
  · apply h.settled
    rw [held, idle, List.append_nil]

end Parts

/-! ## Main statement -/

namespace Definition

theorem IsSplit.configuration_eq {limit : Nat} {configuration : Option Configuration}
    {sections : List ResolvedSection} {parts : List Definition}
    (h : IsSplit limit configuration sections parts) {i : Nat} {part : Definition}
    (hp : parts[i]? = some part) :
    part.configuration = if i = 0 then configuration else none := by
  have get : (parts.map (·.configuration))[i]? = some part.configuration := by
    rw [List.getElem?_map, hp]
    rfl
  rw [h.configured] at get
  cases i with
  | zero => exact (Option.some.inj get).symm
  | succ i => exact List.eq_of_mem_replicate (List.mem_of_getElem? get)

theorem contents_foldl_withMissing (d : Definition) (sections : List ResolvedSection) :
    ((ResolvedSection.requires sections).foldl withMissing d).contents = d.contents := by
  apply contents_congr
  exact foldl_withMissing_filter fun s hs => ResolvedSection.mode_of_mem_requires hs

theorem distribute_contents {d : Definition} {limit : Nat} {measured before : List Measured}
    {first : String × Nat} {parts : List Definition}
    (h : (d.distribute (max limit 1) measured).Yields parts)
    (provided : ∀ m ∈ measured, m.mode = .provided → m.entries = [])
    (opening : Measured.Opening measured before first) {i : Nat} {part : Definition}
    (hp : parts[i]? = some part) :
    part.contents = [] ↔ i = 0 ∧ d.Skips limit measured before first.2 := by
  obtain ⟨p, filling, rfl⟩ := distribute_yields.1 h
  rw [List.getElem?_map, Option.map_eq_some_iff] at hp
  obtain ⟨filled, hp, rfl⟩ := hp
  obtain ⟨⟨m, after, rfl, mode, head⟩, idle⟩ := opening
  obtain ⟨q, waiting, peopled, settled⟩ := Parts.foldlM_distribute_opening
    (fun m hm => provided m (List.mem_append_left _ hm)) idle mode head filling
  rw [contents_foldl_withMissing, peopled.contents_eq_nil_iff settled hp, waiting.skips_iff,
    skips_max]

/-- **Only the first part may be left empty.** If a preload section has a module, then each part has
the configuration or a module in a section that is distributed, apart from one case: the first part
has neither if there is no configuration, the sections before the first preload module have only
modules to be required, more than one part may be made, and half of that module lies beyond a
share. All this as long as no product of sizes and parts leaves 64 bits. -/
theorem split_vacant {d : Definition} {source : Source} {ignoreMissing : Bool} {limit : Nat}
    {parts : List Definition} {r : Resolved} (h : (d.split source ignoreMissing limit).Yields parts)
    (resolved : (d.resolve source.pool ignoreMissing).Yields r)
    (preloads : ∃ s ∈ r.sections, s.mode = .preload ∧ s.modules ≠ []) :
    ∃ measured before first, (r.sections.mapM (Measured.ofSection source)).Yields measured ∧
      Measured.Opening measured before first ∧
      (d.Fits limit measured → ∀ (i : Nat) (part : Definition), parts[i]? = some part →
        (part.Vacant ↔
          i = 0 ∧ d.configuration = none ∧ d.Skips limit measured before first.2)) := by
  obtain ⟨_, _, split⟩ := split_isSplit h
  obtain ⟨r', again, h⟩ := Run.bind_yields.1 h
  cases resolved.unique again
  obtain ⟨measured, measuring, distributing⟩ := Run.bind_yields.1 h
  obtain ⟨before, first, opening⟩ :=
    Measured.exists_opening (Measured.exists_preload measuring preloads)
  refine ⟨measured, before, first, measuring, opening, fun _ i part hp => ?_⟩
  have configuration := split.configuration_eq hp
  have contents :=
    distribute_contents distributing (Measured.mapM_provided measuring) opening hp
  constructor
  · rintro ⟨bare, empty⟩
    obtain ⟨rfl, skips⟩ := contents.1 empty
    exact ⟨rfl, configuration.symm.trans bare, skips⟩
  · rintro ⟨rfl, bare, skips⟩
    exact ⟨configuration.trans bare, contents.2 ⟨rfl, skips⟩⟩

end Definition

/-! ## A single module in three parts -/

namespace Lone

def module : String := "app/main.js"

def resources : List Resource := [{ name := module, content := [109, 97, 105, 110, 40, 41, 59] }]

def pool : Pool := .ofResources resources

def app : Section := { filters := [module] }

def definition : Definition := { sections := [app] }

def resolved : Resolved := ⟨definition, [⟨app, [module]⟩]⟩

theorem resolves : (definition.resolve pool true).Yields resolved := by
  have keeps (name : String) : pool.Keeps name := Pool.keeps_of_bare (by decide) name
  have enumerates : app.Enumerates pool :=
    ⟨rfl, rfl, fun _ => rfl, by decide, by decide, by decide, by decide, fun name _ => keeps name,
      by decide, by decide⟩
  have picks : (app.listing pool true).picks = [module] := by decide +kernel
  rw [resolved, ← picks]
  apply Definition.resolve_alone rfl enumerates.search rfl rfl fun _ => rfl
  intro name _ _
  exact keeps name

def measured : List Measured := [⟨app, [(module, 7)]⟩]

theorem measures : (resolved.sections.mapM (Measured.ofSection { pool })).Yields measured := rfl

/-- A third of the seven bytes is less than half of them. -/
theorem splits : ∃ parts, (definition.split { pool } true 3).Yields parts ∧
    parts.map (·.configuration.isSome) = [false, false] ∧
    parts.map (·.sections) = [[], [{ filters := [module] }]] := by
  have cut : ∃ parts, (definition.distribute 3 measured).Yields parts ∧
      parts.map (·.configuration.isSome) = [false, false] ∧
      parts.map (·.sections) = [[], [{ filters := [module] }]] := ⟨_, rfl, rfl, rfl⟩
  obtain ⟨parts, distributed, sections⟩ := cut
  exact ⟨parts, Run.bind_yields.2 ⟨_, resolves, Run.bind_yields.2 ⟨_, measures, distributed⟩⟩,
    sections⟩

theorem preloads : ∃ s ∈ resolved.sections, s.mode = .preload ∧ s.modules ≠ [] :=
  ⟨⟨app, [module]⟩, by decide, rfl, by decide⟩

theorem second_part_filled : (∃ s ∈ resolved.sections, s.mode = .preload ∧ s.modules ≠ []) ∧
    definition.Fits 3 measured ∧ ∃ parts part, (definition.split { pool } true 3).Yields parts ∧
      parts[1]? = some part ∧ ¬part.Vacant := by
  obtain ⟨parts, split, _, sections⟩ := splits
  have length : parts.length = 2 := by simpa using congrArg List.length sections
  have bound : 1 < parts.length := by omega
  obtain ⟨_, _, _, measuring, _, vacant⟩ := Definition.split_vacant split resolves preloads
  cases measures.unique measuring
  have fits : definition.Fits 3 measured := by
    unfold Definition.Fits
    decide
  have second := List.getElem?_eq_getElem bound
  refine ⟨preloads, fits, parts, parts[1], split, second, fun empty => ?_⟩
  -- only the first part could be skipped
  exact Nat.one_ne_zero ((vacant fits 1 _ second).1 empty).1

/-- The module goes into the second part, and nothing into the first. -/
theorem first_part_vacant : (definition.resolve pool true).Yields resolved ∧
    (∃ s ∈ resolved.sections, s.mode = .preload ∧ s.modules ≠ []) ∧
    ∃ parts part, (definition.split { pool } true 3).Yields parts ∧ parts[0]? = some part ∧
      part.Vacant := by
  obtain ⟨parts, split, bare, sections⟩ := splits
  obtain ⟨first, later, rfl⟩ : ∃ first later, parts = [first, later] := by
    have length : parts.length = 2 := by simpa using congrArg List.length sections
    exact List.length_eq_two.1 length
  have bare : first.configuration.isSome = false := (List.cons.inj bare).1
  have nothing : first.sections = [] := (List.cons.inj sections).1
  refine ⟨resolves, preloads, [first, later], first, split, rfl, by simpa using bare, ?_⟩
  rw [Definition.contents, nothing]
  rfl

end Lone

end Bundler
