import Bundler.Proofs.Parts
import Mathlib.Algebra.BigOperators.Ring.Finset
import Mathlib.Algebra.Order.BigOperators.Group.List
import Mathlib.Algebra.Order.Field.Rat
import Mathlib.Tactic.Linarith
import Mathlib.Tactic.Ring

/-!
# The sizes of parts

A part is closed before a module that would lie beyond its share by more than half. So the size of a
closed part differs from its share by at most half of the largest module, unless the part is a
single module. The last part takes what the others leave: `split_balanced`.
-/

namespace Bundler

/-- The estimated size of a module, or 0 where the estimate fails. -/
def Source.estimate (source : Source) (module : String) : Nat :=
  match (source.size module).result with
  | .ok size => size
  | .error _ => 0

/-- The estimated size of all modules that a definition lists. -/
def Definition.estimate (source : Source) (d : Definition) : Nat :=
  ((d.sections.flatMap (·.filters)).map source.estimate).sum

/-- The modules of the preload sections. -/
def ResolvedSection.preloads (sections : List ResolvedSection) : List String :=
  (sections.filter (·.mode = .preload)).flatMap (·.modules)

/-- The estimated sizes of these modules. -/
def Resolved.sizes (source : Source) (r : Resolved) : List Nat :=
  (ResolvedSection.preloads r.sections).map source.estimate

/-- What a part may reach, unless it is the last one that is allowed. -/
def sizeLimit (mean : ℚ) (largest : Nat) : ℚ := max largest (mean + largest / 2)

theorem sizeLimit_nonneg (mean : ℚ) (largest : Nat) : 0 ≤ sizeLimit mean largest :=
  (Nat.cast_nonneg largest).trans (le_max_left _ _)

/-- The sizes of parts of which `limit` were asked for. -/
structure Balanced (limit : Nat) (mean : ℚ) (largest : Nat) (sizes : List Nat) : Prop where
  closed : ∀ size ∈ sizes.dropLast, mean - largest / 2 < size ∧ size ≤ sizeLimit mean largest
  last : ∃ size ∈ sizes.getLast?, size ≤
    if sizes.length = limit then mean + (limit - 1) * (largest / 2) else sizeLimit mean largest

theorem Definition.estimate_withSection (source : Source) (d : Definition) (s : Section) :
    (d.withSection s).estimate source =
      d.estimate source + (s.filters.map source.estimate).sum := by
  simp [estimate, withSection]

theorem Source.estimate_of_yields {source : Source} {module : String} {size : Nat}
    (h : (source.size module).Yields size) : source.estimate module = size := by
  rw [estimate, h]

/-! ## Measured modules -/

namespace Measured

variable {source : Source} {m : Measured} {s : ResolvedSection}

/-- A preload section with what its modules are estimated to have, or a provided one. -/
structure Exact (source : Source) (m : Measured) : Prop where
  mode : m.mode = .preload ∨ m.mode = .provided ∧ m.entries = []
  sizes : ∀ entry ∈ m.entries, entry.2 = source.estimate entry.1

theorem Exact.mode_ne (h : m.Exact source) : m.mode ≠ .require := by
  rcases h.mode with mode | ⟨mode, _⟩ <;> simp [mode]

theorem mapM_estimates {modules : List String} {entries : List (String × Nat)}
    (h : (modules.mapM fun module => return (module, ← source.size module)).Yields entries) :
    (∀ module ∈ modules, (source.size module).Yields (source.estimate module)) ∧
      entries = modules.map fun module => (module, source.estimate module) := by
  have each := Run.mapM_yields.1 h
  clear h
  induction each with
  | nil => simp
  | cons first _ ih =>
    obtain ⟨size, measured, last⟩ := Run.bind_yields.1 first
    cases Run.pure_yields.1 last
    have same := Source.estimate_of_yields measured
    rw [← same] at measured ⊢
    exact ⟨List.forall_mem_cons.2 ⟨measured, ih.1⟩, congrArg _ ih.2⟩

theorem ofSection_exact (mode : s.mode = .preload ∨ s.mode = .provided)
    (h : (ofSection source s).Yields m) :
    m.Exact source ∧ m.entries.map (·.2) =
        (ResolvedSection.preloads [s]).map source.estimate ∧
      ∀ module ∈ ResolvedSection.preloads [s],
        (source.size module).Yields (source.estimate module) := by
  obtain ⟨entries, measured, last⟩ := Run.bind_yields.1 h
  cases Run.pure_yields.1 last
  unfold entriesOf at measured
  rcases mode with mode | mode
  · rw [mode] at measured
    obtain ⟨each, rfl⟩ := mapM_estimates measured
    have modules : ResolvedSection.preloads [s] = s.modules := by
      simp [ResolvedSection.preloads, mode]
    rw [modules]
    refine ⟨⟨.inl mode, ?_⟩, ?_, each⟩
    · simp
    · simp
  · rw [mode] at measured
    cases Run.pure_yields.1 measured
    have modules : ResolvedSection.preloads [s] = [] := by
      simp [ResolvedSection.preloads, mode]
    rw [modules]
    exact ⟨⟨.inr ⟨mode, rfl⟩, by simp⟩, rfl, by simp⟩

theorem mapM_exact {sections : List ResolvedSection} {measured : List Measured}
    (modes : ∀ s ∈ sections, s.mode = .preload ∨ s.mode = .provided)
    (h : (sections.mapM (ofSection source)).Yields measured) :
    (∀ m ∈ measured, m.Exact source) ∧
      measured.flatMap (·.entries.map (·.2)) =
        (ResolvedSection.preloads sections).map source.estimate ∧
      ∀ module ∈ ResolvedSection.preloads sections,
        (source.size module).Yields (source.estimate module) := by
  have each := Run.mapM_yields.1 h
  clear h
  induction each with
  | nil => simp [ResolvedSection.preloads]
  | @cons s m rest _ first _ ih =>
    obtain ⟨mode, modes⟩ := List.forall_mem_cons.1 modes
    obtain ⟨exact, sizes, yields⟩ := ofSection_exact mode first
    obtain ⟨others, rest_sizes, rest_yields⟩ := ih modes
    have modules : ResolvedSection.preloads (s :: rest) =
        ResolvedSection.preloads [s] ++ ResolvedSection.preloads rest := by
      rw [ResolvedSection.preloads, ← List.singleton_append, List.filter_append,
        List.flatMap_append]
      rfl
    rw [modules, List.flatMap_cons, List.map_append, sizes, rest_sizes]
    exact ⟨List.forall_mem_cons.2 ⟨exact, others⟩, rfl,
      List.forall_mem_append.2 ⟨yields, rest_yields⟩⟩

end Measured

/-- The size of each part if all had the same. -/
def Share.mean (share : Share) : ℚ := share.total / share.parts

/-! ## Parts while they are filled -/

namespace Parts

variable {source : Source} {share : Share} {p p' : Parts} {m : Measured} {largest placed : Nat}

/-- A part is full for a module if half of the module would lie beyond the mean. -/
theorem isFull_iff (positive : 0 < share.parts) {size : Nat} : p.isFull share size ↔
    p.closed.length + 1 < share.parts ∧ share.mean < p.size + (size : ℚ) / 2 := by
  unfold isFull
  rw [Bool.and_eq_true, decide_eq_true_eq, decide_eq_true_eq]
  refine and_congr_right fun _ => ?_
  have positive : (0 : ℚ) < share.parts := by exact_mod_cast positive
  rw [Share.mean, div_lt_iff₀ positive, ← Nat.cast_lt (α := ℚ)]
  push_cast
  constructor <;> intro beyond <;> linarith

/-- Modules of size `placed` are in the parts. The closed ones are within their bounds, and the
current one has not outgrown the limit as long as it may still be closed. -/
structure Fair (source : Source) (share : Share) (largest placed : Nat) (p : Parts) : Prop where
  size : p.size = p.current.estimate source + (p.fragment.map source.estimate).sum
  total : (p.closed.map (·.estimate source)).sum + p.size = placed
  closed : ∀ part ∈ p.closed, share.mean - (largest : ℚ) / 2 < part.estimate source ∧
    (part.estimate source : ℚ) ≤ sizeLimit share.mean largest
  current : p.closed.length + 1 < share.parts → (p.size : ℚ) ≤ sizeLimit share.mean largest

theorem start_fair {d : Definition} (bare : d.configuration = none) :
    d.start.Fair source share largest 0 := by
  have size : d.start.size = 0 := by rw [Definition.start, bare, configurationSize]
  refine ⟨size, (Nat.zero_add _).trans size, fun part hp => absurd hp List.not_mem_nil, fun _ => ?_⟩
  rw [size, Nat.cast_zero]
  exact sizeLimit_nonneg share.mean largest

theorem Fair.finishFragment (h : p.Fair source share largest placed) :
    (p.finishFragment m).Fair source share largest placed := by
  by_cases idle : p.fragment = []
  · rwa [finishFragment_of_nil idle]
  · obtain ⟨size, total, closed, current⟩ := h
    rw [← finishFragment_closed (m := m)] at total closed current
    rw [← finishFragment_size (m := m)] at size total current
    refine ⟨?_, total, closed, current⟩
    rw [size, finishFragment_current idle, finishFragment_fragment,
      Definition.estimate_withSection]
    rfl

theorem Fair.close (h : p.Fair source share largest placed) (idle : p.fragment = [])
    (room : p.closed.length + 1 < share.parts) (beyond : share.mean - (largest : ℚ) / 2 < p.size)
    (closing : (p.close share).Yields p') : p'.Fair source share largest placed ∧ p'.size = 0 := by
  cases close_yields.1 closing
  have size : p.size = p.current.estimate source := by simpa [idle] using h.size
  refine ⟨⟨rfl, ?total, ?closed, ?current⟩, rfl⟩
  case total => simpa [all, size] using h.total
  case closed =>
    refine List.forall_mem_append.2 ⟨h.closed, List.forall_mem_singleton.2 ?_⟩
    rw [← size]
    exact ⟨beyond, h.current room⟩
  case current =>
    intro _
    exact_mod_cast sizeLimit_nonneg share.mean largest

/-- A module is put into the current part. -/
theorem Fair.add (h : p.Fair source share largest placed) (name : String)
    (fits : p.closed.length + 1 < share.parts →
      (p.size + source.estimate name : ℚ) ≤ sizeLimit share.mean largest) :
    Fair source share largest (placed + source.estimate name)
      { p with fragment := p.fragment ++ [name], size := p.size + source.estimate name } := by
  refine ⟨?size, ?total, h.closed, ?current⟩
  case size => simp [h.size, Nat.add_assoc]
  case total => rw [← h.total, Nat.add_assoc]
  case current => simpa using fits

theorem Fair.place (positive : 0 < share.parts) {entry : String × Nat}
    (exact : entry.2 = source.estimate entry.1) (small : entry.2 ≤ largest)
    (h : p.Fair source share largest placed) (placing : (place share m p entry).Yields p') :
    p'.Fair source share largest (placed + entry.2) := by
  obtain ⟨q, changed, rfl⟩ := place_yields.1 placing
  have small : (entry.2 : ℚ) ≤ largest := by exact_mod_cast small
  rw [exact] at changed small ⊢
  split at changed
  · rename_i full
    obtain ⟨room, beyond⟩ := (isFull_iff positive).1 full
    rw [← finishFragment_closed (m := m)] at room
    have beyond : share.mean - (largest : ℚ) / 2 < (p.finishFragment m).size := by
      rw [finishFragment_size]
      linarith
    obtain ⟨fair, empty⟩ := h.finishFragment.close finishFragment_fragment room beyond changed
    refine fair.add entry.1 fun _ => ?_
    -- the first module of a part is put there whatever its size
    rw [empty, Nat.cast_zero, zero_add]
    exact small.trans (le_max_left _ _)
  · rename_i notFull
    subst changed
    refine h.add entry.1 fun room => ?_
    have below : ¬share.mean < p.size + (source.estimate entry.1 : ℚ) / 2 := fun beyond =>
      notFull ((isFull_iff positive).2 ⟨room, beyond⟩)
    have fits : (p.size + source.estimate entry.1 : ℚ) ≤ share.mean + (largest : ℚ) / 2 := by
      linarith
    exact fits.trans (le_max_right _ _)

theorem Fair.distribute (positive : 0 < share.parts) (exact : m.Exact source)
    (small : ∀ size ∈ m.entries.map (·.2), size ≤ largest)
    (h : p.Fair source share largest placed) (idle : p.fragment = [])
    (distributing : (distribute share p m).Yields p') :
    p'.Fair source share largest (placed + (m.entries.map (·.2)).sum) ∧ p'.fragment = [] := by
  unfold Parts.distribute at distributing
  rcases exact.mode with mode | ⟨mode, nothing⟩
  · rw [mode] at distributing
    obtain ⟨q, placing, last⟩ := Run.bind_yields.1 distributing
    cases Run.pure_yields.1 last
    have fair : q.Fair source share largest (placed + (m.entries.map (·.2)).sum) := by
      refine Run.foldlM_invariant
        (P := fun done q => q.Fair source share largest (placed + (done.map (·.2)).sum))
        ?step h placing
      intro done entry hm q q' fair placing
      have small := small entry.2 (List.mem_map_of_mem hm)
      have next := fair.place positive (exact.sizes entry hm) small placing
      rwa [List.map_append, List.sum_append, List.map_singleton, List.sum_singleton,
        ← Nat.add_assoc]
    exact ⟨fair.finishFragment, finishFragment_fragment⟩
  · rw [mode] at distributing
    cases Run.pure_yields.1 distributing
    rw [nothing]
    exact ⟨h, idle⟩

theorem foldlM_distribute_fair (positive : 0 < share.parts) {measured : List Measured}
    (exact : ∀ m ∈ measured, m.Exact source)
    (small : ∀ size ∈ measured.flatMap (·.entries.map (·.2)), size ≤ largest)
    (h : p.Fair source share largest 0) (idle : p.fragment = [])
    (distributing : (measured.foldlM (Parts.distribute share) p).Yields p') :
    p'.Fair source share largest (measured.flatMap (·.entries.map (·.2))).sum ∧
      p'.fragment = [] := by
  refine Run.foldlM_invariant
    (P := fun done q => q.Fair source share largest (done.flatMap (·.entries.map (·.2))).sum ∧
      q.fragment = [])
    ?step ⟨h, idle⟩ distributing
  rintro done m hm q q' ⟨fair, idle⟩ distributing
  rw [List.flatMap_append, List.sum_append, List.flatMap_singleton]
  exact fair.distribute positive (exact m hm)
    (fun size hs => small size (List.mem_flatMap.2 ⟨m, hm, hs⟩)) idle distributing

theorem Fair.sum_closed (h : p.Fair source share largest placed) :
    (p.closed.length : ℚ) * (share.mean - (largest : ℚ) / 2) ≤
      (p.closed.map (·.estimate source)).sum := by
  have least := List.card_nsmul_le_sum (p.closed.map fun part => (part.estimate source : ℚ))
    (share.mean - (largest : ℚ) / 2) (List.forall_mem_map.2 fun part hp => (h.closed part hp).1.le)
  rw [List.length_map, nsmul_eq_mul] at least
  rwa [Nat.cast_list_sum, List.map_map]

/-- The last part has what the others leave. -/
theorem Fair.last (positive : 0 < share.parts) (h : p.Fair source share largest share.total)
    (full : p.closed.length + 1 = share.parts) :
    (p.size : ℚ) ≤ share.mean + (share.parts - 1) * ((largest : ℚ) / 2) := by
  have whole : share.parts * share.mean = share.total :=
    mul_div_cancel₀ _ (Nat.cast_ne_zero.2 positive.ne')
  have total := congrArg (Nat.cast : ℕ → ℚ) h.total
  rw [Nat.cast_add] at total
  have others := h.sum_closed
  have count : (p.closed.length : ℚ) = share.parts - 1 := by
    rw [← full]
    push_cast
    ring
  rw [count] at others
  linarith

theorem Fair.balanced (positive : 0 < share.parts) (bounded : p.all.length ≤ share.parts)
    (h : p.Fair source share largest share.total) (idle : p.fragment = []) :
    (p.all.map (·.estimate source)).sum = share.total ∧
      Balanced share.parts share.mean largest (p.all.map (·.estimate source)) := by
  have size : p.current.estimate source = p.size := by simpa [idle] using h.size.symm
  have sizes : p.all.map (·.estimate source) =
      p.closed.map (·.estimate source) ++ [p.size] := by
    rw [all, List.map_append, List.map_singleton, size]
  have length : p.all.length = p.closed.length + 1 := by simp [all]
  rw [length] at bounded
  refine ⟨by simpa [sizes] using h.total, ?closed, ?last⟩
  case closed =>
    rw [sizes, List.dropLast_concat]
    exact List.forall_mem_map.2 h.closed
  case last =>
    rw [List.length_map, length]
    refine ⟨p.size, by simp [sizes], ?_⟩
    split
    · exact h.last positive ‹_›
    · exact h.current (by omega)

end Parts

/-! ## Main statement -/

theorem Measured.total_sizes (measured : List Measured) :
    total (measured.map size) = (measured.flatMap (·.entries.map (·.2))).sum := by
  induction measured with
  | nil => rfl
  | cons m rest ih =>
    rw [List.flatMap_cons, List.sum_append, ← ih]
    rfl

/-- **Parts are balanced.** If a definition without configuration has only preload and provided
sections, then the sizes of its parts sum up to the size of all modules. Each part but the last one
differs from its share by at most half of the largest module, or is at most as large as that module.
The last part, if it is the last one allowed, exceeds its share by at most half of the largest
module for each of the others. -/
theorem Definition.split_balanced {d : Definition} {source : Source} {ignoreMissing : Bool}
    {limit : Nat} {parts : List Definition} {r : Resolved}
    (h : (d.split source ignoreMissing limit).Yields parts)
    (resolved : (d.resolve source.pool ignoreMissing).Yields r)
    (bare : d.configuration = none)
    (preloads : ∀ s ∈ d.sections, s.mode = .preload ∨ s.mode = .provided) (positive : 1 ≤ limit) :
    (∀ module ∈ ResolvedSection.preloads r.sections,
        (source.size module).Yields (source.estimate module)) ∧
      (parts.map (·.estimate source)).sum = (r.sizes source).sum ∧
      Balanced limit ((r.sizes source).sum / limit) ((r.sizes source).max?.getD 0)
        (parts.map (·.estimate source)) := by
  obtain ⟨_, _, split⟩ := split_isSplit h
  obtain ⟨r', again, h⟩ := Run.bind_yields.1 h
  cases resolved.unique again
  obtain ⟨measured, measuring, distributing⟩ := Run.bind_yields.1 h
  have modes : ∀ s ∈ r.sections, s.mode = .preload ∨ s.mode = .provided := by
    intro s hs
    apply preloads
    rw [← resolve_definitions resolved]
    exact List.mem_map_of_mem hs
  obtain ⟨exact, same, yields⟩ := Measured.mapM_exact modes measuring
  change measured.flatMap (·.entries.map (·.2)) = r.sizes source at same
  have bounded := split.bounded
  rw [max_eq_left positive] at distributing bounded
  obtain ⟨p, filling, rfl⟩ := distribute_yields.1 distributing
  have requires : ResolvedSection.requires (measured.map Measured.resolved) = [] := by
    apply List.map_eq_nil_iff.2 (List.filter_eq_nil_iff.2 (List.forall_mem_map.2 ?_))
    intro m hm require
    exact (exact m hm).mode_ne (of_decide_eq_true require)
  have unpatched : (p.all.map fun part =>
      (ResolvedSection.requires (measured.map Measured.resolved)).foldl withMissing part) =
      p.all := by
    rw [requires]
    exact List.map_id _
  rw [unpatched] at bounded ⊢
  have total : (d.share limit measured).total = (r.sizes source).sum := by
    rw [share, bare, ← same, ← Measured.total_sizes]
    exact Nat.zero_add _
  have positive : 0 < (d.share limit measured).parts := positive
  have small : ∀ size ∈ measured.flatMap (·.entries.map (·.2)),
      size ≤ (r.sizes source).max?.getD 0 := by
    intro size hs
    exact List.le_max?_getD_of_mem (same ▸ hs)
  obtain ⟨fair, idle⟩ :=
    Parts.foldlM_distribute_fair positive exact small (Parts.start_fair bare) rfl filling
  rw [same, ← total] at fair
  have balanced := fair.balanced positive bounded idle
  rw [← total]
  exact ⟨yields, balanced⟩

namespace Vendored

theorem splits_balanced : definition.configuration = none ∧
    (∀ s ∈ definition.sections, s.mode = .preload ∨ s.mode = .provided) ∧
    ∃ parts, (definition.split { pool } true 2).Yields parts ∧
      (parts.map (·.estimate { pool })).sum = 2 ∧
      Balanced 2 1 1 (parts.map (·.estimate { pool })) := by
  have modes : ∀ s ∈ definition.sections, s.mode = .preload ∨ s.mode = .provided := by decide
  obtain ⟨parts, split, _⟩ := splits
  have sizes : resolved.sizes { pool } = [1, 1] := rfl
  obtain ⟨_, total, balanced⟩ :=
    Definition.split_balanced split resolves rfl modes (by decide)
  rw [sizes] at total balanced
  have mean : (([1, 1] : List ℕ).sum / (2 : ℕ) : ℚ) = 1 := by norm_num
  rw [mean] at balanced
  exact ⟨rfl, modes, parts, split, total, balanced⟩

end Vendored

end Bundler
