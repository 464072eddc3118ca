import Bundler.Proofs.Filters
import Bundler.Proofs.Reach
import Bundler.Proofs.Selection

/-!
# What lenient resolutions fail on

A lenient search goes on where something is missing, and load order only needs records that can be
read. So a lenient resolution from a pool in memory fails where a pattern is none and nowhere else:
`resolve_lenient_fails`.
-/

namespace Bundler

/-- The pool lacks records, but none that it has is unreadable. -/
def Pool.Readable (p : Pool) : Prop :=
  ∀ module e, p.info module = .error e → ∃ name, e = .notFound name

theorem MemoryPool.readable (p : MemoryPool) : p.toPool.Readable := by
  intro module e h
  change Pool.recordOf module (Pool.describe module (Pool.findIn p.resources module)) = _ at h
  unfold Pool.findIn at h
  split at h
  · cases h
  · cases h
    exact ⟨module, rfl⟩

namespace ModuleGraph

theorem addRecorded_progress {pool : Pool} (readable : pool.Readable) (g : ModuleGraph)
    (name : String) : (addRecorded pool g name).Succeeds := by
  unfold addRecorded
  split
  · exact Run.pure_succeeds _
  · exact (Run.log1_succeeds _).bind fun _ _ => Run.pure_succeeds _
  · rename_i e other unread
    obtain ⟨absent, rfl⟩ := readable name e unread
    exact absurd rfl (other absent)

theorem loadOrder_progress (g : ModuleGraph) : g.loadOrder.Succeeds := by
  unfold loadOrder
  split
  · exact (Run.log1_succeeds _).bind fun _ _ => Run.pure_succeeds _
  · exact Run.pure_succeeds _

end ModuleGraph

namespace Search

variable {s : Search}

theorem walk_progress (lenient : s.ignoreMissing) (w : Walk) (due : List Visit) :
    (s.walk w due).Succeeds := by
  fun_induction s.walk w due with
  | case1 w => exact Run.pure_succeeds w
  | case2 w v due finding ih => exact ih
  | case3 w v due finding ih => exact ih
  | case4 w v due cause finding ih =>
    have reported : (s.report v cause).Succeeds := ⟨(), report_yields.2 (.inl lenient)⟩
    exact reported.bind fun _ _ => ih
  | case5 w v due info finding ih => exact (Run.log1_succeeds _).bind fun _ _ => ih
  | case6 w v due info finding ih => exact ih

theorem collect_progress (lenient : s.ignoreMissing) (w : Walk) : (s.collect w).Succeeds := by
  unfold collect
  split
  · exact (walk_progress lenient {} s.roots).bind fun _ _ => Run.pure_succeeds _
  · exact (walk_progress lenient w s.roots).bind fun _ _ => Run.pure_succeeds _

theorem arrange_progress (readable : s.pool.Readable) (modules : List String) :
    (s.arrange modules).Succeeds := by
  unfold arrange
  split
  · have graph : (ModuleGraph.ofPool s.pool modules).Succeeds :=
      .foldlM (fun g name _ => g.addRecorded_progress readable name) _
    exact graph.bind fun g _ => g.loadOrder_progress
  · exact Run.pure_succeeds modules

end Search

namespace ResolvedSection

variable {pool : Pool}

theorem ofSection_progress (readable : pool.Readable) (w : Walk) {s : Section}
    {filters : FilterList} (parsed : FilterList.parse s.filters = .ok filters) :
    (ofSection pool true w s).Succeeds := by
  let search : Search := { pool, ignoreMissing := true, criteria := s, filters }
  have searched : s.search pool true = .ok search :=
    Section.search_eq_ok.2 ⟨filters, parsed, rfl⟩
  obtain ⟨⟨w', modules⟩, collected⟩ := search.collect_progress rfl w
  obtain ⟨arranged, order⟩ := search.arrange_progress readable modules
  exact ⟨_, ofSection_yields.2 ⟨search, searched, modules, collected, arranged, order, rfl⟩⟩

theorem ofSection_invalid {ignoreMissing : Bool} {w : Walk} {s : Section} {e : InvalidPattern}
    (invalid : FilterList.parse s.filters = .error e) :
    (ofSection pool ignoreMissing w s).Fails (.invalidPattern e) := by
  unfold ofSection Section.search
  rw [invalid]
  rfl

/-- The first pattern that is none decides. -/
theorem ofSections_lenient_fails (readable : pool.Readable) {sections : List Section} {w : Walk}
    {fault : Fault} : (ofSections pool true w sections).Fails fault ↔
      ∃ e, (sections.mapM fun s => FilterList.parse s.filters) = .error e ∧
        .invalidPattern e = fault := by
  induction sections generalizing w with
  | nil =>
    constructor
    · intro h
      exact absurd h Run.pure_fails
    · rintro ⟨e, h, _⟩
      cases h
  | cons s rest ih =>
    rw [ofSections, Run.bind_fails]
    cases parsed : FilterList.parse s.filters with
    | error e =>
      have failed := @ofSection_invalid pool true w s e parsed
      rw [List.mapM_cons, parsed]
      constructor
      · rintro (h | ⟨_, first, _⟩)
        · exact ⟨e, rfl, Except.error.inj (failed.symm.trans h)⟩
        · exact absurd failed (first.not_fails _)
      · rintro ⟨_, same, rfl⟩
        cases same
        exact .inl failed
    | ok filters =>
      obtain ⟨next, first⟩ := ofSection_progress readable w parsed
      simp only [mapM_cons_error (f := fun s : Section => FilterList.parse s.filters) parsed]
      rw [← ih (w := next.1)]
      constructor
      · rintro (h | ⟨next', first', h⟩)
        · exact absurd h (first.not_fails _)
        · cases first.unique first'
          rcases Run.bind_fails.1 h with h | ⟨_, _, h⟩
          · exact h
          · exact absurd h Run.pure_fails
      · intro h
        exact .inr ⟨next, first, Run.bind_fails.2 (.inl h)⟩

end ResolvedSection

/-- A definition fails to resolve where its sections do. -/
theorem Definition.resolve_fails {d : Definition} {pool : Pool} {ignoreMissing : Bool}
    {fault : Fault} : (d.resolve pool ignoreMissing).Fails fault ↔
      (ResolvedSection.ofSections pool ignoreMissing {} d.sections).Fails fault := by
  unfold resolve
  rw [Run.log1_bind_fails, Run.bind_fails]
  constructor
  · rintro (h | ⟨_, _, h⟩)
    · exact h
    · dsimp only at h
      split at h
      · rw [Run.log1_bind_fails] at h
        exact absurd h Run.pure_fails
      · exact absurd h Run.pure_fails
  · intro h
    exact .inl h

/-- **A lenient resolution fails where a pattern is none.** From a pool whose records can be read it
fails just as the reading of its filters does, section by section, and nowhere else. -/
theorem Definition.resolve_lenient_fails {pool : Pool} (readable : pool.Readable) {d : Definition}
    {fault : Fault} : (d.resolve pool true).Fails fault ↔
      ∃ e, (d.sections.mapM fun s => FilterList.parse s.filters) = .error e ∧
        .invalidPattern e = fault := by
  rw [resolve_fails, ResolvedSection.ofSections_lenient_fails readable]

end Bundler
