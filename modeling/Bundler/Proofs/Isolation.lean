import Bundler.Proofs.Selection

/-!
# Require sections are isolated

A require section starts a walk of its own and leaves that of the others as it was but for the count
of repeated visits, which no visit looks at. So the other sections come to the same without it, and
it comes to the same without them: `resolve_isolated`.
-/

namespace Bundler

namespace Search

variable {s : Search}

/-- A walk goes the same way from where the same has been visited and selected. -/
theorem Walks.same {w w' v : Walk} {due : List Visit} (h : s.Walks w due w') (same : w.Same v) :
    ∃ v', s.Walks v due v' ∧ w'.Same v' := by
  induction h generalizing v with
  | done => exact ⟨v, .done, same⟩
  | @repeated _ _ u _ again _ ih =>
    obtain ⟨v', walks, same'⟩ := ih (same_afterRepeat_right (same_afterRepeat same u) u)
    exact ⟨v', .repeated (same.visited ▸ again) walks, same'⟩
  | rejected fresh rejected _ ih =>
    obtain ⟨v', walks, same'⟩ := ih same
    exact ⟨v', .rejected (same.visited ▸ fresh) rejected walks, same'⟩
  | missing fresh accepted lost tolerated _ ih =>
    obtain ⟨v', walks, same'⟩ := ih (same.visit _)
    exact ⟨v', .missing (same.visited ▸ fresh) accepted lost tolerated walks, same'⟩
  | unpacked fresh accepted found unpacked _ ih =>
    obtain ⟨v', walks, same'⟩ := ih (same.visit _)
    exact ⟨v', .unpacked (same.visited ▸ fresh) accepted found unpacked walks, same'⟩
  | selected fresh accepted found kept _ ih =>
    obtain ⟨v', walks, same'⟩ := ih ((same.visit _).select _)
    exact ⟨v', .selected (same.visited ▸ fresh) accepted found kept walks, same'⟩

theorem collect_shared {w w' v : Walk} {modules : List String} (shared : s.criteria.mode ≠ .require)
    (h : (s.collect w).Yields (w', modules)) (same : w.Same v) :
    ∃ v', (s.collect v).Yields (v', modules) ∧ w'.Same v' := by
  obtain ⟨reached, walk, rfl, rfl⟩ := collect_yields.1 h
  have start (w : Walk) : s.start w = w := if_neg shared
  rw [start] at walk
  obtain ⟨v', walks, same'⟩ := (walks_of_yields walk).same same
  rw [if_neg shared]
  refine ⟨v', collect_yields.2 ⟨v', ?_, (if_neg shared).symm, ?_⟩, same'⟩
  · rw [start]
    exact walks.yields
  · rw [start, start, same'.selected, same.selected]

theorem collect_alone {w w' : Walk} {modules : List String} (alone : s.criteria.mode = .require)
    (h : (s.collect w).Yields (w', modules)) (v : Walk) :
    w.Same w' ∧ ∃ v', (s.collect v).Yields (v', modules) := by
  obtain ⟨reached, walk, rfl, rfl⟩ := collect_yields.1 h
  have start (w : Walk) : s.start w = {} := if_pos alone
  rw [start] at walk
  refine ⟨?_, _, collect_yields.2 ⟨reached, ?_, rfl, ?_⟩⟩
  · rw [if_pos alone]
    exact ⟨rfl, rfl⟩
  · rw [start]
    exact walk
  · rw [start, start]

end Search

namespace ResolvedSection

variable {pool : Pool} {ignoreMissing : Bool} {w w' v : Walk} {s : Section} {t : ResolvedSection}

theorem ofSection_shared (shared : s.mode ≠ .require)
    (h : (ofSection pool ignoreMissing w s).Yields (w', t)) (same : w.Same v) :
    ∃ v', (ofSection pool ignoreMissing v s).Yields (v', t) ∧ w'.Same v' := by
  obtain ⟨search, parsed, modules, collected, arranged, arrange, rfl⟩ := ofSection_yields.1 h
  have mode : search.criteria.mode ≠ .require := by
    obtain ⟨_, _, rfl⟩ := Section.search_eq_ok.1 parsed
    exact shared
  obtain ⟨v', collected', same'⟩ := Search.collect_shared mode collected same
  refine ⟨v', ?_, same'⟩
  exact ofSection_yields.2 ⟨search, parsed, modules, collected', arranged, arrange, rfl⟩

theorem ofSection_alone (alone : s.mode = .require)
    (h : (ofSection pool ignoreMissing w s).Yields (w', t)) (v : Walk) :
    w.Same w' ∧ ∃ v', (ofSection pool ignoreMissing v s).Yields (v', t) := by
  obtain ⟨search, parsed, modules, collected, arranged, arrange, rfl⟩ := ofSection_yields.1 h
  have mode : search.criteria.mode = .require := by
    obtain ⟨_, _, rfl⟩ := Section.search_eq_ok.1 parsed
    exact alone
  obtain ⟨same, v', collected'⟩ := Search.collect_alone mode collected v
  exact ⟨same, v', ofSection_yields.2 ⟨search, parsed, modules, collected', arranged, arrange, rfl⟩⟩

theorem ofSection_definition (h : (ofSection pool ignoreMissing w s).Yields (w', t)) :
    t.definition = s := by
  obtain ⟨_, _, _, _, _, _, rfl⟩ := ofSection_yields.1 h
  rfl

/-- Without the require sections, the others are resolved to the same. -/
theorem ofSections_shared {sections : List Section} {all : List ResolvedSection}
    (h : (ofSections pool ignoreMissing w sections).Yields (w', all)) (same : w.Same v) :
    ∃ v', (ofSections pool ignoreMissing v (sections.filter (·.mode ≠ .require))).Yields
      (v', shared all) := by
  induction sections generalizing w v all with
  | nil =>
    cases Run.pure_yields.1 h
    exact ⟨v, Run.pure_yields.2 rfl⟩
  | cons s rest ih =>
    obtain ⟨next, t, first, others, later, rfl⟩ := ofSections_cons.1 h
    have mode : t.mode = s.mode := congrArg Section.mode (ofSection_definition first)
    by_cases require : s.mode = .require
    · have dropped : shared (t :: others) = shared others :=
        List.filter_cons_of_neg (by simp [mode, require])
      rw [List.filter_cons_of_neg (by simp [require]), dropped]
      have unchanged := (ofSection_alone require first v).1
      exact ih later ⟨unchanged.visited.symm.trans same.visited,
        unchanged.selected.symm.trans same.selected⟩
    · have kept : shared (t :: others) = t :: shared others :=
        List.filter_cons_of_pos (by simp [mode, require])
      rw [List.filter_cons_of_pos (by simp [require]), kept]
      obtain ⟨next', first', same'⟩ := ofSection_shared require first same
      obtain ⟨v', later'⟩ := ih later same'
      exact ⟨v', ofSections_cons.2 ⟨next', t, first', _, later', rfl⟩⟩

end ResolvedSection

namespace Definition

variable {d d' : Definition} {pool : Pool} {ignoreMissing : Bool} {r r' : Resolved}

/-- **Require sections are isolated.** Two definitions with the same sections in the same order, the
require sections apart, select the same modules for these sections. A require section selects what
it selects as the only section of a definition. -/
theorem resolve_isolated
    (same : d.sections.filter (·.mode ≠ .require) = d'.sections.filter (·.mode ≠ .require))
    (h : (d.resolve pool ignoreMissing).Yields r) (h' : (d'.resolve pool ignoreMissing).Yields r') :
    r.sections.filter (·.mode ≠ .require) = r'.sections.filter (·.mode ≠ .require) ∧
    ∀ t ∈ r.sections, t.mode = .require → ∀ alone : Definition, alone.sections = [t.definition] →
      (alone.resolve pool ignoreMissing).Yields ⟨alone, [t]⟩ := by
  obtain ⟨_, w, all⟩ := resolve_yields.1 h
  obtain ⟨_, w', all'⟩ := resolve_yields.1 h'
  constructor
  · obtain ⟨_, shared⟩ := ResolvedSection.ofSections_shared all ⟨rfl, rfl⟩
    obtain ⟨_, shared'⟩ := ResolvedSection.ofSections_shared all' ⟨rfl, rfl⟩
    rw [same] at shared
    exact congrArg Prod.snd (shared.unique shared')
  · intro t ht require alone only
    obtain ⟨_, _, _, _, this⟩ := ResolvedSection.ofSections_each Walk.sound_empty all t ht
    cases ResolvedSection.ofSection_definition this
    obtain ⟨_, reached, here⟩ := ResolvedSection.ofSection_alone require this {}
    refine resolve_yields.2 ⟨rfl, reached, ?_⟩
    rw [only]
    exact ResolvedSection.ofSections_cons.2 ⟨reached, t, here, [], Run.pure_yields.2 rfl, rfl⟩

end Definition

/-! ### A module that is both preloaded and required -/

namespace Vendored

def required : Section := { mode := .require, filters := ["lib/mod2.js"], resolve := true }

def requiredSearch : Search := ⟨pool, true, required, [⟨true, .directory "lib/mod2.js"⟩]⟩

theorem required_walks : ∃ reached, requiredSearch.Walks {} requiredSearch.roots reached ∧
    reached.selected.names = ["lib/mod2.js", "lib/mod4.js"] := by
  have roots : requiredSearch.roots = [⟨"lib/mod2.js", [], false⟩] := by decide +kernel
  refine ⟨?reached, ?walk, ?selected⟩
  case walk =>
    rw [roots]
    have found : requiredSearch.pool.record? "lib/mod2.js" = some mod2 := rfl
    refine .selected (by decide) (by decide +kernel) found (by decide +kernel) ?_
    have needed : requiredSearch.successors ⟨"lib/mod2.js", [], false⟩ mod2 =
        [⟨"lib/mod4.js", ["lib/mod2.js"], true⟩] := by
      decide +kernel
    rw [needed, List.append_nil]
    have found : requiredSearch.pool.record? "lib/mod4.js" = some mod4 := rfl
    refine .selected (by decide) (by decide +kernel) found (by decide +kernel) ?_
    have back : requiredSearch.successors ⟨"lib/mod4.js", ["lib/mod2.js"], true⟩ mod4 =
        [⟨"lib/mod2.js", ["lib/mod4.js", "lib/mod2.js"], true⟩,
          ⟨"lib/absent.js", ["lib/mod4.js", "lib/mod2.js"], true⟩] := by
      decide +kernel
    rw [back, List.append_nil]
    refine .repeated (by decide) ?_
    refine .missing (by decide) (by decide +kernel) rfl (.inl rfl) ?_
    exact .done
  case selected => rfl

def both : Definition := { sections := [required, vendor] }

def bothResolved : Resolved :=
  ⟨both, [⟨required, ["lib/mod2.js", "lib/mod4.js"]⟩, ⟨vendor, ["lib/mod2.js", "lib/mod4.js"]⟩]⟩

theorem both_resolves : (both.resolve pool true).Yields bothResolved := by
  obtain ⟨alone, walk, selected⟩ := required_walks
  obtain ⟨_, shared, selected'⟩ := walks
  -- where the walk of the preloads starts, with the repeated visit counted
  let counted : Walk := { repeats := Walk.repeats {} + alone.repeats }
  have start : Walk.Same {} counted := ⟨rfl, rfl⟩
  obtain ⟨reached, shared, same⟩ := shared.same start
  refine Definition.resolve_yields.2 ⟨rfl, reached, ?_⟩
  refine ResolvedSection.ofSections_cons.2 ⟨counted, _, ?first, _, ?second, rfl⟩
  case first =>
    refine ResolvedSection.ofSection_yields.2
      ⟨requiredSearch, rfl, _, ?_, _, Run.pure_yields.2 rfl, rfl⟩
    exact Search.collect_yields.2 ⟨alone, walk.yields, rfl, selected.symm⟩
  case second =>
    refine ResolvedSection.ofSections_cons.2 ⟨_, _, ?_, _, Run.pure_yields.2 rfl, rfl⟩
    have searched : vendor.search pool true = .ok search := rfl
    refine ResolvedSection.ofSection_of_walks searched (by decide) rfl shared ?_
    exact (congrArg NameSet.names same.selected).symm.trans selected'

/-- Requiring two modules takes neither from the preloads, and they do not keep it from either. -/
theorem both_isolated :
    (both.resolve pool true).Yields bothResolved ∧ (definition.resolve pool true).Yields resolved ∧
    bothResolved.sections.filter (·.mode ≠ .require) =
      resolved.sections.filter (·.mode ≠ .require) ∧
    (Definition.resolve { sections := [required] } pool true).Yields
      ⟨{ sections := [required] }, [⟨required, ["lib/mod2.js", "lib/mod4.js"]⟩]⟩ := by
  have same : both.sections.filter (·.mode ≠ .require) =
      definition.sections.filter (·.mode ≠ .require) := rfl
  obtain ⟨shared, alone⟩ := Definition.resolve_isolated same both_resolves resolves
  exact ⟨both_resolves, resolves, shared, alone _ List.mem_cons_self rfl _ rfl⟩

end Vendored

end Bundler
