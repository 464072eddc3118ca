import Bundler.Proofs.Selection
import Mathlib.Data.List.Basic

/-!
# Strict and lenient resolutions

A lenient resolution logs what it lacks and goes on; a strict one fails. They go the same way until
the first dependency is missing:

* `Run.Tightens` relates a lenient run to its strict one, step by step: `resolve_strict`;
* `Search.Mentions` tells the names whose absence nobody reports. A visit looks up a name only the
  first time, so a dependency that has been mentioned before may be missing even in a strict
  resolution that succeeds: `resolve_strict_complete`.
-/

namespace Bundler

/-! ## Strict runs beside lenient ones -/

/-- The event reports a missing dependency. -/
def Event.isMissing : Event → Bool
  | .missing .. => true
  | _ => false

namespace Run

variable {α β : Type} {pool : Pool}

/-- What a strict run comes to beside a lenient one: the same where nothing is missing, else a fault
in place of the first missing dependency. -/
inductive Tightens (pool : Pool) : Run α → Run α → Prop
  | whole {r : Run α} (complete : ∀ e ∈ r.log, ¬e.isMissing) : Tightens pool r r
  | stopped {before later : List Event} {name requirer : String} {cause : PoolError}
      {result : Except Fault α} (complete : ∀ e ∈ before, ¬e.isMissing)
      (lost : pool.findWithInfo name = .error cause) :
      Tightens pool ⟨before ++ .missing name requirer :: later, result⟩
        ⟨before, .error (.missingModule name requirer cause)⟩

theorem Tightens.pure (a : α) : Tightens pool (Pure.pure a) (Pure.pure a) :=
  .whole fun _ h => absurd h List.not_mem_nil

theorem Tightens.fail (e : Fault) : Tightens pool (fail e : Run α) (Run.fail e) :=
  .whole fun _ h => absurd h List.not_mem_nil

theorem Tightens.log1 {e : Event} (other : ¬e.isMissing) : Tightens pool (log1 e) (Run.log1 e) :=
  .whole fun _ h => List.mem_singleton.1 h ▸ other

theorem Tightens.bind {r r' : Run α} {f f' : α → Run β} (h : Tightens pool r r')
    (next : ∀ a, Tightens pool (f a) (f' a)) : Tightens pool (r >>= f) (r' >>= f') := by
  cases h with
  | @stopped before later name requirer cause result complete lost =>
    -- whatever the lenient run does later, the strict one has stopped
    cases result with
    | error e => exact .stopped complete lost
    | ok a =>
      show Tightens pool ⟨(before ++ .missing name requirer :: later) ++ (f a).log, (f a).result⟩ _
      rw [List.append_assoc, List.cons_append]
      exact .stopped complete lost
  | whole complete =>
    obtain ⟨log, result⟩ := r
    cases result with
    | error e => exact .whole complete
    | ok a =>
      show Tightens pool ⟨log ++ (f a).log, (f a).result⟩ ⟨log ++ (f' a).log, (f' a).result⟩
      have both {more : List Event} (clear : ∀ e ∈ more, ¬e.isMissing) :
          ∀ e ∈ log ++ more, ¬e.isMissing :=
        fun e he => (List.mem_append.1 he).elim (complete e) (clear e)
      have ends := next a
      generalize f a = s at ends ⊢
      generalize f' a = s' at ends ⊢
      cases ends with
      | whole complete' => exact .whole (both complete')
      | stopped complete' lost =>
        dsimp only
        rw [← List.append_assoc]
        exact .stopped (both complete') lost

theorem Tightens.foldlM {f : β → α → Run β} (each : ∀ b a, Tightens pool (f b a) (f b a))
    (as : List α) (b : β) : Tightens pool (as.foldlM f b) (as.foldlM f b) := by
  induction as generalizing b with
  | nil => exact .pure b
  | cons a rest ih => exact (each b a).bind ih

theorem Tightens.eq_of_complete {r r' : Run α} (h : Tightens pool r r')
    (complete : r.log.find? Event.isMissing = none) : r' = r := by
  cases h with
  | whole _ => rfl
  | @stopped before later name requirer _ _ _ _ =>
    have clear := List.find?_eq_none.1 complete (.missing name requirer) (by simp)
    exact absurd rfl clear

theorem Tightens.eq_of_yields {r r' : Run α} (h : Tightens pool r r') {a : α}
    (succeeds : r'.Yields a) : r' = r := by
  cases h with
  | whole _ => rfl
  | stopped _ _ => cases succeeds

theorem Tightens.first_missing {r r' : Run α} (h : Tightens pool r r') {event : Event}
    (first : r.log.find? Event.isMissing = some event) :
    ∃ name requirer cause, event = .missing name requirer ∧
      pool.findWithInfo name = .error cause ∧
      r'.result = .error (.missingModule name requirer cause) ∧ r'.log <+: r.log := by
  cases h with
  | whole complete =>
    have missing := List.find?_some first
    exact absurd missing (complete event (List.mem_of_find?_eq_some first))
  | @stopped before later name requirer cause _ complete lost =>
    have clear : before.find? Event.isMissing = none := List.find?_eq_none.2 complete
    rw [List.find?_append, clear, Option.none_or, List.find?_cons_of_pos rfl] at first
    cases first
    exact ⟨name, requirer, cause, rfl, lost, rfl, List.prefix_append _ _⟩

end Run

/-! ## Strict searches -/

namespace ModuleGraph

theorem addRecorded_tightens (pool : Pool) (g : ModuleGraph) (name : String) :
    Run.Tightens pool (addRecorded pool g name) (addRecorded pool g name) := by
  unfold addRecorded
  split
  · exact .pure _
  · exact (Run.Tightens.log1 (by simp [Event.isMissing])).bind fun _ => .pure _
  · exact .fail _

theorem loadOrder_tightens (pool : Pool) (g : ModuleGraph) :
    Run.Tightens pool g.loadOrder g.loadOrder := by
  unfold loadOrder
  split
  · exact (Run.Tightens.log1 (by simp [Event.isMissing])).bind fun _ => .pure _
  · exact .pure _

end ModuleGraph

namespace Search

variable {s : Search}

/-- The search for the same that tolerates no missing dependency. -/
def strict (s : Search) : Search := { s with ignoreMissing := false }

theorem finding_missing {w : Walk} {v : Visit} {cause : PoolError}
    (h : s.finding w v = .missing cause) : s.pool.findWithInfo v.name = .error cause := by
  unfold finding at h
  split at h
  · cases h
  · split at h
    · cases h
    · split at h
      · rename_i lost
        cases h
        exact lost
      · unfold found at h
        dsimp only at h
        split at h <;> cases h

theorem report_tightens (lenient : s.ignoreMissing) {v : Visit} {cause : PoolError}
    (lost : s.pool.findWithInfo v.name = .error cause) :
    Run.Tightens s.pool (s.report v cause) (s.strict.report v cause) := by
  unfold report
  cases v.requirer? with
  | none => exact .log1 (by simp [Event.isMissing])
  | some requirer =>
    dsimp only
    rw [if_pos lenient, if_neg (by simp [strict])]
    have nothing : ∀ e ∈ ([] : List Event), ¬e.isMissing := fun _ h => absurd h List.not_mem_nil
    exact .stopped nothing lost

/-- Nothing but the report of a missing dependency depends on the policy. -/
theorem walk_tightens (lenient : s.ignoreMissing) (w : Walk) (due : List Visit) :
    Run.Tightens s.pool (s.walk w due) (s.strict.walk w due) := by
  have same (w : Walk) (v : Visit) : s.strict.finding w v = s.finding w v := rfl
  fun_induction s.walk w due with
  | case1 w =>
    rw [walk]
    exact .pure w
  | case2 w v due finding ih =>
    rw [walk_cons, same, finding]
    exact ih
  | case3 w v due finding ih =>
    rw [walk_cons, same, finding]
    exact ih
  | case4 w v due cause finding ih =>
    rw [walk_cons, same, finding]
    exact (report_tightens lenient (finding_missing finding)).bind fun _ => ih
  | case5 w v due info finding ih =>
    rw [walk_cons, same, finding]
    exact (Run.Tightens.log1 (by simp [Event.isMissing])).bind fun _ => ih
  | case6 w v due info finding ih =>
    rw [walk_cons, same, finding]
    exact ih

theorem collect_tightens (lenient : s.ignoreMissing) (w : Walk) :
    Run.Tightens s.pool (s.collect w) (s.strict.collect w) := by
  have roots : s.strict.roots = s.roots := rfl
  have mode : s.strict.criteria.mode = s.criteria.mode := rfl
  unfold collect
  rw [roots, mode]
  split
  · exact (walk_tightens lenient {} s.roots).bind fun _ => .pure _
  · exact (walk_tightens lenient w s.roots).bind fun _ => .pure _

theorem arrange_tightens (modules : List String) :
    Run.Tightens s.pool (s.arrange modules) (s.strict.arrange modules) := by
  have same : s.strict.arrange = s.arrange := rfl
  rw [same]
  unfold arrange
  split
  · refine Run.Tightens.bind ?_ fun g => g.loadOrder_tightens s.pool
    exact .foldlM (ModuleGraph.addRecorded_tightens s.pool) _ _
  · exact .pure modules

end Search

namespace ResolvedSection

theorem ofSection_tightens (pool : Pool) (w : Walk) (s : Section) :
    Run.Tightens pool (ofSection pool true w s) (ofSection pool false w s) := by
  unfold ofSection Section.search
  cases FilterList.parse s.filters with
  | error e => exact .fail _
  | ok filters =>
    let search : Search := { pool, ignoreMissing := true, criteria := s, filters }
    refine (search.collect_tightens rfl w).bind fun collected => ?_
    refine (search.arrange_tightens collected.2).bind fun modules => ?_
    exact (Run.Tightens.log1 (by simp [Event.isMissing])).bind fun _ => .pure _

theorem ofSections_tightens (pool : Pool) (w : Walk) (sections : List Section) :
    Run.Tightens pool (ofSections pool true w sections) (ofSections pool false w sections) := by
  induction sections generalizing w with
  | nil => exact .pure _
  | cons s rest ih =>
    exact (ofSection_tightens pool w s).bind fun first =>
      (ih first.1).bind fun later => .pure _

end ResolvedSection

namespace Definition

theorem resolve_tightens (d : Definition) (pool : Pool) :
    Run.Tightens pool (d.resolve pool true) (d.resolve pool false) := by
  refine (Run.Tightens.log1 (by simp [Event.isMissing])).bind fun _ => ?_
  refine (ResolvedSection.ofSections_tightens pool {} d.sections).bind fun all => ?_
  dsimp only
  split
  · exact (Run.Tightens.log1 (by simp [Event.isMissing])).bind fun _ => .pure _
  · exact .pure _

/-- **A strict resolution is the lenient one up to the first missing dependency.** If the lenient
one reports no missing dependency, the strict one ends as it does, with the same sections or with
the same fault. Otherwise the strict one fails, and says what the lenient one reported first and why
the pool could not find it. -/
theorem resolve_strict (d : Definition) (pool : Pool) :
    let lenient := d.resolve pool true
    let strict := d.resolve pool false
    (lenient.log.find? Event.isMissing = none → strict = lenient) ∧
    ∀ event, lenient.log.find? Event.isMissing = some event →
      ∃ name requirer cause, event = .missing name requirer ∧
        pool.findWithInfo name = .error cause ∧
        strict.result = .error (.missingModule name requirer cause) ∧
        (Fault.missingModule name requirer cause).message =
          event.message ++ ": " ++ cause.message ∧
        strict.log <+: lenient.log := by
  intro lenient strict
  have tightens : Run.Tightens pool lenient strict := d.resolve_tightens pool
  refine ⟨tightens.eq_of_complete, fun event first => ?_⟩
  obtain ⟨name, requirer, cause, rfl, lost, failed, earlier⟩ := tightens.first_missing first
  exact ⟨name, requirer, cause, rfl, lost, failed, rfl, earlier⟩

end Definition

/-! ### A module that only a bundle has -/

namespace Unpacked

open Vendored (bundle)

/-- Needs a module that only the bundle has. -/
def mod2 : ModuleInfo :=
  { name := "lib/mod2.js", dependencies := .ofList ["lib/mod4", "embedded/mod1"] }

def mod4 : ModuleInfo := { name := "lib/mod4.js" }

def pool : Pool := .ofResources ([mod2, mod4, bundle].map fun info =>
  { name := info.name, content := [59], info := some info })

def direct : Section := { filters := ["lib/mod2.js"], resolve := true }

def directSearch : Search := ⟨pool, true, direct, [⟨true, .directory "lib/mod2.js"⟩]⟩

theorem direct_walk : ∃ reached, directSearch.walk {} directSearch.roots =
    ⟨[.missing "embedded/mod1.js" "lib/mod2.js"], .ok reached⟩ := by
  have roots : directSearch.roots = [⟨"lib/mod2.js", [], false⟩] := by decide +kernel
  have root : directSearch.finding {} ⟨"lib/mod2.js", [], false⟩ = .selected mod2 := by
    decide +kernel
  have needed : directSearch.successors ⟨"lib/mod2.js", [], false⟩ mod2 =
      [⟨"lib/mod4.js", ["lib/mod2.js"], true⟩, ⟨"embedded/mod1.js", ["lib/mod2.js"], true⟩] := by
    decide +kernel
  rw [roots, Search.walk_cons, root]
  dsimp only
  rw [needed, List.append_nil]
  let w : Walk := (Walk.visit {} "lib/mod2.js").select "lib/mod2.js"
  have first : directSearch.finding w ⟨"lib/mod4.js", ["lib/mod2.js"], true⟩ =
      .selected mod4 := by
    decide +kernel
  have still : directSearch.successors ⟨"lib/mod4.js", ["lib/mod2.js"], true⟩ mod4 = [] := by
    decide +kernel
  rw [Search.walk_cons, first]
  dsimp only
  rw [still, List.nil_append]
  let w' : Walk := (w.visit "lib/mod4.js").select "lib/mod4.js"
  have second : directSearch.finding w' ⟨"embedded/mod1.js", ["lib/mod2.js"], true⟩ =
      .missing (.notFound "embedded/mod1.js") := by
    decide +kernel
  rw [Search.walk_cons, second]
  dsimp only
  rw [Search.walk]
  exact ⟨_, rfl⟩

theorem direct_log : (Definition.resolve { sections := [direct] } pool true).log.find?
    Event.isMissing = some (.missing "embedded/mod1.js" "lib/mod2.js") := by
  obtain ⟨reached, walk⟩ := direct_walk
  have searched : direct.search pool true = .ok directSearch := rfl
  have collected : directSearch.collect {} =
      ⟨[.missing "embedded/mod1.js" "lib/mod2.js"], .ok (reached, reached.selected.names)⟩ := by
    unfold Search.collect
    rw [if_neg (by decide), walk]
    rfl
  have resolving : ResolvedSection.ofSection pool true {} direct =
      ⟨[.missing "embedded/mod1.js" "lib/mod2.js",
        .resolvedSection .preload none reached.selected.names.length],
        .ok (reached, ⟨direct, reached.selected.names⟩)⟩ := by
    unfold ResolvedSection.ofSection
    rw [searched]
    show directSearch.collect {} >>= _ = _
    rw [collected]
    rfl
  unfold Definition.resolve ResolvedSection.ofSections
  dsimp only
  rw [resolving]
  rfl

theorem mod1_missing : ∃ cause, pool.findWithInfo "embedded/mod1.js" = .error cause ∧
    (Definition.resolve { sections := [direct] } pool false).result =
      .error (.missingModule "embedded/mod1.js" "lib/mod2.js" cause) := by
  obtain ⟨_, stops⟩ := Definition.resolve_strict { sections := [direct] } pool
  obtain ⟨_, _, cause, same, lost, failed, _⟩ := stops _ direct_log
  cases same
  exact ⟨cause, lost, failed⟩

end Unpacked

/-! ## Names whose absence nobody reports -/

namespace Search

variable {s : Search}

/-- The section meets the name otherwise than as a dependency: as one of its roots, or following a
module in `N`, as a sub-module of an unpacked bundle or as a renderer. -/
inductive Mentions (s : Search) (N : Set String) (name : String) : Prop
  | root (listed : name ∈ s.rootNames) (accepted : s.filters.selects name false)
  | subModule {bundle sub : String} {info : ModuleInfo} (visited : bundle ∈ N)
      (found : s.pool.record? bundle = some info) (unpacked : s.unpacks bundle info)
      (mem : sub ∈ info.subModules) (denotes : Name.resourceName sub = name)
  | renderer {module : String} {info : ModuleInfo} (visited : module ∈ N)
      (found : s.pool.record? module = some info) (kept : ¬s.unpacks module info)
      (renders : s.criteria.renderer) (beside : Name.renderer? module = some name)

/-- What a strict search visits and does not find, it has met otherwise than as a dependency. -/
theorem Walks.mentions {w w' : Walk} {due : List Visit} (h : s.Walks w due w')
    (strict : ¬s.ignoreMissing) {N : Set String} (within : ∀ name ∈ w.newly w', name ∈ N)
    (start : ∀ v ∈ due, v.requirer? = none → s.filters.selects v.name v.isFollowed →
      s.Mentions N v.name)
    {name : String} (new : name ∈ w.newly w') (lost : s.pool.record? name = none) :
    s.Mentions N name := by
  have later {w w' : Walk} {v : Visit} (within : ∀ name ∈ w.newly w', name ∈ N) :
      ∀ name ∈ (w.visit v.name).newly w', name ∈ N :=
    fun name new => within name ⟨new.1, fun before => new.2 (Walk.mem_visit.2 (.inl before))⟩
  have other {w w' : Walk} {v : Visit} (new : name ∈ w.newly w') (different : name ≠ v.name) :
      name ∈ (w.visit v.name).newly w' :=
    ⟨new.1, fun visited => (Walk.mem_visit.1 visited).elim new.2 different⟩
  induction h with
  | done => exact absurd new.1 new.2
  | repeated _ _ ih =>
    simp only [Walk.newly, afterRepeat_visited] at ih
    exact ih within (fun u hu => start u (List.mem_cons_of_mem _ hu)) new
  | rejected _ _ _ ih => exact ih within (fun u hu => start u (List.mem_cons_of_mem _ hu)) new
  | @missing w w' v due fresh accepted _ tolerated _ ih =>
    by_cases same : name = v.name
    · subst same
      exact start v List.mem_cons_self (tolerated.resolve_left strict) accepted
    · exact ih (later within) (fun u hu => start u (List.mem_cons_of_mem _ hu)) (other new same)
  | @unpacked w w' v due info fresh _ found unpacked next ih =>
    have different : name ≠ v.name := by
      rintro rfl
      cases lost.symm.trans found
    have visited : v.name ∈ N := within _ ⟨next.visited_mono Walk.mem_visit_self, fresh⟩
    refine ih (later within) (fun u hu silent accepted => ?_) (other new different)
    rcases List.mem_append.1 hu with hu | hu
    · obtain ⟨sub, hsub, rfl⟩ := List.mem_map.1 hu
      exact .subModule visited found unpacked hsub rfl
    · exact start u (List.mem_cons_of_mem _ hu) silent accepted
  | @selected w w' v due info fresh _ found kept next ih =>
    have different : name ≠ v.name := by
      rintro rfl
      cases lost.symm.trans found
    have visited : v.name ∈ N := within _ ⟨next.visited_mono Walk.mem_visit_self, fresh⟩
    refine ih (later within) (fun u hu silent accepted => ?_) (other new different)
    rcases List.mem_append.1 hu with hu | hu
    · rcases List.mem_append.1 hu with hu | hu
      · obtain ⟨d, _, _, rfl⟩ := mem_dependencies.1 hu
        cases silent
      · obtain ⟨renders, sibling, beside, rfl⟩ := mem_renderer.1 hu
        exact .renderer visited found kept renders beside
    · exact start u (List.mem_cons_of_mem _ hu) silent accepted

end Search

namespace Definition

variable {d : Definition} {pool : Pool} {r : Resolved}

/-- The search of section `i` knows what that of section `j` has visited. -/
def Shares (d : Definition) (i j : Nat) : Prop :=
  j = i ∨ j < i ∧ ¬d.IsRequire j ∧ ¬d.IsRequire i

/-- The section with this index meets the name otherwise than as a dependency. -/
def Mentions (d : Definition) (pool : Pool) (j : Nat) (name : String) : Prop :=
  ∃ s search, d.sections[j]? = some s ∧ s.search pool false = .ok search ∧
    search.Mentions (d.newlyVisited pool false j) name

theorem mentions_of_missing {j : Nat} {name : String} (new : name ∈ d.newlyVisited pool false j)
    (lost : pool.record? name = none) : d.Mentions pool j name := by
  obtain ⟨s, search, reached, hs, parsed, walk, new⟩ := new
  refine ⟨s, search, hs, parsed, ?_⟩
  rw [newlyVisited_eq hs parsed walk]
  obtain ⟨_, _, rfl⟩ := Section.search_eq_ok.1 parsed
  refine (Search.walks_of_yields walk).mentions (by simp) (fun _ => id) ?_ new lost
  intro v hv _ accepted
  obtain ⟨root, hr, rfl⟩ := List.mem_map.1 hv
  exact .root hr accepted

/-- **A strict resolution finds the dependencies that nothing else mentions.** If it succeeds, every
accepted dependency that a section follows from one of its modules is found, unless the section or
an earlier one that it shares its walk with has met the missing name otherwise: such a visit goes
without report, and a name is looked up once. -/
theorem resolve_strict_complete (h : (d.resolve pool false).Yields r) {i : Nat}
    {t : ResolvedSection} (ht : r.sections[i]? = some t) {filters : FilterList}
    (parsed : FilterList.parse t.definition.filters = .ok filters) (resolves : t.definition.resolve)
    {module : String} (hm : module ∈ t.modules) {info : ModuleInfo}
    (found : pool.record? module = some info) {dependency : String}
    (hd : dependency ∈ info.dependencies)
    (conditional : info.isConditional dependency → t.definition.resolveConditional)
    (accepted : filters.selects (Name.resourceName dependency) true) :
    (∃ resource, pool.findWithInfo (Name.resourceName dependency) = .ok resource) ∨
      ∃ j, d.Shares i j ∧ d.Mentions pool j (Name.resourceName dependency) := by
  obtain ⟨_, w, all⟩ := resolve_yields.1 h
  have hs : d.sections[i]? = some t.definition := by
    rw [← (ResolvedSection.ofSections_sound Walk.sound_empty all).2, List.getElem?_map, ht]
    rfl
  obtain ⟨search, modules, searched, resolved, ⟨closed, _⟩, _, mem⟩ := selects_least h hs
  have same : t = ⟨t.definition, modules⟩ := Option.some.inj (ht.symm.trans resolved)
  rw [same] at hm
  obtain ⟨filters', parsed', rfl⟩ := Section.search_eq_ok.1 searched
  cases parsed.symm.trans parsed'
  obtain ⟨visited, info', found', kept⟩ := (mem module).1 hm
  cases found.symm.trans found'
  have leads : Search.LeadsTo _ module (Name.resourceName dependency) :=
    .dependency found kept resolves hd conditional
  have met : ∃ j, d.Shares i j ∧ Name.resourceName dependency ∈ d.newlyVisited pool false j := by
    by_cases before : Name.resourceName dependency ∈ d.visitedBefore pool false i
    · obtain ⟨here, j, hj, there, new⟩ := before
      exact ⟨j, .inr ⟨hj, there, here⟩, new⟩
    · exact ⟨i, .inl rfl, closed.follow module visited _ leads accepted before⟩
  obtain ⟨j, shares, new⟩ := met
  cases known : pool.findWithInfo (Name.resourceName dependency) with
  | ok resource => exact .inl ⟨resource, rfl⟩
  | error cause =>
    exact .inr ⟨j, shares, mentions_of_missing new (by rw [Pool.record?, known])⟩

end Definition

/-! ### In place of the bundle -/

namespace Unpacked

open Vendored (vendor bundle definition)

def search : Search := ⟨pool, false, vendor, [⟨true, .directory "vendor/"⟩]⟩

/-- The missing module is visited in place of the bundle, before it is needed. -/
theorem walks : ∃ reached, search.Walks {} search.roots reached ∧
    reached.selected.names = ["lib/mod2.js", "lib/mod4.js"] := by
  have roots : search.roots = [⟨"lib/mod2.js", [], false⟩, ⟨"lib/mod4.js", [], false⟩,
      ⟨"vendor/bundle.js", [], false⟩] := by
    decide +kernel
  refine ⟨?reached, ?walk, ?selected⟩
  case walk =>
    rw [roots]
    refine .rejected (by decide) (by decide +kernel) ?_
    refine .rejected (by decide) (by decide +kernel) ?_
    have found : search.pool.record? "vendor/bundle.js" = some bundle := rfl
    refine .unpacked (by decide) (by decide +kernel) found (by decide +kernel) ?_
    have inner : Search.subModules ⟨"vendor/bundle.js", [], false⟩ bundle =
        [⟨"embedded/mod1.js", ["vendor/bundle.js"], false⟩,
          ⟨"lib/mod2.js", ["vendor/bundle.js"], false⟩] := by
      decide +kernel
    rw [inner, List.append_nil]
    refine .missing (by decide) (by decide +kernel) rfl (.inr rfl) ?_
    have found : search.pool.record? "lib/mod2.js" = some mod2 := rfl
    refine .selected (by decide) (by decide +kernel) found (by decide +kernel) ?_
    have needed : search.successors ⟨"lib/mod2.js", ["vendor/bundle.js"], false⟩ mod2 =
        [⟨"lib/mod4.js", ["lib/mod2.js", "vendor/bundle.js"], true⟩,
          ⟨"embedded/mod1.js", ["lib/mod2.js", "vendor/bundle.js"], true⟩] := by
      decide +kernel
    rw [needed, List.append_nil]
    have found : search.pool.record? "lib/mod4.js" = some mod4 := rfl
    refine .selected (by decide) (by decide +kernel) found (by decide +kernel) ?_
    have still : search.successors ⟨"lib/mod4.js", ["lib/mod2.js", "vendor/bundle.js"], true⟩
        mod4 = [] := by
      decide +kernel
    rw [still, List.nil_append]
    refine .repeated (by decide) ?_
    exact .done
  case selected => rfl

def resolved : Resolved := ⟨definition, [⟨vendor, ["lib/mod2.js", "lib/mod4.js"]⟩]⟩

theorem resolves : (definition.resolve pool false).Yields resolved := by
  obtain ⟨reached, walks, selected⟩ := walks
  have searched : vendor.search pool false = .ok search := rfl
  exact Definition.resolve_of_walks rfl searched (by decide) rfl walks selected

theorem mod4_found : (definition.resolve pool false).Yields resolved ∧
    ((∃ resource, pool.findWithInfo (Name.resourceName "lib/mod4") = .ok resource) ∨
      ∃ j, definition.Shares 0 j ∧ definition.Mentions pool j (Name.resourceName "lib/mod4")) := by
  have only : resolved.sections[0]? = some ⟨vendor, ["lib/mod2.js", "lib/mod4.js"]⟩ := rfl
  have parsed : FilterList.parse vendor.filters = .ok [⟨true, .directory "vendor/"⟩] := rfl
  have found : pool.record? "lib/mod2.js" = some mod2 := rfl
  refine ⟨resolves, ?_⟩
  exact Definition.resolve_strict_complete resolves only parsed rfl List.mem_cons_self found
    (by decide) (by decide) (by decide +kernel)

/-- What only the bundle has gets lost with it. The resolution is strict and succeeds. -/
theorem mod1_lost : (definition.resolve pool false).Yields resolved ∧
    resolved.sections = [⟨vendor, ["lib/mod2.js", "lib/mod4.js"]⟩] ∧ vendor.resolve ∧
    pool.record? "lib/mod2.js" = some mod2 ∧ "embedded/mod1" ∈ mod2.dependencies ∧
    ¬mod2.isConditional "embedded/mod1" ∧
    (∃ filters, FilterList.parse vendor.filters = .ok filters ∧
      filters.selects (Name.resourceName "embedded/mod1") true) ∧
    ∀ resource, pool.findWithInfo (Name.resourceName "embedded/mod1") ≠ .ok resource := by
  refine ⟨resolves, rfl, rfl, rfl, by decide, by decide, ?_, ?_⟩
  · exact ⟨[⟨true, .directory "vendor/"⟩], rfl, by decide +kernel⟩
  · intro resource found
    have lost : pool.findWithInfo (Name.resourceName "embedded/mod1") =
        .error (.notFound "embedded/mod1.js") := rfl
    cases lost.symm.trans found

end Unpacked

end Bundler
