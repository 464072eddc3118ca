import Bundler.Proofs.Runs
import Bundler.Resolve
import Mathlib.Order.Bounds.Defs

/-!
# What a walk reaches

A walk visits depth first, changing what it has visited as it goes. Which names it ends up with can
be said without any order:

* `Search.Walks` is the walk as a relation, one rule for each thing a visit can come to;
* `Search.Closed` says when a set of names has all that the roots and the names in it lead to;
* `Walks.isLeast_closed`: a walk from the roots visits the least closed set;
* `Walks.selected`: of the names visited, it selects those that are found and not unpacked.
-/

namespace Bundler

/-- The record with which a module is found. What is found without one has an empty record. -/
def Pool.record? (p : Pool) (name : String) : Option ModuleInfo :=
  match p.findWithInfo name with
  | .ok r => some (r.info.getD { name })
  | .error _ => none

namespace Walk

theorem mem_visit {w : Walk} {name other : String} :
    other ∈ (w.visit name).visited ↔ other ∈ w.visited ∨ other = name := NameSet.mem_insert

theorem mem_visit_self {w : Walk} {name : String} : name ∈ (w.visit name).visited :=
  mem_visit.2 (.inr rfl)

@[simp]
theorem select_visited {w : Walk} {name : String} : (w.select name).visited = w.visited := rfl

def seen (w : Walk) : Set String := {name | name ∈ w.visited}

/-- The names that the second walk has visited and the first one has not. -/
def newly (w w' : Walk) : Set String := {name | name ∈ w'.visited ∧ name ∉ w.visited}

theorem mem_newly {w w' : Walk} {name : String} :
    name ∈ w.newly w' ↔ name ∈ w'.visited ∧ name ∉ w.visited := Iff.rfl

/-- Nothing is selected that was not visited. -/
def Sound (w : Walk) : Prop := ∀ name ∈ w.selected, name ∈ w.visited

theorem sound_empty : Sound {} := by
  intro name h
  exact absurd h List.not_mem_nil

theorem Sound.visit {w : Walk} {name : String} (h : w.Sound) : (w.visit name).Sound :=
  fun other hs => mem_visit.2 (.inl (h other hs))

theorem Sound.select {w : Walk} {name : String} (h : w.Sound) :
    ((w.visit name).select name).Sound := by
  intro other hs
  exact mem_visit.2 ((NameSet.mem_insert.1 hs).imp_left (h other))

theorem select_names {w : Walk} {name : String} (h : name ∉ w.selected) :
    ((w.visit name).select name).selected.names = w.selected.names ++ [name] := by
  have h' : name ∉ w.selected.names := h
  simp [Walk.select, Walk.visit, NameSet.insert, h']

/-- The same has been visited and selected. -/
structure Same (w w' : Walk) : Prop where
  visited : w.visited = w'.visited
  selected : w.selected = w'.selected

theorem Same.visit {w w' : Walk} (h : w.Same w') (name : String) :
    (w.visit name).Same (w'.visit name) :=
  ⟨congrArg (·.insert name) h.visited, h.selected⟩

theorem Same.select {w w' : Walk} (h : w.Same w') (name : String) :
    (w.select name).Same (w'.select name) :=
  ⟨h.visited, congrArg (·.insert name) h.selected⟩

/-- The first visit of a name makes it a new one. -/
theorem mem_newly_visit {w w' : Walk} {name other : String} (fresh : name ∉ w.visited)
    (visited : name ∈ w'.visited) :
    other ∈ w.newly w' ↔ other = name ∨ other ∈ (w.visit name).newly w' := by
  by_cases same : other = name
  · subst same
    simp [mem_newly, fresh, visited]
  · simp [mem_newly, mem_visit, same]

end Walk

namespace Search

/-- The names a section is searched from. -/
def rootNames (s : Search) : List String := s.filters.resources?.getD s.pool.names

/-- A module that is found leads to these names. A bundle that is unpacked leads to its sub-modules
and to nothing else. -/
inductive LeadsTo (s : Search) (name : String) : String → Prop
  | subModule {info : ModuleInfo} {sub : String} (found : s.pool.record? name = some info)
      (unpacked : s.unpacks name info) (mem : sub ∈ info.subModules) :
      LeadsTo s name (Name.resourceName sub)
  | dependency {info : ModuleInfo} {d : String} (found : s.pool.record? name = some info)
      (kept : ¬s.unpacks name info) (resolves : s.criteria.resolve) (mem : d ∈ info.dependencies)
      (conditional : info.isConditional d → s.criteria.resolveConditional) :
      LeadsTo s name (Name.resourceName d)
  | renderer {info : ModuleInfo} {sibling : String} (found : s.pool.record? name = some info)
      (kept : ¬s.unpacks name info) (renders : s.criteria.renderer)
      (beside : Name.renderer? name = some sibling) : LeadsTo s name sibling

/-- A module that is found and kept as it is. -/
def Emits (s : Search) (name : String) : Prop :=
  ∃ info, s.pool.record? name = some info ∧ ¬s.unpacks name info

/-- `N` lies outside of `V` and has every accepted root and every accepted name that a name in it
leads to, those in `V` apart. What is followed is accepted as required. -/
structure Closed (s : Search) (V N : Set String) : Prop where
  fresh : ∀ name ∈ N, name ∉ V
  root : ∀ name ∈ s.rootNames, s.filters.selects name false → name ∉ V → name ∈ N
  follow : ∀ name ∈ N, ∀ next, s.LeadsTo name next → s.filters.selects next true →
    next ∉ V → next ∈ N

theorem walk_cons (s : Search) (w : Walk) (v : Visit) (due : List Visit) :
    s.walk w (v :: due) = match s.finding w v with
      | .repeated => s.walk (afterRepeat w v) due
      | .rejected => s.walk w due
      | .missing cause => do
        s.report v cause
        s.walk (w.visit v.name) due
      | .unpacked info => do
        Run.log1 (.unpacking v.name info.subModules.length)
        s.walk (w.visit v.name) (subModules v info ++ due)
      | .selected info =>
        s.walk ((w.visit v.name).select v.name) (s.successors v info ++ due) := by
  rw [walk]
  split <;> rename_i finding <;> simp only [finding]

/-! ## Walks as a relation -/

/-- Making the visits that are due, one after the other, takes the first walk to the second. Only a
lenient search goes on where a dependency is missing. -/
inductive Walks (s : Search) : Walk → List Visit → Walk → Prop
  | done {w : Walk} : Walks s w [] w
  | repeated {w w' : Walk} {v : Visit} {due : List Visit} (again : v.name ∈ w.visited)
      (next : Walks s (afterRepeat w v) due w') : Walks s w (v :: due) w'
  | rejected {w w' : Walk} {v : Visit} {due : List Visit} (fresh : v.name ∉ w.visited)
      (rejected : ¬s.filters.selects v.name v.isFollowed) (next : Walks s w due w') :
      Walks s w (v :: due) w'
  | missing {w w' : Walk} {v : Visit} {due : List Visit} (fresh : v.name ∉ w.visited)
      (accepted : s.filters.selects v.name v.isFollowed) (lost : s.pool.record? v.name = none)
      (tolerated : s.ignoreMissing ∨ v.requirer? = none)
      (next : Walks s (w.visit v.name) due w') : Walks s w (v :: due) w'
  | unpacked {w w' : Walk} {v : Visit} {due : List Visit} {info : ModuleInfo}
      (fresh : v.name ∉ w.visited) (accepted : s.filters.selects v.name v.isFollowed)
      (found : s.pool.record? v.name = some info) (unpacked : s.unpacks v.name info)
      (next : Walks s (w.visit v.name) (subModules v info ++ due) w') : Walks s w (v :: due) w'
  | selected {w w' : Walk} {v : Visit} {due : List Visit} {info : ModuleInfo}
      (fresh : v.name ∉ w.visited) (accepted : s.filters.selects v.name v.isFollowed)
      (found : s.pool.record? v.name = some info) (kept : ¬s.unpacks v.name info)
      (next : Walks s ((w.visit v.name).select v.name) (s.successors v info ++ due) w') :
      Walks s w (v :: due) w'

/-- What a visit comes to, with all that decides it. -/
inductive Judged (s : Search) (w : Walk) (v : Visit) : Finding → Prop
  | repeated (again : v.name ∈ w.visited) : Judged s w v .repeated
  | rejected (fresh : v.name ∉ w.visited) (rejected : ¬s.filters.selects v.name v.isFollowed) :
      Judged s w v .rejected
  | missing {cause : PoolError} (fresh : v.name ∉ w.visited)
      (accepted : s.filters.selects v.name v.isFollowed) (lost : s.pool.record? v.name = none) :
      Judged s w v (.missing cause)
  | unpacked {info : ModuleInfo} (fresh : v.name ∉ w.visited)
      (accepted : s.filters.selects v.name v.isFollowed)
      (found : s.pool.record? v.name = some info) (unpacked : s.unpacks v.name info) :
      Judged s w v (.unpacked info)
  | selected {info : ModuleInfo} (fresh : v.name ∉ w.visited)
      (accepted : s.filters.selects v.name v.isFollowed)
      (found : s.pool.record? v.name = some info) (kept : ¬s.unpacks v.name info) :
      Judged s w v (.selected info)

theorem finding_judged (s : Search) (w : Walk) (v : Visit) : s.Judged w v (s.finding w v) := by
  unfold finding
  split
  · exact .repeated ‹_›
  · rename_i fresh
    split
    · rename_i rejected
      exact .rejected fresh (by simpa using rejected)
    · rename_i accepted
      have accepted : s.filters.selects v.name v.isFollowed := by simpa using accepted
      split
      · rename_i cause lost
        exact .missing fresh accepted (by simp [Pool.record?, lost])
      · rename_i r ok
        have found : s.pool.record? v.name = some (r.info.getD { name := v.name }) := by
          simp [Pool.record?, ok]
        unfold Search.found
        by_cases unpacked : s.unpacks v.name (r.info.getD { name := v.name })
        · rw [if_pos unpacked]
          exact .unpacked fresh accepted found unpacked
        · rw [if_neg unpacked]
          exact .selected fresh accepted found unpacked

theorem report_yields {s : Search} {v : Visit} {cause : PoolError} {u : Unit} :
    (s.report v cause).Yields u ↔ s.ignoreMissing ∨ v.requirer? = none := by
  unfold report
  cases v.requirer? with
  | none => simp
  | some requirer => cases s.ignoreMissing <;> simp

theorem walks_of_yields {s : Search} {w w' : Walk} {due : List Visit} :
    (s.walk w due).Yields w' → s.Walks w due w' := by
  fun_induction s.walk w due with
  | case1 w =>
    intro h
    exact Run.pure_yields.1 h ▸ .done
  | case2 w v due finding ih =>
    intro h
    cases finding ▸ s.finding_judged w v with
    | repeated again => exact .repeated again (ih h)
  | case3 w v due finding ih =>
    intro h
    cases finding ▸ s.finding_judged w v with
    | rejected fresh rejected => exact .rejected fresh rejected (ih h)
  | case4 w v due cause finding ih =>
    intro h
    obtain ⟨_, reported, h⟩ := Run.bind_yields.1 h
    cases finding ▸ s.finding_judged w v with
    | missing fresh accepted lost =>
      exact .missing fresh accepted lost (report_yields.1 reported) (ih h)
  | case5 w v due info finding ih =>
    intro h
    cases finding ▸ s.finding_judged w v with
    | unpacked fresh accepted found unpacked =>
      exact .unpacked fresh accepted found unpacked (ih (Run.log1_bind_yields.1 h))
  | case6 w v due info finding ih =>
    intro h
    cases finding ▸ s.finding_judged w v with
    | selected fresh accepted found kept => exact .selected fresh accepted found kept (ih h)

/-- The walk makes just the visits of the relation. -/
theorem Walks.yields {s : Search} {w w' : Walk} {due : List Visit} (h : s.Walks w due w') :
    (s.walk w due).Yields w' := by
  -- in each case the visit has only one finding that its circumstances allow
  induction h with
  | done =>
    rw [walk]
    exact Run.pure_yields.2 rfl
  | @repeated w _ v =>
    rw [walk]
    split <;> rename_i finding <;> cases finding ▸ s.finding_judged w v <;> simp_all
  | @rejected w _ v =>
    rw [walk]
    split <;> rename_i finding <;> cases finding ▸ s.finding_judged w v <;> simp_all
  | @missing w _ v =>
    rw [walk]
    split <;> rename_i finding <;> cases finding ▸ s.finding_judged w v <;>
      simp_all [Run.bind_yields, report_yields]
  | @unpacked w _ v =>
    rw [walk]
    split <;> rename_i finding <;> cases finding ▸ s.finding_judged w v <;>
      simp_all [Run.log1_bind_yields]
  | @selected w _ v =>
    rw [walk]
    split <;> rename_i finding <;> cases finding ▸ s.finding_judged w v <;> simp_all

/-! ## What is visited -/

theorem afterRepeat_visited (w : Walk) (v : Visit) : (afterRepeat w v).visited = w.visited := by
  unfold afterRepeat
  split <;> rfl

theorem afterRepeat_selected (w : Walk) (v : Visit) : (afterRepeat w v).selected = w.selected := by
  unfold afterRepeat
  split <;> rfl

theorem same_afterRepeat {w w' : Walk} (same : w.Same w') (v : Visit) :
    (afterRepeat w v).Same w' :=
  ⟨(afterRepeat_visited w v).trans same.visited, (afterRepeat_selected w v).trans same.selected⟩

theorem same_afterRepeat_right {w w' : Walk} (same : w.Same w') (v : Visit) :
    w.Same (afterRepeat w' v) :=
  ⟨same.visited.trans (afterRepeat_visited w' v).symm,
    same.selected.trans (afterRepeat_selected w' v).symm⟩

theorem leadsTo_iff_subModules {s : Search} {v : Visit} {info : ModuleInfo}
    (found : s.pool.record? v.name = some info) (unpacked : s.unpacks v.name info)
    (name : String) : s.LeadsTo v.name name ↔ ∃ next ∈ subModules v info, next.name = name := by
  constructor
  · intro h
    cases h with
    | subModule found' _ mem =>
      cases found.symm.trans found'
      exact ⟨_, List.mem_map_of_mem mem, rfl⟩
    | dependency found' kept =>
      cases found.symm.trans found'
      exact absurd unpacked kept
    | renderer found' kept =>
      cases found.symm.trans found'
      exact absurd unpacked kept
  · rintro ⟨next, mem, rfl⟩
    obtain ⟨sub, hsub, rfl⟩ := List.mem_map.1 mem
    exact .subModule found unpacked hsub

theorem follows_iff {s : Search} {info : ModuleInfo} {d : String} :
    s.follows info d ↔
      s.criteria.resolve ∧ (info.isConditional d → s.criteria.resolveConditional) := by
  unfold follows
  cases info.isConditional d <;> simp

theorem mem_dependencies {s : Search} {v next : Visit} {info : ModuleInfo} :
    next ∈ s.dependencies v info ↔
      ∃ d ∈ info.dependencies, s.follows info d ∧ v.next true (Name.resourceName d) = next := by
  simp only [dependencies, List.mem_map, List.mem_filter, and_assoc]
  exact Iff.rfl

theorem mem_renderer {s : Search} {v next : Visit} :
    next ∈ s.renderer v ↔
      s.criteria.renderer ∧ ∃ sibling, Name.renderer? v.name = some sibling ∧
        v.next false sibling = next := by
  unfold renderer
  split <;> simp_all

theorem leadsTo_iff_successors {s : Search} {v : Visit} {info : ModuleInfo}
    (found : s.pool.record? v.name = some info) (kept : ¬s.unpacks v.name info)
    (name : String) : s.LeadsTo v.name name ↔ ∃ next ∈ s.successors v info, next.name = name := by
  constructor
  · intro h
    cases h with
    | subModule found' unpacked =>
      cases found.symm.trans found'
      exact absurd unpacked kept
    | @dependency _ d found' _ resolves mem conditional =>
      cases found.symm.trans found'
      refine ⟨v.next true (Name.resourceName d), List.mem_append_left _ ?_, rfl⟩
      exact mem_dependencies.2 ⟨d, mem, follows_iff.2 ⟨resolves, conditional⟩, rfl⟩
    | renderer _ _ renders beside =>
      refine ⟨v.next false name, List.mem_append_right _ ?_, rfl⟩
      exact mem_renderer.2 ⟨renders, name, beside, rfl⟩
  · rintro ⟨next, mem, rfl⟩
    rcases List.mem_append.1 mem with mem | mem
    · obtain ⟨d, hd, follows, rfl⟩ := mem_dependencies.1 mem
      obtain ⟨resolves, conditional⟩ := follows_iff.1 follows
      exact .dependency found kept resolves hd conditional
    · obtain ⟨renders, sibling, beside, rfl⟩ := mem_renderer.1 mem
      exact .renderer found kept renders beside

theorem isFollowed_of_mem_subModules {v next : Visit} {info : ModuleInfo}
    (h : next ∈ subModules v info) : next.isFollowed := by
  obtain ⟨sub, _, rfl⟩ := List.mem_map.1 h
  rfl

theorem isFollowed_of_mem_successors {s : Search} {v next : Visit} {info : ModuleInfo}
    (h : next ∈ s.successors v info) : next.isFollowed := by
  rcases List.mem_append.1 h with h | h
  · obtain ⟨d, _, _, rfl⟩ := mem_dependencies.1 h
    rfl
  · obtain ⟨_, sibling, _, rfl⟩ := mem_renderer.1 h
    rfl

namespace Walks

variable {s : Search} {w w' : Walk} {due : List Visit}

theorem visited_mono (h : s.Walks w due w') {name : String} (hn : name ∈ w.visited) :
    name ∈ w'.visited := by
  induction h with
  | done => exact hn
  | repeated _ _ ih => exact ih (by rwa [afterRepeat_visited])
  | rejected _ _ _ ih => exact ih hn
  | missing _ _ _ _ _ ih => exact ih (Walk.mem_visit.2 (.inl hn))
  | unpacked _ _ _ _ _ ih => exact ih (Walk.mem_visit.2 (.inl hn))
  | selected _ _ _ _ _ ih => exact ih (Walk.mem_visit.2 (.inl hn))

/-- Every visit that is due has been made in the end, unless it was rejected. -/
theorem due_visited (h : s.Walks w due w') {v : Visit} (hv : v ∈ due)
    (accepted : s.filters.selects v.name v.isFollowed) : v.name ∈ w'.visited := by
  induction h with
  | done => cases hv
  | repeated again next ih =>
    rcases List.mem_cons.1 hv with rfl | hv
    · exact next.visited_mono (by rwa [afterRepeat_visited])
    · exact ih hv
  | rejected _ rejected _ ih =>
    rcases List.mem_cons.1 hv with rfl | hv
    · exact absurd accepted rejected
    · exact ih hv
  | missing _ _ _ _ next ih =>
    rcases List.mem_cons.1 hv with rfl | hv
    · exact next.visited_mono Walk.mem_visit_self
    · exact ih hv
  | unpacked _ _ _ _ next ih =>
    rcases List.mem_cons.1 hv with rfl | hv
    · exact next.visited_mono Walk.mem_visit_self
    · exact ih (List.mem_append_right _ hv)
  | selected _ _ _ _ next ih =>
    rcases List.mem_cons.1 hv with rfl | hv
    · exact next.visited_mono Walk.mem_visit_self
    · exact ih (List.mem_append_right _ hv)

/-- What a name visited during the walk leads to has been visited in the end, unless it is
excluded. -/
theorem follow_visited (h : s.Walks w due w') {name next : String} (visited : name ∈ w'.visited)
    (fresh : name ∉ w.visited) (leads : s.LeadsTo name next)
    (accepted : s.filters.selects next true) : next ∈ w'.visited := by
  induction h with
  | done => exact absurd visited fresh
  | repeated _ _ ih => exact ih visited (by rwa [afterRepeat_visited])
  | rejected _ _ _ ih => exact ih visited fresh
  | @missing w _ v _ _ _ lost _ _ ih =>
    by_cases same : name = v.name
    · subst same
      cases leads <;> simp_all
    · exact ih visited fun hn => (Walk.mem_visit.1 hn).elim fresh same
  | @unpacked w _ v _ info _ _ found unpacked walks ih =>
    by_cases same : name = v.name
    · subst same
      obtain ⟨u, hu, rfl⟩ := (leadsTo_iff_subModules found unpacked next).1 leads
      apply walks.due_visited (List.mem_append_left _ hu)
      rwa [isFollowed_of_mem_subModules hu]
    · exact ih visited fun hn => (Walk.mem_visit.1 hn).elim fresh same
  | @selected w _ v _ info _ _ found kept walks ih =>
    by_cases same : name = v.name
    · subst same
      obtain ⟨u, hu, rfl⟩ := (leadsTo_iff_successors found kept next).1 leads
      apply walks.due_visited (List.mem_append_left _ hu)
      rwa [isFollowed_of_mem_successors hu]
    · exact ih visited fun hn => (Walk.mem_visit.1 hn).elim fresh same

/-- A set that has the accepted due names, and what is followed from the names in it, has all that
the walk visits. -/
theorem mem_of_closed (h : s.Walks w due w') {V N : Set String}
    (follow : ∀ name ∈ N, ∀ next, s.LeadsTo name next → s.filters.selects next true →
      next ∉ V → next ∈ N)
    (sub : ∀ name ∈ V, name ∈ w.visited)
    (start : ∀ v ∈ due, s.filters.selects v.name v.isFollowed → v.name ∉ V → v.name ∈ N)
    {name : String} (visited : name ∈ w'.visited) : name ∈ w.visited ∨ name ∈ N := by
  -- a visit that is made is the first of its name, so its name is not in `V` and thus in `N`
  have made {w : Walk} {v : Visit} (sub : ∀ name ∈ V, name ∈ w.visited)
      (start : s.filters.selects v.name v.isFollowed → v.name ∉ V → v.name ∈ N)
      (fresh : v.name ∉ w.visited) (accepted : s.filters.selects v.name v.isFollowed) :
      v.name ∈ N := start accepted fun hv => fresh (sub _ hv)
  have grown {w : Walk} {v : Visit} (hv : v.name ∈ N)
      (h : name ∈ (w.visit v.name).visited ∨ name ∈ N) : name ∈ w.visited ∨ name ∈ N := by
    rcases h with h | h
    · exact (Walk.mem_visit.1 h).imp_right fun (same : name = v.name) => same ▸ hv
    · exact .inr h
  induction h with
  | done => exact .inl visited
  | repeated _ _ ih =>
    simp only [afterRepeat_visited] at ih
    exact ih sub (fun u hu => start u (List.mem_cons_of_mem _ hu)) visited
  | rejected _ _ _ ih => exact ih sub (fun u hu => start u (List.mem_cons_of_mem _ hu)) visited
  | missing fresh accepted _ _ _ ih =>
    have hv := made sub (start _ List.mem_cons_self) fresh accepted
    exact grown hv (ih (fun n hn => Walk.mem_visit.2 (.inl (sub n hn)))
      (fun u hu => start u (List.mem_cons_of_mem _ hu)) visited)
  | @unpacked w _ v _ info fresh accepted found unpacked _ ih =>
    have hv := made sub (start _ List.mem_cons_self) fresh accepted
    refine grown hv (ih (fun n hn => Walk.mem_visit.2 (.inl (sub n hn))) ?_ visited)
    intro u hu accepted new
    rcases List.mem_append.1 hu with hu | hu
    · rw [isFollowed_of_mem_subModules hu] at accepted
      exact follow _ hv _ ((leadsTo_iff_subModules found unpacked _).2 ⟨u, hu, rfl⟩) accepted new
    · exact start u (List.mem_cons_of_mem _ hu) accepted new
  | @selected w _ v _ info fresh accepted found kept _ ih =>
    have hv := made sub (start _ List.mem_cons_self) fresh accepted
    refine grown hv (ih (fun n hn => Walk.mem_visit.2 (.inl (sub n hn))) ?_ visited)
    intro u hu accepted new
    rcases List.mem_append.1 hu with hu | hu
    · rw [isFollowed_of_mem_successors hu] at accepted
      exact follow _ hv _ ((leadsTo_iff_successors found kept _).2 ⟨u, hu, rfl⟩) accepted new
    · exact start u (List.mem_cons_of_mem _ hu) accepted new

/-- A walk from the roots visits the least set of names that is closed. -/
theorem isLeast_closed (h : s.Walks w s.roots w') :
    IsLeast {N | s.Closed w.seen N} (w.newly w') := by
  refine ⟨⟨fun name hn => hn.2, ?_, ?_⟩, ?_⟩
  · intro name hr accepted fresh
    exact ⟨h.due_visited (v := { name }) (List.mem_map_of_mem hr) accepted, fresh⟩
  · intro name hn next leads accepted fresh
    exact ⟨h.follow_visited hn.1 hn.2 leads accepted, fresh⟩
  · intro N closed name hn
    refine (h.mem_of_closed closed.follow (fun _ hn => hn) ?_ hn.1).resolve_left hn.2
    intro v hv accepted fresh
    obtain ⟨root, hr, rfl⟩ := List.mem_map.1 hv
    exact closed.root root hr accepted fresh

theorem mem_seen (h : s.Walks w due w') (name : String) :
    name ∈ w'.seen ↔ name ∈ w.seen ∨ name ∈ w.newly w' := by
  constructor
  · intro visited
    by_cases before : name ∈ w.seen
    · exact .inl before
    · exact .inr ⟨visited, before⟩
  · rintro (before | new)
    · exact h.visited_mono before
    · exact new.1

theorem sound (h : s.Walks w due w') (sound : w.Sound) : w'.Sound := by
  induction h with
  | done => exact sound
  | repeated _ _ ih =>
    apply ih
    unfold Walk.Sound
    rwa [afterRepeat_visited, afterRepeat_selected]
  | rejected _ _ _ ih => exact ih sound
  | missing _ _ _ _ _ ih => exact ih sound.visit
  | unpacked _ _ _ _ _ ih => exact ih sound.visit
  | selected _ _ _ _ _ ih => exact ih sound.select

/-- What a walk selects, it adds to what was selected before: all names it visits that are found and
not unpacked. -/
theorem selected_names (h : s.Walks w due w') (sound : w.Sound) :
    ∃ new, w'.selected.names = w.selected.names ++ new ∧
      ∀ name, name ∈ new ↔ name ∈ w.newly w' ∧ s.Emits name := by
  induction h with
  | @done w =>
    refine ⟨[], (List.append_nil _).symm, fun name => ⟨fun h => absurd h List.not_mem_nil, ?_⟩⟩
    rintro ⟨⟨visited, fresh⟩, _⟩
    exact absurd visited fresh
  | @repeated w _ v _ _ _ ih =>
    have sound' : (afterRepeat w v).Sound := by
      unfold Walk.Sound
      rwa [afterRepeat_visited, afterRepeat_selected]
    simpa only [Walk.newly, afterRepeat_visited, afterRepeat_selected] using ih sound'
  | rejected _ _ _ ih => exact ih sound
  | @missing w w' v _ fresh _ lost _ next ih =>
    obtain ⟨new, hnames, hnew⟩ := ih sound.visit
    refine ⟨new, hnames, fun name => (hnew name).trans ?_⟩
    rw [Walk.mem_newly_visit fresh (next.visited_mono Walk.mem_visit_self)]
    refine and_congr_left fun emits => (or_iff_right ?_).symm
    rintro rfl
    simp [Emits, lost] at emits
  | @unpacked w w' v _ info fresh _ found unpacked next ih =>
    obtain ⟨new, hnames, hnew⟩ := ih sound.visit
    refine ⟨new, hnames, fun name => (hnew name).trans ?_⟩
    rw [Walk.mem_newly_visit fresh (next.visited_mono Walk.mem_visit_self)]
    refine and_congr_left fun emits => (or_iff_right ?_).symm
    rintro rfl
    simp [Emits, found, unpacked] at emits
  | @selected w w' v _ info fresh _ found kept next ih =>
    obtain ⟨new, hnames, hnew⟩ := ih sound.select
    refine ⟨v.name :: new, ?_, fun name => ?_⟩
    · rw [hnames, Walk.select_names fun h => fresh (sound _ h), List.append_assoc]
      rfl
    · rw [List.mem_cons, hnew, Walk.mem_newly_visit fresh (next.visited_mono Walk.mem_visit_self),
        or_and_right]
      refine or_congr_left (and_iff_left_of_imp ?_).symm
      rintro rfl
      exact ⟨info, found, kept⟩

end Walks

end Search

end Bundler
