import Bundler.Proofs.Selection
import Mathlib.Data.Set.Card

/-!
# Visits within visits

A walk keeps the visits that are due on a list. Seen otherwise, every visit makes the visits that it
leads to one after the other before it ends. Visits nested in this way are a recursion over a graph
that may have cycles of all kinds, and whose names may even be made up on the way.

* `Search.nested` is this recursion down to some depth, and `Search.Calls` says which visits a visit
  makes directly;
* `recursion_ends`: the recursion ends, since on every path of nested visits the outer ones are of
  different names that the pool finds. Deep enough to hold all of these, it is the walk.
-/

namespace Bundler

/-! ## Names that a pool finds -/

namespace Pool

/-- The names under which the pool finds something. -/
def found (p : Pool) : Set String := {name | ∃ r, p.findWithInfo name = .ok r}

theorem found_subset (p : Pool) : p.found ⊆ p.findable.toFinset := by
  rintro name ⟨r, ok⟩
  exact List.mem_toFinset.2 (p.mem_findable name r ok)

theorem found_finite (p : Pool) : p.found.Finite :=
  p.findable.toFinset.finite_toSet.subset p.found_subset

theorem ncard_found_le (p : Pool) : p.found.ncard ≤ p.findable.length :=
  calc p.found.ncard
    _ ≤ (p.findable.toFinset : Set String).ncard := Set.ncard_le_ncard p.found_subset
    _ = p.findable.toFinset.card := Set.ncard_coe_finset _
    _ ≤ p.findable.length := p.findable.toFinset_card_le

end Pool

namespace Run

variable {α β : Type}

/-- What comes after a run matters only for the value it yields. -/
theorem bind_congr_of_yields {r : Run α} {f g : α → Run β} (h : ∀ a, r.Yields a → f a = g a) :
    r >>= f = r >>= g := by
  obtain ⟨log, result⟩ := r
  cases result with
  | error e => rfl
  | ok a =>
    show Run.mk (log ++ (f a).log) (f a).result = Run.mk (log ++ (g a).log) (g a).result
    rw [h a rfl]

end Run

namespace Search

variable {s : Search} {w w' : Walk} {v : Visit}

/-- What the pool finds and the walk has not visited yet. -/
def unvisited (s : Search) (w : Walk) : Set String := s.pool.found \ w.seen

theorem unvisited_finite (s : Search) (w : Walk) : (s.unvisited w).Finite :=
  s.pool.found_finite.subset Set.sdiff_subset

theorem ncard_unvisited_le (s : Search) (w : Walk) :
    (s.unvisited w).ncard ≤ s.pool.found.ncard :=
  Set.ncard_le_ncard Set.sdiff_subset s.pool.found_finite

theorem ncard_unvisited_mono (more : ∀ name ∈ w.visited, name ∈ w'.visited) :
    (s.unvisited w').ncard ≤ (s.unvisited w).ncard :=
  Set.ncard_le_ncard (Set.sdiff_subset_sdiff_right more) (s.unvisited_finite w)

/-- A visit that leads on takes its own name from what is left. -/
theorem LeadsOn.ncard_lt (h : s.LeadsOn w v)
    (more : ∀ name ∈ (w.visit v.name).visited, name ∈ w'.visited) :
    (s.unvisited w').ncard < (s.unvisited w).ncard := by
  obtain ⟨fresh, found⟩ := h
  refine Set.ncard_lt_ncard ((Set.ssubset_iff_of_subset ?_).2 ?_) (s.unvisited_finite w)
  · exact Set.sdiff_subset_sdiff_right fun name hn => more name (Walk.mem_visit.2 (.inl hn))
  · exact ⟨v.name, ⟨found, fresh⟩, fun left => left.2 (more v.name Walk.mem_visit_self)⟩

/-! ## The recursion -/

/-- Makes a visit and, before it ends, those that it leads to. Visits that lie deeper than `depth`
are left to `beyond`. -/
def nested (s : Search) (beyond : Walk → Visit → Run Walk) : Nat → Walk → Visit → Run Walk
  | 0, w, v => beyond w v
  | depth + 1, w, v =>
    match s.finding w v with
    | .repeated => return afterRepeat w v
    | .rejected => return w
    | .missing cause => do
      s.report v cause
      return w.visit v.name
    | .unpacked info => do
      Run.log1 (.unpacking v.name info.subModules.length)
      (subModules v info).foldlM (s.nested beyond depth) (w.visit v.name)
    | .selected info =>
      (s.successors v info).foldlM (s.nested beyond depth) ((w.visit v.name).select v.name)

theorem walk_nil (s : Search) (w : Walk) : s.walk w [] = pure w := by rw [walk]

theorem walk_append (s : Search) (w : Walk) (due later : List Visit) :
    s.walk w (due ++ later) = s.walk w due >>= fun reached => s.walk reached later := by
  fun_induction s.walk w due with
  | case1 w => rw [List.nil_append, pure_bind]
  | case2 w v due finding ih =>
    rw [List.cons_append, walk_cons, finding]
    exact ih
  | case3 w v due finding ih =>
    rw [List.cons_append, walk_cons, finding]
    exact ih
  | case4 w v due cause finding ih =>
    rw [List.cons_append, walk_cons, finding, bind_assoc, ← ih]
  | case5 w v due info finding ih =>
    rw [List.cons_append, walk_cons, finding, bind_assoc, ← ih, List.append_assoc]
  | case6 w v due info finding ih =>
    rw [List.cons_append, walk_cons, finding, ← ih, List.append_assoc]

theorem foldlM_eq_walk {visit : Walk → Visit → Run Walk} (left : Nat)
    (single : ∀ w v, (s.unvisited w).ncard ≤ left → visit w v = s.walk w [v])
    (bound : (s.unvisited w).ncard ≤ left) (due : List Visit) :
    due.foldlM visit w = s.walk w due := by
  induction due generalizing w with
  | nil => exact (s.walk_nil w).symm
  | cons v due ih =>
    have split : s.walk w (v :: due) = s.walk w [v] >>= fun reached => s.walk reached due :=
      s.walk_append w [v] due
    rw [List.foldlM_cons, single w v bound, split]
    refine Run.bind_congr_of_yields fun reached first => ih ?_
    exact (ncard_unvisited_mono fun _ => (walks_of_yields first).visited_mono).trans bound

/-- Deep enough, nested visits are a walk: what lies beyond is never needed. -/
theorem nested_eq_walk (beyond : Walk → Visit → Run Walk) {depth : Nat}
    (enough : (s.unvisited w).ncard < depth) (v : Visit) :
    s.nested beyond depth w v = s.walk w [v] := by
  induction depth generalizing w v with
  | zero => omega
  | succ depth ih =>
    -- a visit that leads on leaves less to be found, so the visits in it can be one less deep
    have inner (leads : s.LeadsOn w v) (due : List Visit) (w' : Walk)
        (same : w'.visited = (w.visit v.name).visited) :
        due.foldlM (s.nested beyond depth) w' = s.walk w' due := by
      have less : (s.unvisited w').ncard < (s.unvisited w).ncard :=
        leads.ncard_lt fun name hn => same ▸ hn
      refine foldlM_eq_walk (depth - 1) (fun w v bound => ih ?_ v) ?_ due
      · omega
      · omega
    rw [nested, walk_cons]
    cases finding : s.finding w v with
    | repeated => exact (s.walk_nil _).symm
    | rejected => exact (s.walk_nil _).symm
    | missing cause => simp only [walk_nil]
    | unpacked info =>
      simp only [List.append_nil, inner (leadsOn (.inl finding)) _ (w.visit v.name) rfl]
    | selected info =>
      let entered := (w.visit v.name).select v.name
      simp only [List.append_nil, inner (leadsOn (.inr finding)) _ entered rfl, entered]

/-! ## Paths of nested visits -/

/-- The first visit, made in its walk, makes the second one directly, in the walk that the visits
before that have reached. -/
inductive Calls (s : Search) : Walk × Visit → Walk × Visit → Prop
  | subModule {w reached : Walk} {v next : Visit} {info : ModuleInfo} {before after : List Visit}
      (unpacked : s.finding w v = .unpacked info)
      (split : subModules v info = before ++ next :: after)
      (first : (s.walk (w.visit v.name) before).Yields reached) : Calls s (w, v) (reached, next)
  | successor {w reached : Walk} {v next : Visit} {info : ModuleInfo} {before after : List Visit}
      (selected : s.finding w v = .selected info)
      (split : s.successors v info = before ++ next :: after)
      (first : (s.walk ((w.visit v.name).select v.name) before).Yields reached) :
      Calls s (w, v) (reached, next)

variable {outer inner : Walk × Visit}

theorem Calls.leadsOn (h : s.Calls outer inner) : s.LeadsOn outer.1 outer.2 := by
  cases h with
  | subModule unpacked => exact Search.leadsOn (.inl unpacked)
  | successor selected => exact Search.leadsOn (.inr selected)

theorem Calls.visited (h : s.Calls outer inner) :
    ∀ name ∈ (outer.1.visit outer.2.name).visited, name ∈ inner.1.visited := by
  cases h with
  | subModule _ _ first => exact fun _ => (walks_of_yields first).visited_mono
  | successor _ _ first => exact fun _ => (walks_of_yields first).visited_mono

/-- Visits are not nested without end. -/
theorem wellFounded_calls (s : Search) : WellFounded fun inner outer => s.Calls outer inner := by
  apply Subrelation.wf (r := fun inner outer : Walk × Visit =>
    (s.unvisited inner.1).ncard < (s.unvisited outer.1).ncard)
  · intro inner outer h
    exact h.leadsOn.ncard_lt h.visited
  · exact (measure fun call : Walk × Visit => (s.unvisited call.1).ncard).wf

/-- The names of the visits on a path that others are nested in. -/
def outerNames (path : List (Walk × Visit)) : List String := path.dropLast.map (·.2.name)

theorem outerNames_cons_cons (first second : Walk × Visit) (rest : List (Walk × Visit)) :
    outerNames (first :: second :: rest) = first.2.name :: outerNames (second :: rest) := rfl

/-- None of the outer visits of a path has been made where the path begins. -/
theorem outerNames_fresh {first : Walk × Visit} {rest : List (Walk × Visit)}
    (path : (first :: rest).IsChain s.Calls) :
    ∀ name ∈ outerNames (first :: rest), name ∈ s.pool.found ∧ name ∉ first.1.visited := by
  induction rest generalizing first with
  | nil => simp [outerNames]
  | cons second rest ih =>
    obtain ⟨call, inner⟩ := List.isChain_cons_cons.1 path
    obtain ⟨fresh, found⟩ := call.leadsOn
    rw [outerNames_cons_cons]
    refine List.forall_mem_cons.2 ⟨⟨found, fresh⟩, fun name hn => ?_⟩
    obtain ⟨found, later⟩ := ih inner name hn
    exact ⟨found, fun before => later (call.visited name (Walk.mem_visit.2 (.inl before)))⟩

theorem outerNames_nodup {path : List (Walk × Visit)} (h : path.IsChain s.Calls) :
    (outerNames path).Nodup := by
  induction path with
  | nil => exact .nil
  | cons first rest ih =>
    cases rest with
    | nil => exact .nil
    | cons second rest =>
      obtain ⟨call, inner⟩ := List.isChain_cons_cons.1 h
      rw [outerNames_cons_cons]
      refine List.nodup_cons.2 ⟨fun again => ?_, ih inner⟩
      exact (outerNames_fresh inner _ again).2 (call.visited _ Walk.mem_visit_self)

theorem length_path_le {path : List (Walk × Visit)} (h : path.IsChain s.Calls)
    (found : ∀ name ∈ outerNames path, name ∈ s.pool.found) :
    path.length ≤ s.pool.found.ncard + 1 := by
  have outer : (outerNames path).length ≤ s.pool.found.ncard := by
    rw [← List.toFinset_card_of_nodup (outerNames_nodup h), ← Set.ncard_coe_finset]
    exact Set.ncard_le_ncard (fun name hn => found name (List.mem_toFinset.1 hn))
      s.pool.found_finite
  rw [outerNames, List.length_map, List.length_dropLast] at outer
  omega

/-! ## Main statement -/

/-- **The recursion of visits ends.** On whatever pool, and from whatever walk it starts: visits are
not nested without end. On every path of nested visits, the visits that others are nested in are of
different names that the pool finds, so the path has at most one visit more than there are such
names. Nested no deeper than that, visits come to the same as the walk, whatever would become of
deeper ones. -/
theorem recursion_ends (s : Search) :
    WellFounded (fun inner outer => s.Calls outer inner) ∧
    (∀ path : List (Walk × Visit), path.IsChain s.Calls →
      (outerNames path).Nodup ∧ (∀ name ∈ outerNames path, name ∈ s.pool.found) ∧
      path.length ≤ s.pool.found.ncard + 1) ∧
    ∀ beyond depth w due, s.pool.found.ncard + 1 ≤ depth →
      due.foldlM (s.nested beyond depth) w = s.walk w due := by
  refine ⟨s.wellFounded_calls, fun path chain => ?_, fun beyond depth w due enough => ?_⟩
  · have found : ∀ name ∈ outerNames path, name ∈ s.pool.found := by
      cases path with
      | nil => simp [outerNames]
      | cons first rest => exact fun name hn => (outerNames_fresh chain name hn).1
    exact ⟨outerNames_nodup chain, found, length_path_le chain found⟩
  · refine foldlM_eq_walk s.pool.found.ncard (fun w v bound => ?_) (s.ncard_unvisited_le w) due
    exact nested_eq_walk beyond (by omega) v

end Search

/-! ### A cycle behind a bundle -/

namespace Vendored

/-- From the bundle to its second sub-module, from there around a cycle. -/
def path : List (Walk × Visit) :=
  let start : Walk := {}
  let first := (start.visit "vendor/bundle.js").visit "embedded/mod1.js"
  let second := (first.visit "lib/mod2.js").select "lib/mod2.js"
  let third := (second.visit "lib/mod4.js").select "lib/mod4.js"
  [(start, ⟨"vendor/bundle.js", [], false⟩),
    (first, ⟨"lib/mod2.js", ["vendor/bundle.js"], false⟩),
    (second, ⟨"lib/mod4.js", ["lib/mod2.js", "vendor/bundle.js"], true⟩),
    (third, ⟨"lib/mod2.js", ["lib/mod4.js", "lib/mod2.js", "vendor/bundle.js"], true⟩)]

theorem path_calls : path.IsChain search.Calls := by
  refine .cons_cons ?bundle (.cons_cons ?mod2 (.cons_cons ?mod4 (.singleton _)))
  case bundle =>
    let mod1 : Visit := ⟨"embedded/mod1.js", ["vendor/bundle.js"], false⟩
    have inner : Search.subModules ⟨"vendor/bundle.js", [], false⟩ bundle =
        [mod1] ++ ⟨"lib/mod2.js", ["vendor/bundle.js"], false⟩ :: [] := by
      decide +kernel
    refine .subModule ?_ inner ?_
    · decide +kernel
    · exact (Search.Walks.missing (by decide) (by decide +kernel) rfl (.inl rfl) .done).yields
  case mod2 =>
    have needed : search.successors ⟨"lib/mod2.js", ["vendor/bundle.js"], false⟩ mod2 =
        [] ++ ⟨"lib/mod4.js", ["lib/mod2.js", "vendor/bundle.js"], true⟩ :: [] := by
      decide +kernel
    refine .successor ?_ needed Search.Walks.done.yields
    decide +kernel
  case mod4 =>
    let trail := ["lib/mod4.js", "lib/mod2.js", "vendor/bundle.js"]
    have back : search.successors ⟨"lib/mod4.js", ["lib/mod2.js", "vendor/bundle.js"], true⟩ mod4 =
        [] ++ ⟨"lib/mod2.js", trail, true⟩ :: [⟨"lib/absent.js", trail, true⟩] := by
      decide +kernel
    refine .successor ?_ back Search.Walks.done.yields
    decide +kernel

theorem path_ends : path.IsChain search.Calls ∧
    (Search.outerNames path).Nodup ∧ path.length ≤ pool.found.ncard + 1 ∧
    ∀ beyond, search.roots.foldlM (search.nested beyond 4) {} = search.walk {} search.roots := by
  obtain ⟨_, paths, walks⟩ := search.recursion_ends
  obtain ⟨nodup, _, length⟩ := paths path path_calls
  refine ⟨path_calls, nodup, length, fun beyond => walks beyond 4 {} search.roots ?_⟩
  have known : pool.findable.length = 3 := rfl
  have bound : search.pool.found.ncard ≤ pool.findable.length := pool.ncard_found_le
  omega

end Vendored

end Bundler
