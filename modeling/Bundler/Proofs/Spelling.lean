import Bundler.Proofs.Selection
import Bundler.Proofs.Texts

/-!
# Spellings in records

The names in the records of modules may lack the script extension. Which modules a definition
selects does not depend on how they are spelled there:

* `Respells` says when other names may stand in a record: each denotes the same resource, and names
  that become one are all conditional or all not;
* `Thins`: names that become one are followed once instead of several times, and a walk that leaves
  out such repetitions reaches the same (`walk_respell`);
* `resolve_respell`: so a definition comes to the same;
* `resolve_abbreviated`: leaving out the script extension is such a spelling for all names whose
  stems have no dots.
-/

namespace Bundler

/-! ## Leaving out repetitions -/

/-- The second list is the first one without some elements that are known from the start or stand
further to the front. -/
inductive Thins {α : Type} : (α → Prop) → List α → List α → Prop
  | nil {known : α → Prop} : Thins known [] []
  | keep {known : α → Prop} {a : α} {as as' : List α}
      (rest : Thins (fun b => known b ∨ b = a) as as') : Thins known (a :: as) (a :: as')
  | drop {known : α → Prop} {a : α} {as as' : List α} (again : known a)
      (rest : Thins known as as') : Thins known (a :: as) as'

namespace Thins

variable {α β : Type} {known known' : α → Prop} {as as' bs bs' : List α}

theorem mono (h : Thins known as as') (more : ∀ a, known a → known' a) : Thins known' as as' := by
  induction h generalizing known' with
  | nil => exact .nil
  | keep _ ih => exact .keep (ih fun b => Or.imp_left (more b))
  | drop again _ ih => exact .drop (more _ again) (ih more)

theorem refl (known : α → Prop) (as : List α) : Thins known as as := by
  induction as generalizing known with
  | nil => exact .nil
  | cons a rest ih => exact .keep (ih _)

theorem append (h : Thins known as as') (h' : Thins known bs bs') :
    Thins known (as ++ bs) (as' ++ bs') := by
  induction h with
  | nil => exact h'
  | keep _ ih => exact .keep (ih (h'.mono fun _ => .inl))
  | drop again _ ih => exact .drop again (ih h')

theorem map (f : α → β) {known' : β → Prop} (h : Thins known as as')
    (same : ∀ a, known a → known' (f a)) : Thins known' (as.map f) (as'.map f) := by
  induction h generalizing known' with
  | nil => exact .nil
  | keep _ ih =>
    refine .keep (ih ?_)
    rintro b (before | rfl)
    · exact .inl (same b before)
    · exact .inr rfl
  | drop again _ ih => exact .drop (same _ again) (ih same)

theorem filter (p : α → Bool) (h : Thins known as as')
    (same : ∀ a, p a → known a → known' a) : Thins known' (as.filter p) (as'.filter p) := by
  induction h generalizing known' with
  | nil => exact .nil
  | @keep _ a _ _ _ ih =>
    by_cases ha : p a
    · rw [List.filter_cons_of_pos ha, List.filter_cons_of_pos ha]
      exact .keep (ih fun b hb => Or.imp_left (same b hb))
    · rw [List.filter_cons_of_neg ha, List.filter_cons_of_neg ha]
      refine ih fun b hb before => before.elim (same b hb) ?_
      rintro rfl
      exact absurd hb ha
  | @drop _ a _ _ again _ ih =>
    by_cases ha : p a
    · rw [List.filter_cons_of_pos ha]
      exact .drop (same a ha again) (ih same)
    · rw [List.filter_cons_of_neg ha]
      exact ih same

/-- Where doing something again makes no difference, repetitions make none. -/
theorem foldl {f : β → α → β} {done : β → α → Prop} (again : ∀ b a, done b a → f b a = b)
    (does : ∀ b a, done (f b a) a) (keeps : ∀ b a c, done b a → done (f b c) a)
    (h : Thins known as as') {b : β} (start : ∀ a, known a → done b a) :
    as.foldl f b = as'.foldl f b := by
  induction h generalizing b with
  | nil => rfl
  | @keep _ a _ _ _ ih =>
    refine ih fun c hc => hc.elim (fun before => keeps b c a (start c before)) ?_
    rintro rfl
    exact does b c
  | drop known _ ih =>
    rw [List.foldl_cons, again b _ (start _ known)]
    exact ih start

end Thins

namespace NameSet

theorem foldl_insert_thins (s : NameSet) (names : List String) : ∃ added,
    (names.foldl insert s).names = s.names ++ added ∧ Thins (· ∈ s) names added := by
  induction names generalizing s with
  | nil => exact ⟨[], (List.append_nil _).symm, .nil⟩
  | cons name rest ih =>
    by_cases held : name ∈ s.names
    · have same : s.insert name = s := dif_pos held
      rw [List.foldl_cons, same]
      obtain ⟨added, names, thins⟩ := ih s
      exact ⟨added, names, .drop held thins⟩
    · have grown : (s.insert name).names = s.names ++ [name] := by rw [insert_names, if_neg held]
      obtain ⟨added, names, thins⟩ := ih (s.insert name)
      refine ⟨name :: added, ?_, .keep (thins.mono fun other => mem_insert.1)⟩
      rw [List.foldl_cons, names, grown, List.append_assoc]
      rfl

/-- A set has each of the listed names where it stands first. -/
theorem ofList_thins (names : List String) : Thins (fun _ => False) names (ofList names).names := by
  obtain ⟨added, same, thins⟩ := foldl_insert_thins ∅ names
  rw [ofList, same]
  exact thins.mono fun _ => List.not_mem_nil

theorem mem_ofList {names : List String} {name : String} : name ∈ ofList names ↔ name ∈ names := by
  have grown (s : NameSet) : name ∈ names.foldl insert s ↔ name ∈ s ∨ name ∈ names := by
    induction names generalizing s with
    | nil => simp
    | cons other rest ih => rw [List.foldl_cons, ih, mem_insert, List.mem_cons, or_assoc]
  exact (grown ∅).trans (or_iff_right List.not_mem_nil)

end NameSet

/-! ## Spelling names differently -/

namespace ModuleInfo

/-- The record with its names spelled as `f` says. -/
def respell (f : String → String) (info : ModuleInfo) : ModuleInfo :=
  { info with
    dependencies := .ofList (info.dependencies.names.map f)
    conditional := .ofList (info.conditional.names.map f)
    subModules := info.subModules.map f }

/-- Every name keeps its meaning, and names that become one are all conditional or all not. -/
structure Respells (f : String → String) (info : ModuleInfo) : Prop where
  dependency : ∀ d ∈ info.dependencies, Name.resourceName (f d) = Name.resourceName d
  subModule : ∀ sub ∈ info.subModules, Name.resourceName (f sub) = Name.resourceName sub
  conditional : ∀ d ∈ info.dependencies, ∀ c ∈ info.conditional, f c = f d → d ∈ info.conditional

theorem Respells.isConditional {f : String → String} {info : ModuleInfo} (h : info.Respells f)
    {d : String} (hd : d ∈ info.dependencies) :
    (info.respell f).isConditional (f d) = info.isConditional d := by
  refine decide_eq_decide.2 (NameSet.mem_ofList.trans (List.mem_map.trans ⟨?_, ?_⟩))
  · rintro ⟨c, hc, same⟩
    exact h.conditional d hd c hc same
  · intro conditional
    exact ⟨d, conditional, rfl⟩

-- of two names that become one, a single conditional one makes both conditional
example :
    let info : ModuleInfo :=
      { name := "a.js", dependencies := .ofList ["b", "b.js"], conditional := .ofList ["b.js"] }
    ¬info.isConditional "b" ∧ (info.respell Name.requireName).isConditional "b" := by
  decide +kernel

end ModuleInfo

def Resource.respell (f : String → String) (r : Resource) : Resource :=
  { r with info := r.info.map (ModuleInfo.respell f) }

theorem Resource.respell_record (f : String → String) (r : Resource) (name : String) :
    (r.respell f).info.getD { name } = (r.info.getD { name }).respell f := by
  unfold respell
  cases r.info <;> rfl

namespace Pool

/-- The pool with the names in all its records spelled as `f` says. What it has and finds stays. -/
def respell (f : String → String) (p : Pool) : Pool where
  names := p.names
  find name := (p.find name).map (Resource.respell f)
  findWithInfo name := (p.findWithInfo name).map (Resource.respell f)
  info name := (p.info name).map (ModuleInfo.respell f)
  contains := p.contains
  findable := p.findable
  mem_findable name r h := by
    cases found : p.findWithInfo name with
    | ok r => exact p.mem_findable name r found
    | error e =>
      rw [found] at h
      cases h

/-- One of the look-ups of the pool gives this record of the module. -/
def Describes (p : Pool) (name : String) (info : ModuleInfo) : Prop :=
  p.record? name = some info ∨ p.info name = .ok info

def Respells (f : String → String) (p : Pool) : Prop :=
  ∀ name info, p.Describes name info → info.Respells f

variable {f : String → String} {p : Pool}

theorem describes_ofResources {resources : List Resource} {name : String} {info : ModuleInfo}
    (h : (ofResources resources).Describes name info) :
    ∃ r ∈ resources, r.info.getD { name } = info := by
  have given : recordOf name (findIn resources name) = .ok info := by
    unfold Describes record? ofResources ofFind describe at h
    dsimp only at h
    cases found : findIn resources name with
    | error e => simp [found, recordOf, Except.map] at h
    | ok r => simpa [found, recordOf, Except.map] using h
  unfold recordOf findIn at given
  split at given
  · rename_i r found
    exact ⟨r, List.mem_of_find?_eq_some found, Except.ok.inj given⟩
  · cases given

end Pool

/-! ## Graphs -/

namespace ModuleGraph

variable {f : String → String} {pool : Pool}

theorem addDependency_refused {g : ModuleGraph} {a b : String} (h : ¬g.Admits ⟨a, b⟩) :
    g.addDependency a b = g := dif_neg h

theorem refused_addDependency {g : ModuleGraph} {d : Dependency} {a b : String}
    (h : ¬g.Admits d ∨ d = ⟨a, b⟩) : ¬(g.addDependency a b).Admits d := by
  unfold addDependency
  split
  · rintro ⟨differ, ha, hb, new⟩
    rcases h with refused | rfl
    · exact refused ⟨differ, ha, hb, fun h => new (List.mem_cons_of_mem _ h)⟩
    · exact new List.mem_cons_self
  · rename_i refused
    rcases h with h | rfl
    · exact h
    · exact refused

theorem addRecorded_respell (h : pool.Respells f) (g : ModuleGraph) (name : String) :
    addRecorded (pool.respell f) g name = addRecorded pool g name := by
  unfold addRecorded
  have spelled : (pool.respell f).info name = (pool.info name).map (ModuleInfo.respell f) := rfl
  cases found : pool.info name with
  | error e => rw [spelled, found]; rfl
  | ok info =>
    rw [spelled, found]
    let add (g : ModuleGraph) (d : String) := g.addDependency name (Name.resourceName d)
    let refused (g : ModuleGraph) (d : String) : Prop := ¬g.Admits ⟨name, Name.resourceName d⟩
    have again (g : ModuleGraph) (d : String) (h : refused g d) : add g d = g :=
      addDependency_refused h
    have keeps (g : ModuleGraph) (d c : String) (h : refused g d) : refused (add g c) d :=
      refused_addDependency (.inl h)
    have once : (info.dependencies.names.map f).foldl add g =
        (info.respell f).dependencies.names.foldl add g :=
      (NameSet.ofList_thins _).foldl again (fun g d => refused_addDependency (.inr rfl)) keeps
        fun _ => False.elim
    have same : (info.dependencies.names.map f).foldl add g =
        info.dependencies.names.foldl add g := by
      rw [List.foldl_map]
      refine List.foldl_ext _ _ _ fun g d hd => ?_
      exact congrArg (g.addDependency name) ((h name info (.inr found)).dependency d hd)
    exact congrArg pure (once.symm.trans same)

theorem ofPool_respell (h : pool.Respells f) (names : List String) :
    ofPool (pool.respell f) names = ofPool pool names := by
  have same : addRecorded (pool.respell f) = addRecorded pool :=
    funext₂ (addRecorded_respell h)
  rw [ofPool, ofPool, same]

end ModuleGraph

/-! ## Walks -/

def Finding.respell (f : String → String) : Finding → Finding
  | .repeated => .repeated
  | .rejected => .rejected
  | .missing cause => .missing cause
  | .unpacked info => .unpacked (info.respell f)
  | .selected info => .selected (info.respell f)

namespace Search

variable {f : String → String} {s : Search} {w w' : Walk} {v : Visit}

def respell (f : String → String) (s : Search) : Search := { s with pool := s.pool.respell f }

theorem unpacks_respell {info : ModuleInfo} (h : info.Respells f) (name : String) :
    (s.respell f).unpacks name (info.respell f) = s.unpacks name info := by
  have same : (info.subModules.map f).any (fun sub => s.pool.contains (Name.resourceName sub)) =
      info.subModules.any fun sub => s.pool.contains (Name.resourceName sub) := by
    rw [List.any_map, Bool.eq_iff_iff, List.any_eq_true, List.any_eq_true]
    refine exists_congr fun sub => and_congr_right fun hs => ?_
    rw [Function.comp_apply, h.subModule sub hs]
  exact congrArg (!Name.isLibraryDescriptor name && ·) same

theorem found_respell (h : s.pool.Respells f) {name : String} {r : Resource}
    (ok : s.pool.findWithInfo name = .ok r) :
    (s.respell f).found name (r.respell f) = (s.found name r).respell f := by
  have respells : (r.info.getD { name }).Respells f :=
    h name _ (.inl (by rw [Pool.record?, ok]))
  unfold found
  rw [r.respell_record f name]
  dsimp only
  rw [unpacks_respell respells]
  split <;> rfl

theorem finding_respell (h : s.pool.Respells f) (same : w.visited = w'.visited) (v : Visit) :
    (s.respell f).finding w' v = (s.finding w v).respell f := by
  have filters : (s.respell f).filters = s.filters := rfl
  have find : (s.respell f).pool.findWithInfo v.name =
      (s.pool.findWithInfo v.name).map (Resource.respell f) := rfl
  unfold finding
  rw [same, filters, find]
  by_cases again : v.name ∈ w'.visited
  · rw [if_pos again, if_pos again]
    rfl
  · rw [if_neg again, if_neg again]
    by_cases rejected : !s.filters.selects v.name v.isFollowed
    · rw [if_pos rejected, if_pos rejected]
      rfl
    · rw [if_neg rejected, if_neg rejected]
      cases found : s.pool.findWithInfo v.name with
      | error cause => rfl
      | ok r => exact found_respell h found

theorem subModules_respell {info : ModuleInfo} (h : info.Respells f) (v : Visit) :
    subModules v (info.respell f) = subModules v info := by
  unfold subModules
  show (info.subModules.map f).map _ = _
  rw [List.map_map]
  refine List.map_congr_left fun sub hs => ?_
  exact congrArg (v.next false) (h.subModule sub hs)

theorem follows_respell {info : ModuleInfo} (h : info.Respells f) {d : String}
    (hd : d ∈ info.dependencies) :
    (s.respell f).follows (info.respell f) (f d) = s.follows info d := by
  unfold follows
  rw [h.isConditional hd]
  rfl

/-- Of the dependencies that become one, only the first is followed. -/
theorem dependencies_respell {info : ModuleInfo} (h : info.Respells f) (v : Visit) :
    Thins (fun _ => False) (s.dependencies v info)
      ((s.respell f).dependencies v (info.respell f)) := by
  let visit (d : String) : Visit := v.next true (Name.resourceName d)
  have all : s.dependencies v info = ((info.dependencies.names.map f).filter
      ((s.respell f).follows (info.respell f))).map visit := by
    have followed : info.dependencies.names.filter (s.follows info) =
        info.dependencies.names.filter ((s.respell f).follows (info.respell f) ∘ f) :=
      List.filter_congr fun d hd => (follows_respell h hd).symm
    rw [List.filter_map, List.map_map, dependencies, followed]
    refine List.map_congr_left fun d hd => ?_
    exact congrArg (v.next true) (h.dependency d (List.mem_filter.1 hd).1).symm
  rw [all]
  exact ((NameSet.ofList_thins _).filter _ fun _ _ => id).map visit fun _ => id

/-- The visit would come to nothing. -/
def Spent (s : Search) (w : Walk) (v : Visit) : Prop :=
  v.name ∈ w.visited ∨ ¬s.filters.selects v.name v.isFollowed

theorem Spent.visit (h : s.Spent w v) (name : String) : s.Spent (w.visit name) v :=
  h.imp_left fun before => Walk.mem_visit.2 (.inl before)

theorem spent_iff : s.Spent w v ↔ s.finding w v = .repeated ∨ s.finding w v = .rejected := by
  have judged := s.finding_judged w v
  generalize s.finding w v = finding at judged
  cases judged with
  | repeated again => exact iff_of_true (.inl again) (.inl rfl)
  | rejected _ rejected => exact iff_of_true (.inr rejected) (.inr rfl)
  | missing fresh accepted => simp [Spent, fresh, accepted]
  | unpacked fresh accepted => simp [Spent, fresh, accepted]
  | selected fresh accepted => simp [Spent, fresh, accepted]

theorem thins_spent {due due' : List Visit} (spent : s.Spent w v)
    (rest : Thins (fun u => s.Spent w u ∨ u = v) due due') : Thins (s.Spent w) due due' :=
  rest.mono fun _ hu => hu.elim id fun (same : _ = v) => same ▸ spent

theorem thins_visit {due due' : List Visit}
    (rest : Thins (fun u => s.Spent w u ∨ u = v) due due') :
    Thins (s.Spent (w.visit v.name)) due due' :=
  thins_spent (.inl Walk.mem_visit_self) (rest.mono fun _ => Or.imp_left fun hu => hu.visit v.name)

theorem respells_of_finding (h : s.pool.Respells f) {info : ModuleInfo}
    (found : s.finding w v = .unpacked info ∨ s.finding w v = .selected info) :
    info.Respells f := by
  have judged := s.finding_judged w v
  rcases found with finding | finding
  · cases finding ▸ judged with
    | unpacked _ _ found => exact h _ _ (.inl found)
  · cases finding ▸ judged with
    | selected _ _ found => exact h _ _ (.inl found)

/-- A walk that leaves out visits that come to nothing reaches the same. -/
theorem walk_respell (h : s.pool.Respells f) {due due' : List Visit} (same : w.Same w')
    (thins : Thins (s.Spent w) due due') :
    Run.Alike Walk.Same (s.walk w due) ((s.respell f).walk w' due') := by
  -- induction on the visits of the first walk: one that the second walk lacks can only be repeated
  -- or rejected
  fun_induction s.walk w due generalizing w' due' with
  | case1 w =>
    cases thins
    rw [walk]
    exact .value same
  | case2 w v due finding ih =>
    have stays : s.Spent (afterRepeat w v) = s.Spent w := by
      funext u
      rw [Spent, afterRepeat_visited, Spent]
    rw [stays] at ih
    cases thins with
    | keep rest =>
      rw [walk_cons, finding_respell h same.visited, finding]
      exact ih (same_afterRepeat_right (same_afterRepeat same v) v)
        (thins_spent (spent_iff.2 (.inl finding)) rest)
    | drop _ rest => exact ih (same_afterRepeat same v) rest
  | case3 w v due finding ih =>
    cases thins with
    | keep rest =>
      rw [walk_cons, finding_respell h same.visited, finding]
      exact ih same (thins_spent (spent_iff.2 (.inr finding)) rest)
    | drop _ rest => exact ih same rest
  | case4 w v due cause finding ih =>
    cases thins with
    | keep rest =>
      rw [walk_cons, finding_respell h same.visited, finding]
      exact (Run.Alike.refl (s.report v cause)).bind fun _ _ _ =>
        ih (same.visit v.name) (thins_visit rest)
    | drop again _ => exact absurd (spent_iff.1 again) (by simp [finding])
  | case5 w v due info finding ih =>
    cases thins with
    | @keep _ _ _ due' rest =>
      have respells := respells_of_finding h (.inl finding)
      rw [walk_cons, finding_respell h same.visited, finding]
      refine (Run.Alike.log1 _ _).bind fun _ _ _ => ih (same.visit v.name) ?_
      rw [subModules_respell respells]
      exact (Thins.refl _ _).append (thins_visit rest)
    | drop again _ => exact absurd (spent_iff.1 again) (by simp [finding])
  | case6 w v due info finding ih =>
    cases thins with
    | @keep _ _ _ due' rest =>
      have respells := respells_of_finding h (.inr finding)
      rw [walk_cons, finding_respell h same.visited, finding]
      refine ih ((same.visit v.name).select v.name) (.append ?_ (thins_visit rest))
      exact ((dependencies_respell respells v).mono fun _ => False.elim).append (.refl _ _)
    | drop again _ => exact absurd (spent_iff.1 again) (by simp [finding])

theorem collect_respell (h : s.pool.Respells f) (same : w.Same w') :
    Run.Alike (fun x x' => x.1.Same x'.1 ∧ x.2 = x'.2) (s.collect w)
      ((s.respell f).collect w') := by
  have mode : (s.respell f).criteria.mode = s.criteria.mode := rfl
  have walk {v v' : Walk} (same : v.Same v') :
      Run.Alike Walk.Same (s.walk v s.roots) ((s.respell f).walk v' s.roots) :=
    walk_respell h same (.refl _ _)
  unfold collect
  rw [mode]
  split
  · refine (walk ⟨rfl, rfl⟩).bind fun alone alone' reached => ?_
    exact .value ⟨⟨same.visited, same.selected⟩, congrArg NameSet.names reached.selected⟩
  · refine (walk same).bind fun all all' reached => ?_
    exact .value ⟨reached, by rw [reached.selected, same.selected]⟩

theorem arrange_respell (h : s.pool.Respells f) (modules : List String) :
    (s.respell f).arrange modules = s.arrange modules := by
  have pool : (s.respell f).pool = s.pool.respell f := rfl
  unfold arrange
  rw [pool, ModuleGraph.ofPool_respell h]
  rfl

end Search

/-! ## Main statement -/

namespace ResolvedSection

variable {f : String → String} {pool : Pool} {w w' : Walk}

theorem ofSection_respell (h : pool.Respells f) (ignoreMissing : Bool) (same : w.Same w')
    (s : Section) : Run.Alike (fun x x' => x.1.Same x'.1 ∧ x.2 = x'.2)
      (ofSection pool ignoreMissing w s) (ofSection (pool.respell f) ignoreMissing w' s) := by
  have searches : Run.Alike (fun search search' => search.pool = pool ∧ search.respell f = search')
      (Run.ofExcept .invalidPattern (s.search pool ignoreMissing))
      (Run.ofExcept .invalidPattern (s.search (pool.respell f) ignoreMissing)) := by
    unfold Section.search
    cases FilterList.parse s.filters with
    | error e => exact .fault
    | ok filters => exact .value ⟨rfl, rfl⟩
  refine searches.bind ?_
  rintro search _ ⟨rfl, rfl⟩
  refine (Search.collect_respell h same).bind ?_
  rintro ⟨next, modules⟩ ⟨next', _⟩ ⟨same, rfl⟩
  dsimp only
  rw [Search.arrange_respell h]
  refine (Run.Alike.refl _).bind ?_
  rintro arranged _ rfl
  exact (Run.Alike.log1 _ _).bind fun _ _ _ => .value ⟨same, rfl⟩

theorem ofSections_respell (h : pool.Respells f) (ignoreMissing : Bool) (same : w.Same w')
    (sections : List Section) : Run.Alike (fun x x' => x.1.Same x'.1 ∧ x.2 = x'.2)
      (ofSections pool ignoreMissing w sections)
      (ofSections (pool.respell f) ignoreMissing w' sections) := by
  induction sections generalizing w w' with
  | nil => exact .value ⟨same, rfl⟩
  | cons s rest ih =>
    rw [ofSections, ofSections]
    refine (ofSection_respell h ignoreMissing same s).bind ?_
    rintro ⟨next, resolved⟩ ⟨next', _⟩ ⟨same, rfl⟩
    refine (ih same).bind ?_
    rintro ⟨last, others⟩ ⟨last', _⟩ ⟨same, rfl⟩
    exact .value ⟨same, rfl⟩

end ResolvedSection

/-- A definition comes to the same however the names in the records of the pool are spelled. -/
theorem Definition.resolve_respell {f : String → String} {pool : Pool} (h : pool.Respells f)
    (d : Definition) (ignoreMissing : Bool) :
    (d.resolve (pool.respell f) ignoreMissing).result = (d.resolve pool ignoreMissing).result := by
  refine (Run.Alike.result ?_).symm
  refine (Run.Alike.refl _).bind fun _ _ _ => ?_
  refine (ResolvedSection.ofSections_respell h ignoreMissing ⟨rfl, rfl⟩ d.sections).bind ?_
  rintro ⟨w, sections⟩ ⟨w', _⟩ ⟨_, rfl⟩
  dsimp only
  split <;> split <;> exact .value rfl

/-- The stems of the script names in the record have no dots, and what it depends on by two names is
conditional by both or by none: as one name it would be conditional. -/
structure ModuleInfo.Abbreviable (info : ModuleInfo) : Prop where
  dependency : ∀ d ∈ info.dependencies, Name.Abbreviable d
  subModule : ∀ sub ∈ info.subModules, Name.Abbreviable sub
  conditional : ∀ d ∈ info.dependencies, ∀ c ∈ info.conditional,
    Name.requireName c = Name.requireName d → d ∈ info.conditional

theorem ModuleInfo.Abbreviable.respells {info : ModuleInfo} (h : info.Abbreviable) :
    info.Respells Name.requireName where
  dependency d hd := Name.resourceName_requireName_iff.2 (h.dependency d hd)
  subModule sub hs := Name.resourceName_requireName_iff.2 (h.subModule sub hs)
  conditional := h.conditional

/-- **Require names in records denote the same modules.** Leaving out the script extension in all
records changes nothing in what a definition comes to, the modules of its sections or its fault, as
long as no stem has a dot: a name that keeps a dot in its last segment does not get its extension
back. -/
theorem Definition.resolve_abbreviated {pool : Pool}
    (h : ∀ name info, pool.Describes name info → info.Abbreviable) (d : Definition)
    (ignoreMissing : Bool) :
    (d.resolve (pool.respell Name.requireName) ignoreMissing).result =
      (d.resolve pool ignoreMissing).result :=
  d.resolve_respell (fun name info describes => (h name info describes).respells) ignoreMissing

/-! ## Pages and their controllers -/

namespace Pages

open Search

def poolOf (infos : List ModuleInfo) : Pool := .ofResources (infos.map fun info =>
  { name := info.name, content := [59], info := some info })

theorem describes_poolOf {infos : List ModuleInfo} {name : String} {info : ModuleInfo}
    (h : (poolOf infos).Describes name info) : info ∈ infos := by
  obtain ⟨r, hr, same⟩ := Pool.describes_ofResources h
  obtain ⟨info', hi, rfl⟩ := List.mem_map.1 hr
  exact same ▸ hi

def needed (root : String) : Section := { filters := [root], resolve := true }

def definitionOf (root : String) : Definition := { sections := [needed root] }

/-- Depends on one module by two names. -/
def page : ModuleInfo :=
  { name := "app/Page.js", dependencies := .ofList ["app/Base.js", "app/Base"] }

def base : ModuleInfo := { name := "app/Base.js" }

def pages : Pool := poolOf [page, base]

theorem pages_abbreviated : (∀ name info, pages.Describes name info → info.Abbreviable) ∧
    ((definitionOf "app/Page.js").resolve (pages.respell Name.requireName) false).result =
      ((definitionOf "app/Page.js").resolve pages false).result := by
  have abbreviable : ∀ name info, pages.Describes name info → info.Abbreviable := by
    intro name info describes
    rcases List.mem_pair.1 (describes_poolOf describes) with rfl | rfl
    · exact ⟨by decide +kernel, by decide +kernel, by decide +kernel⟩
    · exact ⟨by decide +kernel, by decide +kernel, by decide +kernel⟩
  exact ⟨abbreviable, Definition.resolve_abbreviated abbreviable _ _⟩

/-! ### Stems with dots -/

def controller : ModuleInfo :=
  { name := "app/Page.controller.js", dependencies := .ofList ["app/Base.controller.js"] }

def baseController : ModuleInfo := { name := "app/Base.controller.js" }

def controllers : Pool := poolOf [controller, baseController]

def searchOf (pool : Pool) : Search :=
  ⟨pool, false, needed "app/Page.controller.js", [⟨true, .directory "app/Page.controller.js"⟩]⟩

theorem roots_eq (pool : Pool) :
    (searchOf pool).roots = [⟨"app/Page.controller.js", [], false⟩] := by
  have listed : (searchOf pool).filters.resources? = some ["app/Page.controller.js"] := by
    show FilterList.resources? [⟨true, .directory "app/Page.controller.js"⟩] = _
    decide +kernel
  rw [roots, listed]
  rfl

theorem walk_controllers : ∃ reached,
    ((searchOf controllers).walk {} (searchOf controllers).roots).Yields reached ∧
      reached.selected.names = ["app/Page.controller.js", "app/Base.controller.js"] := by
  have page : (searchOf controllers).finding {} ⟨"app/Page.controller.js", [], false⟩ =
      .selected controller := by
    decide +kernel
  have leads : (searchOf controllers).successors ⟨"app/Page.controller.js", [], false⟩ controller =
      [⟨"app/Base.controller.js", ["app/Page.controller.js"], true⟩] := by
    decide +kernel
  have base : (searchOf controllers).finding
      ((Walk.visit {} "app/Page.controller.js").select "app/Page.controller.js")
        ⟨"app/Base.controller.js", ["app/Page.controller.js"], true⟩ =
      .selected baseController := by
    decide +kernel
  have ends : (searchOf controllers).successors
      ⟨"app/Base.controller.js", ["app/Page.controller.js"], true⟩ baseController = [] := by
    decide +kernel
  rw [roots_eq, walk_cons, page]
  dsimp only
  rw [leads, List.append_nil, walk_cons, base]
  dsimp only
  rw [ends, List.append_nil, walk]
  exact ⟨_, Run.pure_yields.2 rfl, rfl⟩

theorem walk_abbreviated (reached : Walk) :
    ¬((searchOf (controllers.respell Name.requireName)).walk {}
      (searchOf (controllers.respell Name.requireName)).roots).Yields reached := by
  let s := searchOf (controllers.respell Name.requireName)
  have page : s.finding {} ⟨"app/Page.controller.js", [], false⟩ =
      .selected (controller.respell Name.requireName) := by
    decide +kernel
  have leads : s.successors ⟨"app/Page.controller.js", [], false⟩
      (controller.respell Name.requireName) =
        [⟨"app/Base.controller", ["app/Page.controller.js"], true⟩] := by
    decide +kernel
  have base : s.finding
      ((Walk.visit {} "app/Page.controller.js").select "app/Page.controller.js")
        ⟨"app/Base.controller", ["app/Page.controller.js"], true⟩ =
      .missing (.notFound "app/Base.controller") := by
    decide +kernel
  intro h
  rw [roots_eq, walk_cons, page] at h
  dsimp only at h
  rw [leads, List.append_nil, walk_cons, base] at h
  obtain ⟨_, reported, _⟩ := Run.bind_yields.1 h
  exact Run.fail_yields reported

def resolved : Resolved := ⟨definitionOf "app/Page.controller.js",
  [⟨needed "app/Page.controller.js", ["app/Page.controller.js", "app/Base.controller.js"]⟩]⟩

/-- By its require name, which keeps a dot, a controller is not found. -/
theorem controllers_abbreviated :
    ((definitionOf "app/Page.controller.js").resolve controllers false).Yields resolved ∧
    ∀ r, ¬((definitionOf "app/Page.controller.js").resolve
      (controllers.respell Name.requireName) false).Yields r := by
  constructor
  · obtain ⟨reached, walk, selected⟩ := walk_controllers
    refine Definition.resolve_yields.2 ⟨rfl, reached, ?_⟩
    refine ResolvedSection.ofSections_cons.2 ⟨_, _, ?_, _, Run.pure_yields.2 rfl, rfl⟩
    refine ResolvedSection.ofSection_yields.2
      ⟨searchOf controllers, rfl, _, ?_, _, Run.pure_yields.2 rfl, rfl⟩
    exact Search.collect_yields.2 ⟨reached, walk, rfl, selected.symm⟩
  · intro r h
    obtain ⟨_, w, all⟩ := Definition.resolve_yields.1 h
    obtain ⟨next, first, this, _⟩ := ResolvedSection.ofSections_cons.1 all
    obtain ⟨search, parsed, modules, collected, _⟩ := ResolvedSection.ofSection_yields.1 this
    have parsed' : (needed "app/Page.controller.js").search
        (controllers.respell Name.requireName) false = .ok (searchOf _) := rfl
    cases Except.ok.inj (parsed'.symm.trans parsed)
    obtain ⟨reached, walk, _⟩ := Search.collect_yields.1 collected
    exact walk_abbreviated reached walk

end Pages

end Bundler
