import Bundler.Filter
import Bundler.Pool
import Bundler.Run

/-!
# Walks

A walk visits the modules of a section depth first. `Search.finding` decides what a visit comes to;
`Search.walk` follows the stack of visits that are still due. Only what the pool finds has
successors, and nothing is visited twice, so the walk ends on every pool.
-/

namespace Bundler

/-- What earlier visits of a resolution have come to. -/
structure Walk where
  visited : NameSet := ∅
  /-- In order of selection. -/
  selected : NameSet := ∅
  /-- How often a followed name had been visited before. -/
  repeats : Nat := 0
  deriving DecidableEq, Inhabited

namespace Walk

def visit (w : Walk) (name : String) : Walk := { w with visited := w.visited.insert name }

def select (w : Walk) (name : String) : Walk := { w with selected := w.selected.insert name }

end Walk

/-- A visit that is due: a name and the modules it was followed from, the nearest first. A root was
followed from none. -/
structure Visit where
  name : String
  trail : List String := []
  isDependency : Bool := false
  deriving DecidableEq, Repr

namespace Visit

/-- What is followed from a module need not be picked, only not be excluded. -/
def isFollowed (v : Visit) : Bool := !v.trail.isEmpty

/-- A visit that this one leads to. -/
def next (v : Visit) (isDependency : Bool) (name : String) : Visit :=
  ⟨name, v.name :: v.trail, isDependency⟩

/-- The module that depends on this one. -/
def requirer? (v : Visit) : Option String := if v.isDependency then v.trail.head? else none

end Visit

/-- What a visit comes to. -/
inductive Finding where
  | repeated
  | rejected
  | missing (cause : PoolError)
  /-- A bundle in whose place its sub-modules are visited. -/
  | unpacked (info : ModuleInfo)
  | selected (info : ModuleInfo)
  deriving DecidableEq

/-- How a section is searched for its modules. -/
structure Search where
  pool : Pool
  ignoreMissing : Bool
  criteria : Section
  filters : FilterList

namespace Search

/-- A bundle is unpacked if one of its sub-modules exists on its own. -/
def unpacks (s : Search) (name : String) (info : ModuleInfo) : Bool :=
  !Name.isLibraryDescriptor name &&
    info.subModules.any fun sub => s.pool.contains (Name.resourceName sub)

def found (s : Search) (name : String) (r : Resource) : Finding :=
  let info := r.info.getD { name }
  if s.unpacks name info then .unpacked info else .selected info

def finding (s : Search) (w : Walk) (v : Visit) : Finding :=
  if v.name ∈ w.visited then .repeated
  else if !s.filters.selects v.name v.isFollowed then .rejected
  else match s.pool.findWithInfo v.name with
    | .error cause => .missing cause
    | .ok r => s.found v.name r

def afterRepeat (w : Walk) (v : Visit) : Walk :=
  if v.isFollowed then { w with repeats := w.repeats + 1 } else w

/-- A missing dependency is a fault unless the search is lenient; anything else may be missing. -/
def report (s : Search) (v : Visit) (cause : PoolError) : Run Unit :=
  match v.requirer? with
  | some requirer =>
    if s.ignoreMissing then Run.log1 (.missing v.name requirer)
    else Run.fail (.missingModule v.name requirer cause)
  | none => Run.log1 (.unavailable v.name cause)

def subModules (v : Visit) (info : ModuleInfo) : List Visit :=
  info.subModules.map fun sub => v.next false (Name.resourceName sub)

/-- Whether a dependency is one that the section follows. -/
def follows (s : Search) (info : ModuleInfo) (dependency : String) : Bool :=
  s.criteria.resolve && (s.criteria.resolveConditional || !info.isConditional dependency)

def dependencies (s : Search) (v : Visit) (info : ModuleInfo) : List Visit :=
  (info.dependencies.names.filter (s.follows info)).map fun d =>
    v.next true (Name.resourceName d)

def renderer (s : Search) (v : Visit) : List Visit :=
  if s.criteria.renderer then ((Name.renderer? v.name).map (v.next false)).toList else []

/-- What a selected module leads to: its dependencies, then its renderer. -/
def successors (s : Search) (v : Visit) (info : ModuleInfo) : List Visit :=
  s.dependencies v info ++ s.renderer v

/-! ## The walk ends -/

/-- How much the pool still has to offer. -/
def remaining (s : Search) (w : Walk) : Nat := s.pool.findable.countP fun name => name ∉ w.visited

theorem remaining_visit_le (s : Search) (w : Walk) (name : String) :
    s.remaining (w.visit name) ≤ s.remaining w := by
  refine List.countP_mono_left fun other _ h => ?_
  simp only [decide_eq_true_eq] at h ⊢
  exact fun hm => h (NameSet.mem_insert.2 (.inl hm))

theorem countP_lt {p q : String → Bool} {names : List String} {name : String}
    (le : ∀ other, p other → q other) (hm : name ∈ names) (hp : ¬p name) (hq : q name) :
    names.countP p < names.countP q := by
  induction names with
  | nil => cases hm
  | cons n rest ih =>
    have mono : rest.countP p ≤ rest.countP q := List.countP_mono_left fun other _ => le other
    rw [List.countP_cons, List.countP_cons]
    rcases List.mem_cons.1 hm with rfl | hr
    · simp only [hp, hq, Bool.false_eq_true, if_false, if_true]
      omega
    · have := ih hr
      by_cases hpn : p n
      · simp only [hpn, le n hpn, if_true]
        omega
      · simp only [hpn, Bool.false_eq_true, if_false]
        omega

theorem remaining_visit_lt (s : Search) {w : Walk} {name : String} {r : Resource}
    (fresh : name ∉ w.visited) (ok : s.pool.findWithInfo name = .ok r) :
    s.remaining (w.visit name) < s.remaining w := by
  refine countP_lt ?_ (s.pool.mem_findable name r ok) ?_ ?_
  · intro other h
    simp only [decide_eq_true_eq] at h ⊢
    exact fun hm => h (NameSet.mem_insert.2 (.inl hm))
  · simp only [decide_eq_true_eq]
    exact fun h => h (NameSet.mem_insert.2 (.inr rfl))
  · simpa using fresh

/-- A visit that leads on is the first of its name and found something. -/
def LeadsOn (s : Search) (w : Walk) (v : Visit) : Prop :=
  v.name ∉ w.visited ∧ ∃ r, s.pool.findWithInfo v.name = .ok r

theorem leadsOn {s : Search} {w : Walk} {v : Visit} {info : ModuleInfo}
    (h : s.finding w v = .unpacked info ∨ s.finding w v = .selected info) : s.LeadsOn w v := by
  unfold finding at h
  split at h
  · simp at h
  · rename_i fresh
    refine ⟨fresh, ?_⟩
    split at h
    · simp at h
    · split at h
      · simp at h
      · exact ⟨_, by assumption⟩

theorem remaining_lt {s : Search} {w : Walk} {v : Visit} (h : s.LeadsOn w v) :
    s.remaining (w.visit v.name) < s.remaining w :=
  let ⟨fresh, _, ok⟩ := h
  s.remaining_visit_lt fresh ok

/-! ## Walking -/

/-- Makes the visits that are due, each followed at once by those it leads to. -/
def walk (s : Search) (w : Walk) : List Visit → Run Walk
  | [] => return w
  | v :: rest =>
    match _h : s.finding w v with
    | .repeated => s.walk (afterRepeat w v) rest
    | .rejected => s.walk w rest
    | .missing cause => do
      s.report v cause
      s.walk (w.visit v.name) rest
    | .unpacked info => do
      Run.log1 (.unpacking v.name info.subModules.length)
      s.walk (w.visit v.name) (subModules v info ++ rest)
    | .selected info =>
      s.walk ((w.visit v.name).select v.name) (s.successors v info ++ rest)
termination_by due => (s.remaining w, due.length)
decreasing_by
  · have : s.remaining (afterRepeat w v) = s.remaining w := by
      unfold afterRepeat
      split <;> rfl
    rw [this]
    exact .right _ (by simp)
  · exact .right _ (by simp)
  · rcases Nat.lt_or_eq_of_le (s.remaining_visit_le w v.name) with h | h
    · exact .left _ _ h
    · rw [h]
      exact .right _ (by simp)
  · exact .left _ _ (remaining_lt (leadsOn (.inl _h)))
  · exact .left _ _ (remaining_lt (leadsOn (.inr _h)))

end Search

end Bundler
