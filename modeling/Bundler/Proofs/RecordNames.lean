import Bundler.Proofs.Gathering
import Bundler.Proofs.Texts

/-!
# Names in records

A record is built by calls that add dependencies and sub-modules in any order. What it lists can be
told from the calls: `after_tracks`. What comes with a sub-module is listed by resource names, while
a dependency that is added itself keeps its spelling. `calls_distinguish` says when a dependency
denotes the same module as a sub-module or as the record.
-/

namespace Bundler

namespace Name

variable {a b : String}

theorem resourceName_undotted (h : resourceName a ≠ a) : resourceName a = a ++ ".js" := by
  unfold resourceName at h ⊢
  split
  · rename_i dotted
    exact absurd (if_pos dotted) h
  · rfl

theorem resourceName_idem (name : String) :
    resourceName (resourceName name) = resourceName name := by
  by_cases own : resourceName name = name
  · rw [own, own]
  · rw [resourceName_undotted own, resourceName_script]

/-- No resource has two names without an extension. -/
theorem eq_of_resourceName (ha : resourceName a ≠ a) (hb : resourceName b ≠ b)
    (same : resourceName a = resourceName b) : a = b := by
  rw [resourceName_undotted ha, resourceName_undotted hb] at same
  exact (String.append_left_inj ".js").1 same

end Name

namespace ModuleInfo

/-- What can be called on a record. -/
inductive Call where
  | dependency (name : String) (conditional : Bool)
  | subModule (sub : ModuleInfo)

def call (info : ModuleInfo) : Call → ModuleInfo
  | .dependency name conditional => info.addDependency name conditional
  | .subModule sub => info.addSubModule sub

/-- The record of this name after some calls. -/
def after (name : String) (calls : List Call) : ModuleInfo := calls.foldl call { name }

/-- The dependency is added itself, in this spelling. -/
def Added (calls : List Call) (x : String) : Prop :=
  ∃ conditional, .dependency x conditional ∈ calls

/-- The sub-module is the first with its resource name. -/
def Embeds (calls : List Call) (sub : ModuleInfo) : Prop :=
  ∃ before after, calls = before ++ .subModule sub :: after ∧
    ∀ other, .subModule other ∈ before → Name.resourceName other.name ≠ Name.resourceName sub.name

/-- What is added or mentioned by a sub-module. -/
def mentioned (calls : List Call) : Set String :=
  {x | Added calls x ∨ ∃ sub, Embeds calls sub ∧ sub.Mentions x}

/-- What is added or mentioned without a condition. -/
def needed (calls : List Call) : Set String :=
  {x | .dependency x false ∈ calls ∨ ∃ sub, Embeds calls sub ∧ sub.Needs x}

variable {name : String} {calls : List Call} {c : Call} {sub : ModuleInfo}

/-! ## One more call -/

theorem after_concat (name : String) (calls : List Call) (c : Call) :
    after name (calls ++ [c]) = (after name calls).call c := List.foldl_append

theorem embeds_concat : Embeds (calls ++ [c]) sub ↔ Embeds calls sub ∨ c = .subModule sub ∧
    ∀ other, .subModule other ∈ calls →
      Name.resourceName other.name ≠ Name.resourceName sub.name := by
  constructor
  · rintro ⟨before, after, split, first⟩
    cases after using List.reverseRecOn with
    | nil =>
      obtain ⟨rfl, last⟩ := List.append_inj' split rfl
      exact .inr ⟨(List.cons.inj last).1, first⟩
    | append_singleton after last =>
      rw [← List.cons_append, ← List.append_assoc] at split
      obtain ⟨rfl, _⟩ := List.append_inj' split rfl
      exact .inl ⟨before, after, rfl, first⟩
  · rintro (⟨before, after, rfl, first⟩ | ⟨rfl, first⟩)
    · exact ⟨before, after ++ [c], by simp, first⟩
    · exact ⟨calls, [], rfl, first⟩

theorem call_name (info : ModuleInfo) (c : Call) : (info.call c).name = info.name := by
  cases c with
  | dependency x conditional =>
    obtain ⟨_, _, added⟩ := info.addDependency_eq x conditional
    rw [call, added]
  | subModule sub =>
    by_cases held : Name.resourceName sub.name ∈ info.subModules
    · have same : info.addSubModule sub = info := if_pos held
      rw [call, same]
    · exact (addSubModule_merges held).name

theorem after_name (name : String) (calls : List Call) : (after name calls).name = name := by
  induction calls using List.reverseRecOn with
  | nil => rfl
  | append_singleton calls c ih => rw [after_concat, call_name, ih]

/-! ## Sub-modules -/

theorem mem_subModules {x : String} : x ∈ (after name calls).subModules ↔
    ∃ sub, .subModule sub ∈ calls ∧ Name.resourceName sub.name = x := by
  induction calls using List.reverseRecOn with
  | nil => simp [after]
  | append_singleton calls c ih =>
    rw [after_concat]
    cases c with
    | dependency d conditional =>
      rw [call, addDependency_subModules, ih]
      simp
    | subModule sub =>
      rw [call, mem_addSubModule, ih]
      simp only [List.mem_append, List.mem_singleton, Call.subModule.injEq, or_and_right, exists_or,
        exists_eq_left]

theorem subModules_nodup (name : String) (calls : List Call) :
    (after name calls).subModules.Nodup := by
  induction calls using List.reverseRecOn with
  | nil => exact .nil
  | append_singleton calls c ih =>
    rw [after_concat]
    cases c with
    | dependency d conditional => rwa [call, addDependency_subModules]
    | subModule sub =>
      rw [call, addSubModule_subModules]
      split
      · exact ih
      · rename_i new
        exact List.nodup_append_comm.1 (List.nodup_cons.2 ⟨new, ih⟩)

/-- Sub-modules are listed by their resource names. -/
theorem resourceName_subModule {x : String} (h : x ∈ (after name calls).subModules) :
    Name.resourceName x = x := by
  obtain ⟨sub, _, rfl⟩ := mem_subModules.1 h
  exact Name.resourceName_idem sub.name

/-! ## Dependencies -/

theorem mentioned_dependency (calls : List Call) (d : String) (conditional : Bool) :
    mentioned (calls ++ [.dependency d conditional]) = insert d (mentioned calls) := by
  ext x
  simp only [mentioned, Added, embeds_concat, List.mem_append, List.mem_singleton,
    Call.dependency.injEq, reduceCtorEq, false_and, or_false, Set.mem_ofPred_eq,
    Set.mem_insert_iff]
  grind

theorem needed_conditional (calls : List Call) (d : String) :
    needed (calls ++ [.dependency d true]) = needed calls := by
  ext x
  simp [needed, embeds_concat]

theorem needed_unconditional (calls : List Call) (d : String) :
    needed (calls ++ [.dependency d false]) = insert d (needed calls) := by
  ext x
  simp only [needed, embeds_concat, List.mem_append, List.mem_singleton,
    Call.dependency.injEq, reduceCtorEq, false_and, or_false, and_true, Set.mem_ofPred_eq,
    Set.mem_insert_iff]
  grind

/-- A sub-module is embedded unless its resource name is listed already. -/
theorem embeds_subModule (name : String) {s : ModuleInfo} :
    Embeds (calls ++ [.subModule sub]) s ↔ Embeds calls s ∨
      s = sub ∧ Name.resourceName sub.name ∉ (after name calls).subModules := by
  rw [embeds_concat, mem_subModules]
  constructor
  · rintro (embeds | ⟨same, first⟩)
    · exact .inl embeds
    · cases same
      exact .inr ⟨rfl, by simpa using first⟩
  · rintro (embeds | ⟨rfl, new⟩)
    · exact .inl embeds
    · exact .inr ⟨rfl, by simpa using new⟩

/-- Every call keeps track of what is mentioned. -/
theorem after_tracks (name : String) (calls : List Call) :
    (after name calls).Tracks (mentioned calls) (needed calls) := by
  induction calls using List.reverseRecOn with
  | nil =>
    have none : ∀ sub, ¬Embeds [] sub := by
      rintro sub ⟨before, after, split, _⟩
      simp at split
    constructor
    · simp [after, mentioned, Added, none]
    · simp [after]
    · simp [needed, none]
  | append_singleton calls c ih =>
    rw [after_concat]
    cases c with
    | dependency d conditional =>
      rw [mentioned_dependency]
      cases conditional with
      | true =>
        rw [needed_conditional]
        exact ih.addConditional d
      | false =>
        rw [needed_unconditional]
        exact ih.addUnconditional d
    | subModule sub =>
      by_cases held : Name.resourceName sub.name ∈ (after name calls).subModules
      · have same : (after name calls).addSubModule sub = after name calls := if_pos held
        rw [call, same]
        convert ih using 1 <;>
        · ext x
          simp [mentioned, needed, Added, embeds_subModule name, held]
      · rw [call]
        convert (addSubModule_merges held).tracks _ _ ih using 1 <;>
        · ext x
          simp only [mentioned, needed, Added, embeds_subModule name, held, List.mem_append,
            List.mem_singleton, reduceCtorEq, or_false, not_false_eq_true, and_true, or_and_right,
            exists_or, exists_eq_left, Set.mem_ofPred_eq, Set.mem_union, or_assoc]

/-- Sub-modules mention nothing but resource names. -/
theorem added_of_mentioned {x : String} (h : x ∈ mentioned calls)
    (undotted : Name.resourceName x ≠ x) : Added calls x := by
  rcases h with added | ⟨_, _, d, _, rfl⟩
  · exact added
  · exact absurd (Name.resourceName_idem d) undotted

/-! ## Main statement -/

/-- **A record keeps its names apart where they are spelled out.** After any calls no sub-module is
listed twice and every conditional dependency is a dependency. The dependencies are what is added or
mentioned, without the name of the record and the listed sub-modules. None of them denotes the same
module as the record or a sub-module if and only if no added name without its extension abbreviates
one of these, and the record's own resource name, where it lacks its extension, is not mentioned
unless it is embedded. -/
theorem calls_distinguish (name : String) (calls : List Call) :
    let info := after name calls
    info.subModules.Nodup ∧
    (∀ y, y ∈ info.subModules ↔ ∃ sub, .subModule sub ∈ calls ∧ Name.resourceName sub.name = y) ∧
    (∀ x ∈ info.conditional, x ∈ info.dependencies) ∧
    info.Tracks (mentioned calls) (needed calls) ∧
    ((∀ x ∈ info.dependencies, ∀ y ∈ name :: info.subModules,
        Name.resourceName x ≠ Name.resourceName y) ↔
      (∀ x, Added calls x → x ≠ name → Name.resourceName x ≠ x →
        Name.resourceName x ∉ name :: info.subModules) ∧
      (Name.resourceName name ≠ name → Name.resourceName name ∈ mentioned calls →
        Name.resourceName name ∈ info.subModules)) := by
  intro info
  have tracks : info.Tracks (mentioned calls) (needed calls) := after_tracks name calls
  have own : info.name = name := after_name name calls
  have listed : ∀ y ∈ info.subModules, Name.resourceName y = y := fun y => resourceName_subModule
  refine ⟨subModules_nodup name calls, fun y => mem_subModules,
    fun x hx => ((tracks.conditional x).1 hx).1, tracks, ?_, ?_⟩
  · intro apart
    constructor
    · intro x added other undotted denoted
      have outside : x ∉ info.subModules := fun hx => undotted (listed x hx)
      have dependency : x ∈ info.dependencies :=
        (tracks.dependencies x).2 ⟨.inl added, outside, own ▸ other⟩
      exact apart x dependency _ denoted (Name.resourceName_idem x).symm
    · intro undotted mentions
      by_contra outside
      have dependency : Name.resourceName name ∈ info.dependencies :=
        (tracks.dependencies _).2 ⟨mentions, outside, own ▸ undotted⟩
      exact apart _ dependency name List.mem_cons_self (Name.resourceName_idem name)
  · rintro ⟨spelled, embedded⟩ x dependency y hy same
    obtain ⟨mentions, outside, other⟩ := (tracks.dependencies x).1 dependency
    rw [own] at other
    by_cases full : Name.resourceName x = x
    · rw [full] at same
      rcases List.mem_cons.1 hy with rfl | hy
      · -- the record lacks the extension that the dependency has
        subst same
        exact outside (embedded other mentions)
      · rw [listed y hy] at same
        exact outside (same ▸ hy)
    · apply spelled x (added_of_mentioned mentions full) other full
      rcases List.mem_cons.1 hy with rfl | hy
      · by_cases own : Name.resourceName y = y
        · rw [same, own]
          exact List.mem_cons_self
        · exact absurd (Name.eq_of_resourceName full own same) other
      · rw [same, listed y hy]
        exact List.mem_cons_of_mem _ hy

/-- A dependency is added without its extension, and then the module is embedded. -/
def embeddedLater : List Call :=
  [.dependency "lib/b" false, .subModule { name := "lib/b.js" }]

/-- The dependency denotes the sub-module. -/
theorem embeddedLater_kept :
    let info := after "bundle.js" embeddedLater
    info.dependencies.names = ["lib/b"] ∧ info.subModules = ["lib/b.js"] ∧
      Name.resourceName "lib/b" = Name.resourceName "lib/b.js" := by
  decide +kernel

end ModuleInfo

end Bundler
