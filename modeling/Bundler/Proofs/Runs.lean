import Bundler.Run
import Mathlib.Data.List.Forall2
import Mathlib.Data.List.Induction

/-!
# What runs yield

`Run.Yields` is the outcome of a run without its log. Every operation of runs has a rule that says
when its outcome is a given value, so that a run that succeeded can be taken apart step by step.
-/

namespace Bundler.Run

variable {α β : Type}

/-- The run ends with this value, whatever it logs. -/
def Yields (r : Run α) (a : α) : Prop := r.result = .ok a

theorem Yields.unique {r : Run α} {a b : α} (ha : r.Yields a) (hb : r.Yields b) : a = b :=
  Except.ok.inj (ha.symm.trans hb)

@[simp]
theorem pure_yields {a b : α} : (Pure.pure a : Run α).Yields b ↔ a = b := by
  constructor
  · intro h
    exact Except.ok.inj h
  · rintro rfl
    rfl

@[simp]
theorem fail_yields {e : Fault} {a : α} : ¬(fail e : Run α).Yields a := by
  intro h
  cases h

@[simp]
theorem log1_yields {e : Event} {u : Unit} : (log1 e).Yields u := rfl

theorem bind_yields {r : Run α} {f : α → Run β} {b : β} :
    (r >>= f).Yields b ↔ ∃ a, r.Yields a ∧ (f a).Yields b := by
  obtain ⟨log, result⟩ := r
  cases result with
  | error e =>
    constructor
    · intro h
      cases h
    · rintro ⟨a, ha, _⟩
      cases ha
  | ok a =>
    constructor
    · intro h
      exact ⟨a, rfl, h⟩
    · rintro ⟨a', ha, h⟩
      cases ha
      exact h

theorem log1_bind_yields {e : Event} {f : Unit → Run β} {b : β} :
    (log1 e >>= f).Yields b ↔ (f ()).Yields b := by
  rw [bind_yields]
  exact ⟨fun ⟨_, _, h⟩ => h, fun h => ⟨(), rfl, h⟩⟩

theorem map_yields {r : Run α} {f : α → β} {b : β} :
    (f <$> r).Yields b ↔ ∃ a, r.Yields a ∧ f a = b := by
  rw [← bind_pure_comp, bind_yields]
  simp only [pure_yields]

@[simp]
theorem ofExcept_yields {ε : Type} {fault : ε → Fault} {x : Except ε α} {a : α} :
    (ofExcept fault x).Yields a ↔ x = .ok a := by
  cases x with
  | error e =>
    constructor
    · intro h
      exact (fail_yields h).elim
    · intro h
      cases h
  | ok b => exact pure_yields.trans ⟨congrArg _, Except.ok.inj⟩

@[simp]
theorem silent_yields {r : Run α} {a : α} : r.silent.Yields a ↔ r.Yields a := Iff.rfl

@[simp]
theorem explain_yields {f : Fault → Fault} {r : Run α} {a : α} :
    (r.explain f).Yields a ↔ r.Yields a := by
  obtain ⟨log, result⟩ := r
  cases result with
  | error e =>
    constructor
    · intro h
      cases h
    · intro h
      cases h
  | ok b => exact Iff.rfl

/-- A list of runs yields what they yield one after the other. -/
theorem mapM_yields {f : α → Run β} {xs : List α} {ys : List β} :
    (xs.mapM f).Yields ys ↔ List.Forall₂ (fun x y => (f x).Yields y) xs ys := by
  induction xs generalizing ys with
  | nil =>
    rw [List.mapM_nil, pure_yields, List.forall₂_nil_left_iff]
    exact eq_comm
  | cons x rest ih =>
    rw [List.mapM_cons, List.forall₂_cons_left_iff]
    simp only [bind_yields, pure_yields, ih]
    constructor
    · rintro ⟨y, hy, others, ho, rfl⟩
      exact ⟨y, others, hy, ho, rfl⟩
    · rintro ⟨y, others, hy, ho, rfl⟩
      exact ⟨y, hy, others, ho, rfl⟩

theorem mapM_each {f : α → Run β} {xs : List α} {ys : List β} (h : (xs.mapM f).Yields ys) :
    ∀ x ∈ xs, ∃ y, (f x).Yields y := by
  have each := mapM_yields.1 h
  clear h
  induction each with
  | nil => simp
  | cons first _ ih => exact List.forall_mem_cons.2 ⟨⟨_, first⟩, ih⟩

/-- What holds at the start and is kept by every step holds in the end. It may speak of the elements
that have been done. -/
theorem foldlM_invariant {f : β → α → Run β} {P : List α → β → Prop} {xs : List α}
    (step : ∀ done, ∀ x ∈ xs, ∀ b b', P done b → (f b x).Yields b' → P (done ++ [x]) b')
    {b b' : β} (start : P [] b) (h : (xs.foldlM f b).Yields b') : P xs b' := by
  induction xs using List.reverseRecOn generalizing b' with
  | nil => exact pure_yields.1 h ▸ start
  | append_singleton xs x ih =>
    rw [List.foldlM_append, bind_yields] at h
    obtain ⟨mid, before, last⟩ := h
    have last : (f mid x).Yields b' := by simpa using last
    have hmid := ih (fun done y hy => step done y (List.mem_append_left _ hy)) before
    exact step xs x (by simp) mid b' hmid last

/-- A run over a list that succeeds has succeeded at every element. -/
theorem foldlM_each {f : β → α → Run β} {xs : List α} {b b' : β} (h : (xs.foldlM f b).Yields b') :
    ∀ x ∈ xs, ∃ before after, (f before x).Yields after := by
  induction xs generalizing b with
  | nil => simp
  | cons x rest ih =>
    obtain ⟨next, first, later⟩ := bind_yields.1 h
    intro y hy
    rcases List.mem_cons.1 hy with rfl | hy
    · exact ⟨b, next, first⟩
    · exact ih later y hy

/-! ## Runs that succeed -/

def Succeeds (r : Run α) : Prop := ∃ a, r.Yields a

theorem pure_succeeds (a : α) : (Pure.pure a : Run α).Succeeds := ⟨a, pure_yields.2 rfl⟩

theorem log1_succeeds (e : Event) : (log1 e).Succeeds := ⟨(), rfl⟩

theorem Succeeds.bind {r : Run α} {f : α → Run β} (h : r.Succeeds)
    (h' : ∀ a, r.Yields a → (f a).Succeeds) : (r >>= f).Succeeds := by
  obtain ⟨a, first⟩ := h
  obtain ⟨b, second⟩ := h' a first
  exact ⟨b, bind_yields.2 ⟨a, first, second⟩⟩

theorem Succeeds.mapM {f : α → Run β} {xs : List α} (each : ∀ x ∈ xs, (f x).Succeeds) :
    (xs.mapM f).Succeeds := by
  induction xs with
  | nil => exact pure_succeeds []
  | cons x rest ih =>
    rw [List.mapM_cons]
    refine (each x List.mem_cons_self).bind fun y _ => ?_
    refine (ih fun z hz => each z (List.mem_cons_of_mem _ hz)).bind fun ys _ => ?_
    exact pure_succeeds _

theorem Succeeds.foldlM {f : β → α → Run β} {xs : List α}
    (step : ∀ b, ∀ x ∈ xs, (f b x).Succeeds) (b : β) : (xs.foldlM f b).Succeeds := by
  induction xs generalizing b with
  | nil => exact pure_succeeds b
  | cons x rest ih =>
    rw [List.foldlM_cons]
    exact (step b x List.mem_cons_self).bind fun next _ =>
      ih (fun b y hy => step b y (List.mem_cons_of_mem _ hy)) next

/-! ## Runs that fail -/

/-- The run ends with this fault. -/
def Fails (r : Run α) (e : Fault) : Prop := r.result = .error e

theorem succeeds_or_fails (r : Run α) : r.Succeeds ∨ ∃ e, r.Fails e := by
  obtain ⟨log, result⟩ := r
  cases result with
  | error e => exact .inr ⟨e, rfl⟩
  | ok a => exact .inl ⟨a, rfl⟩

theorem Yields.not_fails {r : Run α} {a : α} (h : r.Yields a) (e : Fault) : ¬r.Fails e := by
  intro failed
  cases h.symm.trans failed

@[simp]
theorem pure_fails {a : α} {e : Fault} : ¬(Pure.pure a : Run α).Fails e := by
  intro h
  cases h

@[simp]
theorem log1_fails {event : Event} {e : Fault} : ¬(log1 event).Fails e := by
  intro h
  cases h

@[simp]
theorem fail_fails {e e' : Fault} : (fail e : Run α).Fails e' ↔ e = e' :=
  ⟨Except.error.inj, congrArg _⟩

@[simp]
theorem ofExcept_fails {ε : Type} {fault : ε → Fault} {x : Except ε α} {e : Fault} :
    (ofExcept fault x).Fails e ↔ ∃ cause, x = .error cause ∧ fault cause = e := by
  cases x with
  | error cause =>
    constructor
    · intro h
      exact ⟨cause, rfl, fail_fails.1 h⟩
    · rintro ⟨_, same, h⟩
      cases same
      exact fail_fails.2 h
  | ok a =>
    constructor
    · intro h
      cases h
    · rintro ⟨_, same, _⟩
      cases same

theorem bind_fails {r : Run α} {f : α → Run β} {e : Fault} :
    (r >>= f).Fails e ↔ r.Fails e ∨ ∃ a, r.Yields a ∧ (f a).Fails e := by
  obtain ⟨log, result⟩ := r
  cases result with
  | error e' =>
    constructor
    · intro h
      exact .inl (congrArg _ (Except.error.inj h))
    · rintro (h | ⟨_, h, _⟩)
      · exact congrArg _ (Except.error.inj h)
      · cases h
  | ok a =>
    constructor
    · intro h
      exact .inr ⟨a, rfl, h⟩
    · rintro (h | ⟨_, same, h⟩)
      · cases h
      · cases same
        exact h

theorem log1_bind_fails {event : Event} {f : Unit → Run β} {e : Fault} :
    (log1 event >>= f).Fails e ↔ (f ()).Fails e := by
  rw [bind_fails]
  constructor
  · rintro (h | ⟨_, _, h⟩)
    · exact absurd h log1_fails
    · exact h
  · intro h
    exact .inr ⟨(), rfl, h⟩

/-- A run over a list fails where one of its steps does. -/
theorem foldlM_fails {f : β → α → Run β} {xs : List α} {b : β} {e : Fault}
    (h : (xs.foldlM f b).Fails e) : ∃ x ∈ xs, ∃ before, (f before x).Fails e := by
  induction xs generalizing b with
  | nil => exact absurd h pure_fails
  | cons x rest ih =>
    rw [List.foldlM_cons, bind_fails] at h
    rcases h with first | ⟨next, _, later⟩
    · exact ⟨x, List.mem_cons_self, b, first⟩
    · obtain ⟨y, hy, failed⟩ := ih later
      exact ⟨y, List.mem_cons_of_mem _ hy, failed⟩

theorem mapM_fails {f : α → Run β} {xs : List α} {e : Fault} (h : (xs.mapM f).Fails e) :
    ∃ x ∈ xs, (f x).Fails e := by
  induction xs with
  | nil => exact absurd h pure_fails
  | cons x rest ih =>
    rw [List.mapM_cons, bind_fails] at h
    rcases h with first | ⟨_, _, later⟩
    · exact ⟨x, List.mem_cons_self, first⟩
    · rw [bind_fails] at later
      rcases later with others | ⟨_, _, last⟩
      · obtain ⟨y, hy, failed⟩ := ih others
        exact ⟨y, List.mem_cons_of_mem _ hy, failed⟩
      · exact absurd last pure_fails

/-! ## Runs that end alike -/

/-- The runs end with the same fault or with related values, whatever they log. -/
inductive Alike {α β : Type} (R : α → β → Prop) : Run α → Run β → Prop
  | value {log log' : List Event} {a : α} {b : β} (related : R a b) :
      Alike R ⟨log, .ok a⟩ ⟨log', .ok b⟩
  | fault {log log' : List Event} {e : Fault} : Alike R ⟨log, .error e⟩ ⟨log', .error e⟩

/-- Runs are alike if they have the same faults and related values. -/
theorem Alike.of_outcomes {R : α → β → Prop} {r : Run α} {r' : Run β}
    (faults : ∀ e, r.Fails e ↔ r'.Fails e)
    (values : ∀ a b, r.Yields a → r'.Yields b → R a b) : Alike R r r' := by
  rcases r.succeeds_or_fails with ⟨a, yields⟩ | ⟨e, fails⟩
  · rcases r'.succeeds_or_fails with ⟨b, yields'⟩ | ⟨e, fails'⟩
    · have related := values a b yields yields'
      obtain ⟨log, result⟩ := r
      obtain ⟨log', result'⟩ := r'
      cases yields
      cases yields'
      exact .value related
    · exact absurd ((faults e).2 fails') (yields.not_fails e)
  · have fails' := (faults e).1 fails
    obtain ⟨log, result⟩ := r
    obtain ⟨log', result'⟩ := r'
    cases fails
    cases fails'
    exact .fault

theorem Alike.refl (r : Run α) : Alike Eq r r := by
  obtain ⟨log, result⟩ := r
  cases result with
  | error e => exact .fault
  | ok a => exact .value rfl

theorem Alike.log1 (e e' : Event) : Alike Eq (log1 e) (log1 e') := .value rfl

theorem Alike.result {r r' : Run α} (h : Alike Eq r r') : r.result = r'.result := by
  cases h with
  | value related => exact congrArg Except.ok related
  | fault => rfl

theorem Alike.bind {γ δ : Type} {R : α → β → Prop} {S : γ → δ → Prop} {r : Run α} {r' : Run β}
    {f : α → Run γ} {f' : β → Run δ} (h : Alike R r r')
    (next : ∀ a b, R a b → Alike S (f a) (f' b)) : Alike S (r >>= f) (r' >>= f') := by
  cases h with
  | fault => exact .fault
  | @value log log' a b related =>
    show Alike S ⟨log ++ (f a).log, (f a).result⟩ ⟨log' ++ (f' b).log, (f' b).result⟩
    have ends := next a b related
    generalize f a = s at ends ⊢
    generalize f' b = s' at ends ⊢
    cases ends with
    | value related => exact .value related
    | fault => exact .fault

end Bundler.Run
