import Mathlib.Data.List.Basic

/-! # Runs of a transition function

A component with state `σ` and actions `α` is given by a total function `step : σ → α → σ`; a run is
a list of actions. Two notions are enough for everything built on top:

* **`run step s as`** — the state reached from `s` by the actions `as`.
* **`Meets P step s as`** — every action of the run is taken in a state that meets the condition
  `P`, i.e. `P` relates the state *before* each action to that action.

The rule `run_invariant` turns a step lemma under such a condition into a statement about every
state a conditioned run reaches. -/

namespace AeronRs.Runs

variable {σ α : Type*}

/-- The state reached from `s` by the actions of a list. -/
def run (step : σ → α → σ) (s : σ) (as : List α) : σ := as.foldl step s

@[simp] theorem run_nil (step : σ → α → σ) (s : σ) : run step s [] = s := rfl

@[simp] theorem run_cons (step : σ → α → σ) (s : σ) (a : α) (as : List α) :
    run step s (a :: as) = run step (step s a) as := rfl

theorem run_append (step : σ → α → σ) (s : σ) (as bs : List α) :
    run step s (as ++ bs) = run step (run step s as) bs :=
  List.foldl_append

/-- **Conditioned run.** Each action `a` is taken in a state `s` with `P s a`. -/
def Meets (P : σ → α → Prop) (step : σ → α → σ) : σ → List α → Prop
  | _, [] => True
  | s, a :: as => P s a ∧ Meets P step (step s a) as

@[simp] theorem meets_nil (P : σ → α → Prop) (step : σ → α → σ) (s : σ) :
    Meets P step s [] := trivial

@[simp] theorem meets_cons (P : σ → α → Prop) (step : σ → α → σ) (s : σ) (a : α) (as : List α) :
    Meets P step s (a :: as) ↔ P s a ∧ Meets P step (step s a) as := Iff.rfl

instance decidableMeets (P : σ → α → Prop) [∀ s a, Decidable (P s a)] (step : σ → α → σ) :
    (s : σ) → (as : List α) → Decidable (Meets P step s as)
  | _, [] => isTrue trivial
  | s, a :: as =>
      have := decidableMeets P step (step s a) as
      inferInstanceAs (Decidable (P s a ∧ Meets P step (step s a) as))

/-- A conditioned run splits at any point into two conditioned runs. -/
theorem meets_append {P : σ → α → Prop} {step : σ → α → σ} {s : σ} {as bs : List α} :
    Meets P step s (as ++ bs) ↔ Meets P step s as ∧ Meets P step (run step s as) bs := by
  induction as generalizing s with
  | nil => simp
  | cons a as ih => simp only [List.cons_append, meets_cons, run_cons, ih, and_assoc]

/-- A run meets two conditions if it meets both of them at every action. -/
theorem meets_and {P Q : σ → α → Prop} {step : σ → α → σ} {s : σ} {as : List α}
    (hP : Meets P step s as) (hQ : Meets Q step s as) :
    Meets (fun s a => P s a ∧ Q s a) step s as := by
  induction as generalizing s with
  | nil => trivial
  | cons a as ih => exact ⟨⟨hP.1, hQ.1⟩, ih hP.2 hQ.2⟩

/-- Conditions that say the same of every step say the same of a run. -/
theorem meets_congr {P Q : σ → α → Prop} {step : σ → α → σ} (h : ∀ s a, P s a ↔ Q s a) {s : σ}
    {as : List α} : Meets P step s as ↔ Meets Q step s as := by
  induction as generalizing s with
  | nil => exact Iff.rfl
  | cons a as ih => exact and_congr (h s a) ih

theorem meets_of_forall {Q : α → Prop} {step : σ → α → σ} {s : σ} {as : List α}
    (h : ∀ a ∈ as, Q a) : Meets (fun _ a => Q a) step s as := by
  induction as generalizing s with
  | nil => trivial
  | cons a as ih =>
      exact ⟨h a List.mem_cons_self, ih fun b hb => h b (List.mem_cons_of_mem a hb)⟩

/-- **Invariant rule.** What every step meeting the condition preserves holds in the state that a
conditioned run reaches. -/
theorem run_invariant {P : σ → α → Prop} {step : σ → α → σ} {Inv : σ → Prop}
    (hstep : ∀ s a, Inv s → P s a → Inv (step s a)) {s : σ} (h : Inv s) {as : List α}
    (hrun : Meets P step s as) : Inv (run step s as) := by
  induction as generalizing s with
  | nil => exact h
  | cons a as ih =>
      obtain ⟨ha, has⟩ := hrun
      exact ih (hstep s a h ha) has

/-- **Property rule.** If every step meeting the condition from a state with the invariant keeps the
invariant and has a property, then every step of a conditioned run has it. -/
theorem meets_of_invariant {P Q : σ → α → Prop} {step : σ → α → σ} {Inv : σ → Prop}
    (hstep : ∀ s a, Inv s → P s a → Inv (step s a) ∧ Q s a) {s : σ} (h : Inv s) {as : List α}
    (hrun : Meets P step s as) : Meets Q step s as := by
  induction as generalizing s with
  | nil => trivial
  | cons a as ih =>
      obtain ⟨ha, has⟩ := hrun
      obtain ⟨hinv, hprop⟩ := hstep s a h ha
      exact ⟨hprop, ih hinv has⟩

/-- A run is conditioned if every step behind a prefix of it meets the condition. -/
theorem meets_of_prefixes {P : σ → α → Prop} {step : σ → α → σ} {s : σ} {as : List α}
    (h : ∀ pre a, pre ++ [a] <+: as → P (run step s pre) a) : Meets P step s as := by
  induction as generalizing s with
  | nil => trivial
  | cons a as ih =>
      refine ⟨h [] a (List.cons_prefix_cons.mpr ⟨rfl, List.nil_prefix⟩), ih fun pre b hpre => ?_⟩
      exact h (a :: pre) b (List.cons_prefix_cons.mpr ⟨rfl, hpre⟩)

theorem Meets.of_isPrefix {P : σ → α → Prop} {step : σ → α → σ} {s : σ} {as pre : List α}
    (h : Meets P step s as) (hpre : pre <+: as) : Meets P step s pre := by
  obtain ⟨post, rfl⟩ := hpre
  exact (meets_append.mp h).1

/-- **Exact condition.** If from states with the invariant exactly the steps that meet the condition
keep it, then a run is conditioned exactly when every state it reaches has the invariant. -/
theorem meets_iff_invariant {P : σ → α → Prop} {step : σ → α → σ} {Inv : σ → Prop}
    (hstep : ∀ s a, Inv s → (Inv (step s a) ↔ P s a)) {s : σ} (h : Inv s) {as : List α} :
    Meets P step s as ↔ ∀ pre, pre <+: as → Inv (run step s pre) := by
  constructor
  · intro hrun pre hpre
    exact run_invariant (fun s a hs ha => (hstep s a hs).mpr ha) h (hrun.of_isPrefix hpre)
  · intro hall
    refine meets_of_prefixes fun pre a hpre => ?_
    have hbefore := hall pre ((List.prefix_append pre [a]).trans hpre)
    have hafter := hall (pre ++ [a]) hpre
    rw [run_append] at hafter
    exact (hstep _ a hbefore).mp hafter

/-! ## One action again and again -/

/-- Some number of the same action leads from one state to another. -/
def Repeats (step : σ → α → σ) (a : α) (s t : σ) : Prop := ∃ m, run step s (List.replicate m a) = t

theorem Repeats.refl (step : σ → α → σ) (a : α) (s : σ) : Repeats step a s s := ⟨0, rfl⟩

theorem Repeats.head {step : σ → α → σ} {a : α} {s s' t : σ} (hstep : step s a = s')
    (h : Repeats step a s' t) : Repeats step a s t := by
  obtain ⟨m, hm⟩ := h
  refine ⟨m + 1, ?_⟩
  rw [List.replicate_succ, run_cons, hstep, hm]

/-! ## Runs with results

A component whose actions also return something, and two such components that cannot be told apart by
what they return. -/

section Results

variable {τ ο : Type*}

/-- What the actions of a run return, in order. -/
def results (call : σ → α → σ × ο) : σ → List α → List ο
  | _, [] => []
  | s, a :: as => (call s a).2 :: results call (call s a).1 as

/-- The state that a run with results reaches. -/
def runCalls (call : σ → α → σ × ο) (s : σ) (as : List α) : σ := run (fun s a => (call s a).1) s as

/-- **Bisimulation rule.** If related states return the same and step to related states, then so do
whole runs. -/
theorem results_eq_of_bisimulation {call : σ → α → σ × ο} {call' : τ → α → τ × ο}
    {R : σ → τ → Prop}
    (hcall : ∀ s t a, R s t → (call s a).2 = (call' t a).2 ∧ R (call s a).1 (call' t a).1) {s : σ}
    {t : τ} (h : R s t) (as : List α) :
    results call s as = results call' t as ∧ R (runCalls call s as) (runCalls call' t as) := by
  induction as generalizing s t with
  | nil => exact ⟨rfl, h⟩
  | cons a as ih =>
      obtain ⟨hresult, hnext⟩ := hcall s t a h
      obtain ⟨hrest, hend⟩ := ih hnext
      rw [results, results, hresult, hrest]
      exact ⟨rfl, hend⟩

end Results

/-! ## Runs that are made of other runs -/

section Traces

variable {τ β : Type*}

/-- The actions of another component that the actions of a run stand for, in order. -/
def trace (step : σ → α → σ) (actions : σ → α → List β) : σ → List α → List β
  | _, [] => []
  | s, a :: as => actions s a ++ trace step actions (step s a) as

/-- **Simulation rule.** If every step is a run of another component, as that component sees the
state, then so is every run. -/
theorem run_trace {step : σ → α → σ} {step' : τ → β → τ} {f : σ → τ} {actions : σ → α → List β}
    {P : σ → α → Prop} {Inv : σ → Prop}
    (hstep : ∀ s a, Inv s → P s a →
      Inv (step s a) ∧ f (step s a) = run step' (f s) (actions s a)) {s : σ} (h : Inv s)
    {as : List α} (hrun : Meets P step s as) :
    f (run step s as) = run step' (f s) (trace step actions s as) := by
  induction as generalizing s with
  | nil => rfl
  | cons a as ih =>
      obtain ⟨ha, has⟩ := hrun
      obtain ⟨hinv, hnext⟩ := hstep s a h ha
      rw [run_cons, trace, run_append, ← hnext]
      exact ih hinv has

end Traces

/-! ## Steps on separate components

A step `i` acts on component `i` of the state and leaves the others alone; a run that takes each step
at most once then brings each component to what its own step makes of it. -/

section Components

variable {ι ε : Type*} {step : σ → ι → σ} {get : σ → ι → ε} {Inv : σ → Prop}

theorem run_get_of_notMem (hinv : ∀ s i, Inv s → Inv (step s i))
    (hothers : ∀ s i j, Inv s → j ≠ i → get (step s i) j = get s j) {s : σ} (h : Inv s)
    {order : List ι} {j : ι} (hj : j ∉ order) : get (run step s order) j = get s j := by
  induction order generalizing s with
  | nil => rfl
  | cons i order ih =>
      rw [List.mem_cons, not_or] at hj
      rw [run_cons, ih (hinv s i h) hj.2, hothers s i j h hj.1]

/-- **Component by component.** A relation between each component and what the run makes of it holds
for all of them exactly when every step is taken in a state where the step relates them. -/
theorem meets_iff_components {P : σ → ι → Prop} {R : ι → ε → ε → Prop}
    (hinv : ∀ s i, Inv s → Inv (step s i))
    (hothers : ∀ s i j, Inv s → j ≠ i → get (step s i) j = get s j)
    (hown : ∀ s i, Inv s → (P s i ↔ R i (get s i) (get (step s i) i))) {s : σ} (h : Inv s)
    {order : List ι} (hnodup : order.Nodup) :
    Meets P step s order ↔ ∀ i ∈ order, R i (get s i) (get (run step s order) i) := by
  induction order generalizing s with
  | nil => simp
  | cons i order ih =>
      obtain ⟨hi, hnodup'⟩ := List.nodup_cons.mp hnodup
      have hlast : get (run step (step s i) order) i = get (step s i) i :=
        run_get_of_notMem hinv hothers (hinv s i h) hi
      rw [meets_cons, ih (hinv s i h) hnodup', List.forall_mem_cons, run_cons, hlast, hown s i h]
      refine and_congr_right fun _ => forall₂_congr fun j hj => ?_
      -- the first step has left the later components alone
      rw [hothers s i j h fun hji => hi (hji ▸ hj)]

end Components

end AeronRs.Runs
