import Mathlib.Data.List.Basic

/-! # Runs of a step function

    A system takes one step for each label; a step that is not possible, or that does not return, is
    `none`. `Guarded` says of a run that each step meets a condition on its label and on the state
    before it, and the rules below derive facts about such runs from facts about single steps.
-/

namespace Lib.Run

open Option

/-! ### Evaluation

    That a computation returns a value with a property is decided by evaluating it. -/

section
variable {α β : Type}

instance decidableSome {o : Option α} {P : α → Prop} [DecidablePred P] :
    Decidable (∃ a, o = some a ∧ P a) :=
  decidable_of_iff (o.any (fun a => decide (P a)) = true) (by simp [any_eq_true])

instance decidablePair {o : Option (α × β)} {P : α → β → Prop} [∀ a b, Decidable (P a b)] :
    Decidable (∃ a b, o = some (a, b) ∧ P a b) :=
  decidable_of_iff (o.any (fun x => decide (P x.1 x.2)) = true) (by simp [any_eq_true])

instance decidableFst {o : Option (α × β)} {P : α → Prop} {b : β} [DecidablePred P]
    [DecidableEq β] : Decidable (∃ a, o = some (a, b) ∧ P a) :=
  decidable_of_iff (∃ x, o = some x ∧ x.2 = b ∧ P x.1) (by simp)

instance decidableSingleton {o : Option (List α × β)} {P : α → β → Prop} [∀ a b, Decidable (P a b)]
    [DecidableEq α] :
    Decidable (∃ a b, o = some ([a], b) ∧ P a b) :=
  decidable_of_iff (∃ l b, o = some (l, b) ∧ ∃ a, l.head? = some a ∧ l = [a] ∧ P a b) (by
    constructor
    · rintro ⟨_, b, ho, a, -, rfl, hP⟩
      exact ⟨a, b, ho, hP⟩
    · rintro ⟨a, b, ho, hP⟩
      exact ⟨[a], b, ho, a, rfl, rfl, hP⟩)

end

variable {α σ : Type} (step : α → σ → Option σ)

/-- The steps of the list, one after another. -/
def run : List α → σ → Option σ
  | [], state => some state
  | label :: labels, state => (step label state).bind (run labels)

/-- Every step of the run meets the guard in the state before it. -/
def Guarded (guard : α → σ → Prop) : List α → σ → Prop
  | [], _ => True
  | label :: labels, state =>
    guard label state ∧ ∀ state', step label state = some state' → Guarded guard labels state'

/-- The run, as long as a guard that can be evaluated holds. -/
def checkedRun (guard : α → σ → Bool) : List α → σ → Option σ
  | [], state => some state
  | label :: labels, state =>
    if guard label state then (step label state).bind (checkedRun guard labels) else none

variable {step} {labels : List α} {guard : α → σ → Prop}

theorem run_cons_eq_some {label : α} {state final : σ} :
    run step (label :: labels) state = some final ↔
      ∃ next, step label state = some next ∧ run step labels next = some final := by
  simp [run, bind_eq_some_iff]

theorem run_append (first second : List α) (state : σ) :
    run step (first ++ second) state = (run step first state).bind (run step second) := by
  induction first generalizing state with
  | nil => rfl
  | cons label first ih =>
    rw [List.cons_append, run, run, bind_assoc]
    exact congrArg _ (funext ih)

theorem Guarded.append {first second : List α} {state middle : σ}
    (h : Guarded step guard (first ++ second) state) (hrun : run step first state = some middle) :
    Guarded step guard first state ∧ Guarded step guard second middle := by
  induction first generalizing state with
  | nil =>
    cases hrun
    exact ⟨trivial, h⟩
  | cons label first ih =>
    obtain ⟨next, hnext, hrest⟩ := run_cons_eq_some.mp hrun
    obtain ⟨-, hsecond⟩ := ih (h.2 next hnext) hrest
    refine ⟨⟨h.1, ?_⟩, hsecond⟩
    intro state' hstate'
    cases hnext.symm.trans hstate'
    exact (ih (h.2 next hnext) hrest).1

theorem Guarded.of_forall
    (h : ∀ label ∈ labels, ∀ state, guard label state) (state : σ) :
    Guarded step guard labels state := by
  induction labels generalizing state with
  | nil => exact trivial
  | cons label labels ih =>
    refine ⟨h label List.mem_cons_self state, ?_⟩
    intro next _
    exact ih (fun other hother => h other (List.mem_cons_of_mem _ hother)) next

theorem Guarded.imp {guard guard' : α → σ → Prop} (himp : ∀ label state, guard label state →
    guard' label state) {state : σ} (h : Guarded step guard labels state) :
    Guarded step guard' labels state := by
  induction labels generalizing state with
  | nil => exact trivial
  | cons label labels ih =>
    refine ⟨himp label state h.1, ?_⟩
    intro next hnext
    exact ih (h.2 next hnext)

theorem Guarded.and {guard guard' : α → σ → Prop} {state : σ}
    (h : Guarded step guard labels state) (h' : Guarded step guard' labels state) :
    Guarded step (fun label state => guard label state ∧ guard' label state) labels state := by
  induction labels generalizing state with
  | nil => exact trivial
  | cons label labels ih =>
    refine ⟨⟨h.1, h'.1⟩, ?_⟩
    intro next hnext
    exact ih (h.2 next hnext) (h'.2 next hnext)

theorem checkedRun_eq_some {guard : α → σ → Bool} {state final : σ}
    (h : checkedRun step guard labels state = some final) :
    run step labels state = some final ∧
      Guarded step (fun label state => guard label state = true) labels state := by
  induction labels generalizing state with
  | nil => exact ⟨h, trivial⟩
  | cons label labels ih =>
    unfold checkedRun at h
    split at h
    · next hguard =>
      obtain ⟨next, hnext, hrest⟩ := bind_eq_some_iff.mp h
      obtain ⟨hrun, hguarded⟩ := ih hrest
      refine ⟨run_cons_eq_some.mpr ⟨next, hnext, hrun⟩, hguard, ?_⟩
      intro state' hstate'
      cases hnext.symm.trans hstate'
      exact hguarded
    · cases h

/-- What every guarded step preserves holds at the end of a guarded run. -/
theorem invariant {inv : σ → Prop}
    (hstep : ∀ label state state', inv state → guard label state →
      step label state = some state' → inv state')
    {state final : σ} (hinv : inv state)
    (hguarded : Guarded step guard labels state) (hrun : run step labels state = some final) :
    inv final := by
  induction labels generalizing state with
  | nil =>
    cases hrun
    exact hinv
  | cons label labels ih =>
    obtain ⟨next, hnext, hrest⟩ := run_cons_eq_some.mp hrun
    exact ih (hstep label state next hinv hguarded.1 hnext) (hguarded.2 next hnext) hrest

/-- Where every guarded step does to the abstraction what a step of another system does, a guarded
    run does what the run of the other system does. -/
theorem run_map {τ : Type} {step' : α → τ → Option τ} {inv : σ → Prop}
    {abs : σ → τ}
    (hstep : ∀ label state, inv state → guard label state → (step label state).map abs =
      step' label (abs state) ∧ ∀ state', step label state = some state' → inv state')
    {state : σ} (hinv : inv state) (hguarded : Guarded step guard labels state) :
    (run step labels state).map abs = run step' labels (abs state) ∧
      ∀ final, run step labels state = some final → inv final := by
  refine ⟨?_, fun final =>
    invariant (fun label state state' hinv hguard => (hstep label state hinv hguard).2
    state') hinv hguarded⟩
  induction labels generalizing state with
  | nil => rfl
  | cons label labels ih =>
    obtain ⟨habs, hkeeps⟩ := hstep label state hinv hguarded.1
    rw [run, run, ← habs, map_bind, bind_map]
    refine bind_congr fun next hnext => ?_
    exact ih (hkeeps next hnext) (hguarded.2 next hnext)

/-- A guard that says of each allowed step whether it keeps a property that no step restores: the
    property holds at the end of a run exactly if it did at the start and every step meets the
    guard. -/
theorem kept_iff {allowed guard : α → σ → Prop} {inv kept : σ → Prop}
    (hstep : ∀ label state state', inv state → allowed label state →
      step label state = some state' → inv state' ∧ (kept state' ↔ kept state ∧ guard label state))
    {state final : σ} (hinv : inv state)
    (hallowed : Guarded step allowed labels state) (hrun : run step labels state = some final) :
    kept final ↔ kept state ∧ Guarded step guard labels state := by
  induction labels generalizing state with
  | nil =>
    cases hrun
    exact (and_iff_left trivial).symm
  | cons label labels ih =>
    obtain ⟨next, hnext, hrest⟩ := run_cons_eq_some.mp hrun
    obtain ⟨hinv', hkept⟩ := hstep label state next hinv hallowed.1 hnext
    have hguarded : Guarded step guard (label :: labels) state ↔
        guard label state ∧ Guarded step guard labels next := by
      simp [Guarded, hnext]
    rw [ih hinv' (hallowed.2 next hnext) hrest, hkept, hguarded, and_assoc]

/-- When every guarded step lowers a measure, a guarded run is no longer than the measure it uses
    up. -/
theorem length_add_measure_le {inv : σ → Prop} {measure : σ → Nat}
    (hstep : ∀ label state state', inv state → guard label state →
      step label state = some state' → inv state' ∧ measure state' < measure state)
    {state final : σ} (hinv : inv state)
    (hguarded : Guarded step guard labels state) (hrun : run step labels state = some final) :
    labels.length + measure final ≤ measure state := by
  induction labels generalizing state with
  | nil =>
    cases hrun
    simp
  | cons label labels ih =>
    obtain ⟨next, hnext, hrest⟩ := run_cons_eq_some.mp hrun
    obtain ⟨hinv', hlt⟩ := hstep label state next hinv hguarded.1 hnext
    have hle := ih hinv' (hguarded.2 next hnext) hrest
    simp only [List.length_cons]
    omega

end Lib.Run
