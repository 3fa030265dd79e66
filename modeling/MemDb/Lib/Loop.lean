import Mathlib.Data.Fin.Basic
import Mathlib.Order.WellFounded

/-! # Loops that need not end

    A pass of a loop takes its state to the state of the next pass, or leaves the loop with a
    result. `Returns` says that the loop ends with a result, and `Reaches` which states it passes
    through, also where it does not end. A loop ends when every pass lowers a measure, and it does
    not end when an invariant leads every pass to another one.
-/

namespace Lib.Loop

variable {σ ρ : Type} (step : σ → σ ⊕ ρ)

/-- The result, if the loop is left within `fuel` passes. -/
def run : (fuel : Nat) → σ → Option ρ
  | 0, _ => none
  | fuel + 1, state => (step state).elim (run fuel) some

/-- The loop ends with a result. -/
inductive Returns : σ → ρ → Prop
  | leave {state : σ} {result : ρ} (hleave : step state = .inr result) : Returns state result
  | pass {state next : σ} {result : ρ} (hpass : step state = .inl next)
    (hrest : Returns next result) : Returns state result

/-- The states that the loop passes through. -/
inductive Reaches (start : σ) : σ → Prop
  | start : Reaches start start
  | pass {state next : σ} (hreached : Reaches start state) (hpass : step state = .inl next) :
    Reaches start next

variable {step} {state : σ} {result : ρ}

theorem returns_iff_run :
    Returns step state result ↔ ∃ fuel, run step fuel state = some result := by
  constructor
  · intro h
    induction h with
    | leave hleave => exact ⟨1, by simp [run, hleave]⟩
    | pass hpass _ ih =>
      obtain ⟨fuel, hfuel⟩ := ih
      exact ⟨fuel + 1, by simp [run, hpass, hfuel]⟩
  · intro ⟨fuel, hrun⟩
    induction fuel generalizing state with
    | zero => cases hrun
    | succ fuel ih =>
      cases hstep : step state with
      | inl next =>
        simp only [run, hstep, Sum.elim_inl] at hrun
        exact .pass hstep (ih hrun)
      | inr left =>
        simp only [run, hstep, Sum.elim_inr, Option.some.injEq] at hrun
        exact .leave (hrun ▸ hstep)

theorem Returns.of_pass {state next : σ} (h : Returns step state result)
    (hpass : step state = .inl next) : Returns step next result := by
  cases h with
  | leave hleave => cases hleave.symm.trans hpass
  | pass hpass' hrest => exact Sum.inl.inj (hpass'.symm.trans hpass) ▸ hrest

/-- A loop has one result. -/
theorem Returns.unique {result other : ρ} (h : Returns step state result)
    (h' : Returns step state other) : result = other := by
  induction h with
  | leave hleave =>
    cases h' with
    | leave hleave' => exact Sum.inr.inj (hleave.symm.trans hleave')
    | pass hpass _ => cases hleave.symm.trans hpass
  | pass hpass _ ih => exact ih (h'.of_pass hpass)

/-- What every pass preserves holds of all states that are reached. -/
theorem Reaches.invariant {inv : σ → Prop}
    (hpass : ∀ state next, inv state → step state = .inl next → inv next) {start state : σ}
    (hstart : inv start) (h : Reaches step start state) : inv state := by
  induction h with
  | start => exact hstart
  | pass _ hnext ih => exact hpass _ _ ih hnext

/-- And of the state in which the loop is left. -/
theorem Returns.invariant {inv : σ → Prop}
    (hpass : ∀ state next, inv state → step state = .inl next → inv next)
    (hstart : inv state) (h : Returns step state result) :
    ∃ last, inv last ∧ step last = .inr result := by
  induction h with
  | leave hleave => exact ⟨_, hstart, hleave⟩
  | pass hnext _ ih => exact ih (hpass _ _ hstart hnext)

/-- What is returned does not depend on how far the loop has come. -/
theorem Returns.of_reaches {start state : σ} (h : Returns step start result)
    (hreached : Reaches step start state) : Returns step state result := by
  induction hreached with
  | start => exact h
  | pass _ hpass ih => exact ih.of_pass hpass

/-- A loop ends when every pass that is not the last lowers a measure. -/
theorem exists_returns {μ : Type} [LT μ] [WellFoundedLT μ] (inv : σ → Prop) (measure : σ → μ)
    (hpass : ∀ state next, inv state → step state = .inl next →
      inv next ∧ measure next < measure state) (hstart : inv state) :
    ∃ result, Returns step state result := by
  induction hmeasure : measure state using WellFoundedLT.induction generalizing state with
  | ind bound ih =>
    cases hstep : step state with
    | inl next =>
      obtain ⟨hinv, hlt⟩ := hpass state next hstart hstep
      obtain ⟨result, hreturns⟩ := ih (measure next) (hmeasure ▸ hlt) hinv rfl
      exact ⟨result, .pass hstep hreturns⟩
    | inr result => exact ⟨result, .leave hstep⟩

/-- A loop does not end when an invariant leads every pass to another one. -/
theorem not_returns (inv : σ → Prop)
    (hpass : ∀ state, inv state → ∃ next, step state = .inl next ∧ inv next)
    (hstart : inv state) (result : ρ) : ¬ Returns step state result := by
  intro h
  have hinv : ∀ state next, inv state → step state = .inl next → inv next := by
    intro state next hstate hnext
    obtain ⟨next', hnext', hinv'⟩ := hpass state hstate
    obtain rfl := Sum.inl.inj (hnext.symm.trans hnext')
    exact hinv'
  -- the state in which the loop is left would lead to another pass
  obtain ⟨last, hlast, hleave⟩ := h.invariant hinv hstart
  obtain ⟨next, hnext, -⟩ := hpass last hlast
  cases hleave.symm.trans hnext

section
variable {τ ρ' : Type} {step' : τ → τ ⊕ ρ'} {f : σ → τ} {g : ρ → ρ'}

/-- Two loops that take the same passes on corresponding states return corresponding results. -/
theorem run_map (hstep : ∀ state, step' (f state) = (step state).map f g) (fuel : Nat) (state : σ) :
    run step' fuel (f state) = (run step fuel state).map g := by
  induction fuel generalizing state with
  | zero => rfl
  | succ fuel ih =>
    rw [run, run, hstep]
    cases step state with
    | inl next => exact ih next
    | inr result => rfl

theorem reaches_map (hstep : ∀ state, step' (f state) = (step state).map f g) {start : σ}
    {reached : τ}
    (h : Reaches step' (f start) reached) :
    ∃ state, Reaches step start state ∧ f state = reached := by
  induction h with
  | start => exact ⟨start, .start, rfl⟩
  | @pass _ next _ hpass ih =>
    obtain ⟨state, hreached, rfl⟩ := ih
    rw [hstep] at hpass
    cases hstate : step state with
    | inl next' =>
      rw [hstate, Sum.map_inl, Sum.inl.injEq] at hpass
      exact ⟨next', .pass hreached hstate, hpass⟩
    | inr result =>
      rw [hstate, Sum.map_inr] at hpass
      cases hpass

end

/-- A stream of draws takes each value infinitely often. -/
def Fair {n : Nat} (draw : Nat → Fin n) : Prop :=
  ∀ i bound, ∃ k, bound ≤ k ∧ draw k = i

theorem Fair.tail {n : Nat} {draw : Nat → Fin n} (h : Fair draw) : Fair fun k => draw (k + 1) := by
  intro i bound
  obtain ⟨k, hk, rfl⟩ := h i (bound + 1)
  exact ⟨k - 1, by omega, congrArg draw (by omega)⟩

/-- The first draws of a fair stream may be the same. -/
theorem fair_repeat {n : Nat} (first : Nat) (i : Fin n) :
    Fair fun k => if k < first then i else ⟨k % n, k.mod_lt i.pos⟩ := by
  intro j bound
  have hle : bound + first ≤ n * (bound + first) := Nat.le_mul_of_pos_left _ j.pos
  refine ⟨n * (bound + first) + j, by omega, ?_⟩
  simp only [if_neg (show ¬ n * (bound + first) + j < first by omega), Nat.mul_add_mod,
    Nat.mod_eq_of_lt j.isLt]

end Lib.Loop
