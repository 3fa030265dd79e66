import Mathlib.Data.List.Induction
import Mathlib.Order.Lattice

/-! # Last-writer-wins registers without tombstones

  A register holds a stamped value or nothing. A write is refused if the stored stamp is
  greater; so is a deletion, which otherwise leaves nothing behind, not even its own
  stamp. Where the greatest operation is a write, every order of application ends with
  it; where it is a deletion, this holds of the orders that apply no write after it.
-/

namespace Lib

open List

namespace Register

variable {T V : Type} [LinearOrder T]

/-- A stamped write or deletion. -/
inductive Op (T V : Type) where
  | set (stamp : T) (value : V)
  | del (stamp : T)

/-- Apply one operation: the greater stamp wins, and an equal one overwrites. -/
def apply (r : Option (T × V)) (op : Op T V) : Option (T × V) :=
  match op with
  | .set t v =>
    match r with
    | none => some (t, v)
    | some p => if t < p.1 then some p else some (t, v)
  | .del t =>
    match r with
    | none => none
    | some p => if t < p.1 then some p else none

/-- Apply operations from left to right. -/
def run (r : Option (T × V)) (ops : List (Op T V)) : Option (T × V) := ops.foldl apply r

@[simp] theorem run_nil (r : Option (T × V)) : run r [] = r := rfl

@[simp] theorem run_cons (r : Option (T × V)) (op : Op T V) (ops : List (Op T V)) :
    run r (op :: ops) = run (apply r op) ops := rfl

theorem run_append (r : Option (T × V)) (ops ops' : List (Op T V)) :
    run r (ops ++ ops') = run (run r ops) ops' := foldl_append ..

/-- The stamp of an operation. -/
def Op.stamp : Op T V → T
  | .set t _ => t
  | .del t => t

variable {r : Option (T × V)} {t : T} {p : T × V} {v : V} {ops : List (Op T V)}

/-- A write that is not older than what is stored is stored. -/
theorem apply_set_of_le (h : ∀ p ∈ r, p.1 ≤ t) (v : V) :
    apply r (.set t v) = some (t, v) := by
  cases r with
  | none => rfl
  | some p => simp [apply, not_lt.mpr (h p rfl)]

/-- A deletion that is not older than what is stored leaves nothing. -/
theorem apply_del_of_le (h : ∀ p ∈ r, p.1 ≤ t) :
    apply r (.del t) = none := by
  cases r with
  | none => rfl
  | some p => simp [apply, not_lt.mpr (h p rfl)]

/-- An operation that is older than what is stored is refused. -/
theorem apply_of_lt {op : Op T V} (h : op.stamp < p.1) : apply (some p) op = some p := by
  cases op with
  | set t v => exact if_pos h
  | del t => exact if_pos h

/-- The write `(t, v)` beats `op`: a write with a smaller stamp, or the same write again, or a
    deletion with a smaller stamp. -/
def Beats (t : T) (v : V) : Op T V → Prop
  | .set t' v' => t' < t ∨ (t' = t ∧ v' = v)
  | .del t' => t' < t

/-- The register holds nothing that beats `(t, v)`. -/
def Below (t : T) (v : V) (r : Option (T × V)) : Prop :=
  ∀ p ∈ r, p.1 < t ∨ p = (t, v)

theorem below_apply {op : Op T V} (hr : Below t v r) (hop : Beats t v op) :
    Below t v (apply r op) := by
  have hnew : ∀ (t' : T) (v' : V), Beats t v (.set t' v') → Below t v (some (t', v')) := by
    rintro t' v' (hlt | ⟨rfl, rfl⟩) p hp
    · cases hp
      exact Or.inl hlt
    · cases hp
      exact Or.inr rfl
  cases op with
  | set t' v' =>
    cases r with
    | none => exact hnew t' v' hop
    | some p =>
      simp only [apply]
      split
      · exact hr
      · exact hnew t' v' hop
  | del t' =>
    cases r with
    | none => exact hr
    | some p =>
      simp only [apply]
      split
      · exact hr
      · intro q hq
        cases hq

theorem apply_set_of_below (hr : Below t v r) :
    apply r (.set t v) = some (t, v) := by
  apply apply_set_of_le
  intro p hp
  rcases hr p hp with hlt | rfl
  · exact hlt.le
  · exact le_rfl

/-- A register that holds the greatest write keeps it. -/
theorem run_of_held (hops : ∀ op ∈ ops, Beats t v op) :
    run (some (t, v)) ops = some (t, v) := by
  induction ops with
  | nil => rfl
  | cons op ops ih =>
    have hkeep : apply (some (t, v)) op = some (t, v) := by
      cases op with
      | set t' v' =>
        rcases hops _ mem_cons_self with hlt | ⟨rfl, rfl⟩
        · simp [apply, hlt]
        · simp [apply]
      | del t' =>
        have hlt : t' < t := hops _ mem_cons_self
        simp [apply, hlt]
    rw [run_cons, hkeep]
    exact ih fun op hop => hops op (mem_cons_of_mem _ hop)

/-- Where a write beats every operation, every order ends with it. -/
theorem run_of_greatest_set (hr : Below t v r) (hmem : .set t v ∈ ops)
    (hops : ∀ op ∈ ops, Beats t v op) :
    run r ops = some (t, v) := by
  obtain ⟨pre, post, rfl⟩ := append_of_mem hmem
  have hpre : Below t v (run r pre) := by
    clear hmem
    induction pre generalizing r with
    | nil => exact hr
    | cons op pre ih =>
      rw [run_cons]
      exact ih (below_apply hr (hops op (by simp))) fun op hop => hops op (by simp [hop])
  rw [run_append, run_cons, apply_set_of_below hpre]
  exact run_of_held fun op hop => hops op (by simp [hop])

/-- Writes alone leave a register with a stamp at least as great as the one it had. -/
theorem le_run_of_sets (hops : ∀ op ∈ ops, ∃ t v, op = .set t v) :
    ∃ q, run (some p) ops = some q ∧ p.1 ≤ q.1 := by
  induction ops generalizing p with
  | nil => exact ⟨p, rfl, le_rfl⟩
  | cons op ops ih =>
    obtain ⟨t, v, rfl⟩ := hops _ mem_cons_self
    have hrest := fun op hop => hops op (mem_cons_of_mem _ hop)
    rw [run_cons, apply]
    split
    · exact ih hrest
    · next hnot =>
      obtain ⟨q, hq, hle⟩ := ih hrest
      exact ⟨q, hq, (not_lt.mp hnot).trans hle⟩

/-- Behind writes alone, the register holds a stamp at least as great as that of each of them. -/
theorem exists_le_run_of_sets (hops : ∀ op ∈ ops, ∃ t v, op = .set t v) (hmem : .set t v ∈ ops) :
    ∃ p, run r ops = some p ∧ t ≤ p.1 := by
  obtain ⟨pre, post, rfl⟩ := append_of_mem hmem
  have hstored : ∃ p, apply (run r pre) (.set t v) = some p ∧ t ≤ p.1 := by
    cases run r pre with
    | none => exact ⟨(t, v), rfl, le_rfl⟩
    | some p =>
      by_cases hlt : t < p.1
      · exact ⟨p, if_pos hlt, hlt.le⟩
      · exact ⟨(t, v), if_neg hlt, le_rfl⟩
  obtain ⟨p, hp, hle⟩ := hstored
  have hpost : ∀ op ∈ post, ∃ t v, op = .set t v := fun op hop => hops op (by simp [hop])
  obtain ⟨q, hq, hle'⟩ := le_run_of_sets hpost
  exact ⟨q, by rw [run_append, run_cons, hp, hq], hle.trans hle'⟩

/-- Only deletions leave an empty register empty. -/
theorem run_none_of_dels (hops : ∀ op ∈ ops, ∃ t, op = .del t) :
    run none ops = none := by
  induction ops with
  | nil => rfl
  | cons op ops ih =>
    obtain ⟨t, rfl⟩ := hops _ mem_cons_self
    exact ih fun op hop => hops op (mem_cons_of_mem _ hop)

/-- The stored stamp is that of an operation applied before. -/
theorem run_stamp_mem (h : run none ops = some p) :
    .set p.1 p.2 ∈ ops := by
  induction ops using reverseRecOn generalizing p with
  | nil => cases h
  | append_singleton ops op ih =>
    rw [run_append, run_cons, run_nil] at h
    rw [mem_append, mem_singleton]
    -- the last operation either is refused, or it is the one whose stamp is left
    cases op with
    | set t v =>
      cases hr : run none ops with
      | none =>
        rw [hr] at h
        cases h
        exact Or.inr rfl
      | some q =>
        rw [hr] at h
        simp only [apply] at h
        split at h
        · cases h
          exact Or.inl (ih hr)
        · cases h
          exact Or.inr rfl
    | del t =>
      cases hr : run none ops with
      | none => rw [hr] at h; cases h
      | some q =>
        rw [hr] at h
        simp only [apply] at h
        split at h
        · cases h
          exact Or.inl (ih hr)
        · cases h

/-- Where a deletion is at least as great as all that came before it and only deletions come
    after it, nothing is left. -/
theorem run_of_greatest_del {pre post : List (Op T V)} (hpre : ∀ op ∈ pre, op.stamp ≤ t)
    (hpost : ∀ op ∈ post, ∃ t', op = .del t') :
    run none (pre ++ .del t :: post) = none := by
  have hdel : apply (run none pre) (.del t) = none :=
    apply_del_of_le fun p hp => hpre _ (run_stamp_mem hp)
  rw [run_append, run_cons, hdel]
  exact run_none_of_dels hpost

end Register

end Lib
