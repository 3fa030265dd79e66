import Mathlib.Data.Prod.Lex
import Mathlib.Algebra.Group.Nat.Defs

/-! # Lamport clocks

  The timestamps of the database: a 64-bit counter and the 16-bit id of the node
  that stamped it. A node's own clock is a value of the same type. The atomic
  loads and compare-exchange loops of the source are one step each here.
-/

namespace MemDb

/-- Which update `LamportClock.update` performs. -/
inductive UpdateClockStrategy where
  | NONE
  | SET_MAX
  | TICK
deriving DecidableEq, Repr

/-- A Lamport timestamp, or a node's clock. -/
structure LamportClock where
  nodeId : UInt16
  counter : UInt64
deriving DecidableEq, Repr, Inhabited

namespace LamportClock

/-- `max` of two counters. -/
def maxCounter (a b : UInt64) : UInt64 := if a < b then b else a

/-- Advance past both counters; returns the clock and its new counter. The addition wraps. -/
def tick (c : LamportClock) (other : UInt64) : LamportClock × UInt64 :=
  let newCounter := maxCounter c.counter other + 1
  ({ c with counter := newCounter }, newCounter)

/-- Raise the counter to `newCounter` if that is greater. -/
def setMax (c : LamportClock) (newCounter : UInt64) : LamportClock × UInt64 :=
  ({ c with counter := maxCounter newCounter c.counter }, maxCounter newCounter c.counter)

/-- Dispatch on the strategy; returns the clock and the counter the caller sees. -/
def update (c : LamportClock) (strategy : UpdateClockStrategy) (otherCounter : UInt64) :
    LamportClock × UInt64 :=
  match strategy with
  | .NONE => (c, c.counter)
  | .SET_MAX => c.setMax otherCounter
  | .TICK => c.tick otherCounter

/-- `operator>`: counters first, node ids on a tie. -/
def gt (a b : LamportClock) : Bool :=
  decide (b.counter < a.counter) ||
    (a.counter == b.counter && decide (b.nodeId < a.nodeId))

/-- `operator<`. -/
def lt (a b : LamportClock) : Bool :=
  decide (a.counter < b.counter) ||
    (a.counter == b.counter && decide (a.nodeId < b.nodeId))

/-- `operator==`. -/
def eq (a b : LamportClock) : Bool := a.counter == b.counter && b.nodeId == a.nodeId

/-- Whether the clock is greater than another one, given by its parts. -/
def compare (a : LamportClock) (otherCount : UInt64) (otherNodeId : UInt16) : Bool :=
  decide (otherCount < a.counter) || (a.counter == otherCount && decide (otherNodeId < a.nodeId))

/-- `operator<=`. The first operand of the disjunction asks for equal counters, one less than the
    other. -/
def le (a b : LamportClock) : Bool :=
  ((b.counter == a.counter && b.nodeId == a.nodeId) && decide (a.counter < b.counter)) ||
    (a.counter == b.counter && decide (a.nodeId < b.nodeId))

/-- `operator>=`. -/
def ge (a b : LamportClock) : Bool :=
  ((b.counter == a.counter && b.nodeId == a.nodeId) && decide (b.counter < a.counter)) ||
    (a.counter == b.counter && decide (b.nodeId < a.nodeId))

/-! ### The order of timestamps -/

theorem gt_iff {a b : LamportClock} :
    a.gt b = true ↔ b.counter.toNat < a.counter.toNat ∨
      (a.counter.toNat = b.counter.toNat ∧ b.nodeId.toNat < a.nodeId.toNat) := by
  simp [gt, UInt64.lt_iff_toNat_lt, UInt16.lt_iff_toNat_lt, UInt64.toNat_inj]

theorem ext_toNat {a b : LamportClock} (hc : a.counter.toNat = b.counter.toNat)
    (hn : a.nodeId.toNat = b.nodeId.toNat) : a = b := by
  cases a
  cases b
  simp only [UInt64.toNat_inj, UInt16.toNat_inj] at hc hn
  rw [hc, hn]

/-- Timestamps are totally ordered, by counter and then node id. -/
instance : LinearOrder LamportClock :=
  LinearOrder.lift' (fun a => toLex (a.counter.toNat, a.nodeId.toNat)) (by
    intro a b h
    have h' : (a.counter.toNat, a.nodeId.toNat) = (b.counter.toNat, b.nodeId.toNat) := h
    exact ext_toNat (congrArg Prod.fst h') (congrArg Prod.snd h'))

section
variable {a b : LamportClock}

theorem lt_iff :
    a < b ↔ a.counter.toNat < b.counter.toNat ∨
      (a.counter.toNat = b.counter.toNat ∧ a.nodeId.toNat < b.nodeId.toNat) :=
  Prod.Lex.toLex_lt_toLex

theorem counter_le (h : a ≤ b) : a.counter.toNat ≤ b.counter.toNat := by
  rcases h.lt_or_eq with hlt | heq
  · rcases lt_iff.mp hlt with hcounter | ⟨hcounter, -⟩
    · exact hcounter.le
    · exact hcounter.le
  · rw [heq]

/-- `operator>` decides the order. -/
theorem gt_iff_lt : a.gt b = true ↔ b < a := by
  rw [gt_iff, lt_iff]
  omega

/-- `operator<` is `operator>` from the other side. -/
theorem lt_iff_lt : a.lt b = true ↔ a < b := by
  rw [← gt_iff_lt, lt, gt, BEq.comm]

theorem eq_iff_eq : a.eq b = true ↔ a = b := by
  rw [eq, Bool.and_eq_true, beq_iff_eq, beq_iff_eq]
  exact ⟨fun h => ext_toNat (by rw [h.1]) (by rw [h.2]), fun h => ⟨by rw [h], by rw [h]⟩⟩

/-- `operator<=` leaves out equal clocks and those whose counters differ. -/
theorem le_iff : a.le b = true ↔ a.counter = b.counter ∧ a.nodeId < b.nodeId := by
  have hnever : ¬ ((b.counter = a.counter ∧ b.nodeId = a.nodeId) ∧ a.counter < b.counter) := by
    rintro ⟨⟨heq, -⟩, hlt⟩
    exact UInt64.lt_irrefl _ (heq ▸ hlt)
  simp [le, hnever]

/-- The operators agree on one total order, as far as the three clocks show. -/
def OneOrder (a b c : LamportClock) : Prop :=
  (a.lt b).toNat + (a.eq b).toNat + (a.gt b).toNat = 1 ∧
  (a.lt b = true → b.lt c = true → a.lt c = true) ∧
  (a.le b = true ↔ a.lt b = true ∨ a.eq b = true) ∧
  (a.ge b = true ↔ b.le a = true) ∧
  a.compare b.counter b.nodeId = a.gt b

/-- All of it holds but for `operator<=`, which is right about the clocks that are greater and those
    with the same counter and a different node. -/
theorem oneOrder_iff (a b c : LamportClock) : OneOrder a b c ↔ b.counter ≤ a.counter ∧ a ≠ b := by
  have hone : (a.lt b).toNat + (a.eq b).toNat + (a.gt b).toNat = 1 := by
    rw [Bool.eq_iff_iff.mpr (lt_iff_lt.trans decide_eq_true_iff.symm),
      Bool.eq_iff_iff.mpr (eq_iff_eq.trans decide_eq_true_iff.symm),
      Bool.eq_iff_iff.mpr (gt_iff_lt.trans decide_eq_true_iff.symm)]
    rcases lt_trichotomy a b with h | h | h
    · simp [h, h.ne, h.not_gt]
    · simp [h]
    · simp [h, h.ne', h.not_gt]
  have hge : a.ge b = b.le a := by
    rw [ge, le, BEq.comm (a := b.counter), BEq.comm (a := b.nodeId)]
  have hle : (a.le b = true ↔ a.lt b = true ∨ a.eq b = true) ↔ b.counter ≤ a.counter ∧ a ≠ b := by
    rw [le_iff, lt_iff_lt, eq_iff_eq, lt_iff, ← UInt64.toNat_inj, UInt16.lt_iff_toNat_lt,
      UInt64.le_iff_toNat_le]
    by_cases h : a = b
    · simp [h]
    · simp only [h, or_false, ne_eq, not_false_eq_true, and_true]
      omega
  have htrans : a.lt b = true → b.lt c = true → a.lt c = true := by
    rw [lt_iff_lt, lt_iff_lt, lt_iff_lt]
    exact lt_trans
  exact ⟨fun h => hle.mp h.2.2.1, fun h => ⟨hone, htrans, hle.mpr h, by rw [hge], rfl⟩⟩

/-- The counter 1 is less than the counter 2, and not less than or equal. -/
theorem not_oneOrder : ¬ OneOrder ⟨1, 1⟩ ⟨1, 2⟩ ⟨1, 2⟩ := by
  unfold OneOrder
  decide

theorem gt_eq_false_iff_le : a.gt b = false ↔ a ≤ b := by
  rw [← Bool.not_eq_true, gt_iff_lt, not_lt]

end

/-! ### Clock updates -/

@[simp] theorem toNat_maxCounter (a b : UInt64) :
    (maxCounter a b).toNat = max a.toNat b.toNat := by
  unfold maxCounter
  split
  · next h => rw [UInt64.lt_iff_toNat_lt] at h; omega
  · next h => rw [UInt64.lt_iff_toNat_lt] at h; omega

@[simp] theorem update_nodeId (c : LamportClock) (strategy : UpdateClockStrategy)
    (otherCounter : UInt64) : (c.update strategy otherCounter).1.nodeId = c.nodeId := by
  cases strategy <;> rfl

/-- `update` always returns the counter it leaves in the clock. -/
@[simp] theorem update_snd (c : LamportClock) (strategy : UpdateClockStrategy)
    (otherCounter : UInt64) :
    (c.update strategy otherCounter).2 = (c.update strategy otherCounter).1.counter := by
  cases strategy <;> rfl

theorem toNat_update_SET_MAX (c : LamportClock) (otherCounter : UInt64) :
    (c.update .SET_MAX otherCounter).1.counter.toNat
      = max otherCounter.toNat c.counter.toNat := by
  simp [update, setMax]

theorem toNat_update_TICK {c : LamportClock} {otherCounter : UInt64}
    (hc : c.counter.toNat + 1 < 2 ^ 64) (ho : otherCounter.toNat + 1 < 2 ^ 64) :
    (c.update .TICK otherCounter).1.counter.toNat
      = max c.counter.toNat otherCounter.toNat + 1 := by
  simp only [update, tick, UInt64.toNat_add, toNat_maxCounter]
  have : (1 : UInt64).toNat = 1 := rfl
  omega

end LamportClock

end MemDb
