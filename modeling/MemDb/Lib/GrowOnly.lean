import Mathlib.Order.Lattice

/-! # Slots that only grow

    Every member of a group owns a slot and keeps a copy of the slots of all others. The owner
    raises its slot; the others take over values that the owner has announced, which may reach them
    late, in another order, more than once or never. A step is described by what it can do, not by
    which message it handles (`Step`). No copy is ever ahead of its owner, and a member that has
    taken in the present value of a slot knows the slot.
-/

namespace Lib.GrowOnly

variable {ι α : Type}

structure State (ι α : Type) where
  /-- `known i j`: the copy that `i` keeps of the slot of `j`. -/
  known : ι → ι → α
  /-- The values of its slot that a member has announced. -/
  announced : ι → α → Prop
  /-- `heard i j v`: the member `i` has taken in the value `v` of the slot of `j`. -/
  heard : ι → ι → α → Prop

variable [LinearOrder α]

/-- No copy and no announced value is ahead of the owner, and nothing that was heard is
    forgotten. -/
structure Sound (s : State ι α) : Prop where
  known_le : ∀ i j, s.known i j ≤ s.known j j
  announced_le : ∀ j v, s.announced j v → v ≤ s.known j j
  heard_le : ∀ i j v, s.heard i j v → v ≤ s.known i j

/-- What a step can do: copies grow, and a copy that changes takes over a value that was
    announced. -/
structure Step (s s' : State ι α) : Prop where
  grows : ∀ i j, s.known i j ≤ s'.known i j
  learns : ∀ i j, i ≠ j → s'.known i j = s.known i j ∨ s.announced j (s'.known i j)
  announces : ∀ j v, s'.announced j v → s.announced j v ∨ v ≤ s'.known j j
  hears : ∀ i j v, s'.heard i j v → s.heard i j v ∨ v ≤ s'.known i j

variable {s s' : State ι α}

theorem Sound.step (h : Sound s) (hstep : Step s s') : Sound s' := by
  constructor
  · intro i j
    by_cases hij : i = j
    · rw [hij]
    · obtain hsame | hannounced := hstep.learns i j hij
      · rw [hsame]
        exact le_trans (h.known_le i j) (hstep.grows j j)
      · exact le_trans (h.announced_le j _ hannounced) (hstep.grows j j)
  · intro j v hannounced
    obtain hbefore | hle := hstep.announces j v hannounced
    · exact le_trans (h.announced_le j v hbefore) (hstep.grows j j)
    · exact hle
  · intro i j v hheard
    obtain hbefore | hle := hstep.hears i j v hheard
    · exact le_trans (h.heard_le i j v hbefore) (hstep.grows i j)
    · exact hle

/-- A member that has taken in the present value of a slot knows the slot. -/
theorem Sound.known_eq (h : Sound s) {i j : ι} (hheard : s.heard i j (s.known j j)) :
    s.known i j = s.known j j :=
  le_antisymm (h.known_le i j) (h.heard_le i j _ hheard)

end Lib.GrowOnly
