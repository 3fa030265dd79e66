import MemDb.Db.View

/-! # Removal affects one hash

  The runs of a tree: any sequence of `addData`, `addCounter` and `removeData` calls
  that return, from the empty tree. Insertions keep a tree well-formed without
  condition. A removal is different: at a node with a smaller hash it
  descends into the left child and stores the outcome as the right child,
  so it drops or duplicates whole subtrees, and at a node with two children it takes over
  the successor without its key.
  `removalSafe` describes the calls that reach neither, and along runs of such calls
  every removal affects the lookups of its own hash only.
-/

namespace MemDb

open Option

namespace AVLTree

/-- The trees that calls can produce, where each removal is `allowed` in the tree it is
    called on. -/
inductive Reachable
    (allowed : AVLTree → UInt32 → LamportClock → UpdateClockStrategy → Bool → Prop) :
    AVLTree → Prop where
  | empty : Reachable allowed empty
  | addData {t t' : AVLTree} {key : SimpleString} {keyHash : UInt32} {value : SimpleString}
      {timestamp : LamportClock} {strategy : UpdateClockStrategy} {clock clock' : LamportClock}
      {requestFromNode : Bool} {r : Option DbEditResult} (h : Reachable allowed t)
      (hcall : t.addData key keyHash value timestamp strategy clock requestFromNode
        = some (t', clock', r)) : Reachable allowed t'
  | addCounter {t t' : AVLTree} {key : SimpleString} {keyHash : UInt32} {selfNodeId : UInt16}
      {nNodes : UInt32} {ok : Bool} (h : Reachable allowed t)
      (hcall : t.addCounter key keyHash selfNodeId nNodes = some (t', ok)) : Reachable allowed t'
  | removeData {t t' : AVLTree} {keyHash : UInt32} {timestamp : LamportClock}
      {strategy : UpdateClockStrategy} {clock clock' : LamportClock} {checkTimestamps : Bool}
      {r : Option DbEditResult} (h : Reachable allowed t)
      (hallowed : allowed t keyHash timestamp strategy checkTimestamps)
      (hcall : t.removeData keyHash timestamp strategy clock checkTimestamps
        = some (t', clock', r)) : Reachable allowed t'

/-- No restriction on removals. -/
def anyRemoval : AVLTree → UInt32 → LamportClock → UpdateClockStrategy → Bool → Prop :=
  fun _ _ _ _ _ => True

/-- Removals that stay clear of the wrong turn and of the two-child case. -/
def safeRemoval : AVLTree → UInt32 → LamportClock → UpdateClockStrategy → Bool → Prop :=
  fun t keyHash timestamp strategy checkTimestamps =>
    t.removalSafe keyHash timestamp strategy checkTimestamps = true

/-- The call returns; every other hash looks up the same entry as before; the hash itself is
    absent after a success and unchanged after an error. -/
def RemovesOnly (t : AVLTree) (keyHash : UInt32) (timestamp : LamportClock)
    (strategy : UpdateClockStrategy) (clock : LamportClock) (checkTimestamps : Bool) : Prop :=
  ∃ t' clock' r,
    t.removeData keyHash timestamp strategy clock checkTimestamps = some (t', clock', r) ∧
    (∀ h', h' ≠ keyHash → ∃ e, t.lookup h' = some e ∧ t'.lookup h' = some e) ∧
    (r.isSome = true → t'.lookup keyHash = some none) ∧
    (r = none → ∃ e, t.lookup keyHash = some e ∧ t'.lookup keyHash = some e)

/-! ### Steps keep trees well-formed -/

variable {keyHash : UInt32} {t t' : AVLTree} {key : SimpleString} {strategy : UpdateClockStrategy}
  {timestamp : LamportClock}
  {allowed : AVLTree → UInt32 → LamportClock → UpdateClockStrategy → Bool → Prop}

theorem wellFormed_addData (hwf : WellFormed t) {value : SimpleString} {clock clock' : LamportClock}
    {requestFromNode : Bool} {r : Option DbEditResult}
    (hcall : t.addData key keyHash value timestamp strategy clock requestFromNode
      = some (t', clock', r)) : WellFormed t' := by
  obtain ⟨t'', clock'', result, hrun, hwf', -⟩ :=
    addData_spec hwf key keyHash value timestamp strategy clock requestFromNode
  rw [hrun] at hcall
  cases hcall
  exact hwf'

theorem wellFormed_addCounter (hwf : WellFormed t) {selfNodeId : UInt16} {nNodes : UInt32}
    {ok : Bool} (hcall : t.addCounter key keyHash selfNodeId nNodes = some (t', ok)) :
    WellFormed t' := by
  obtain ⟨t'', ok', hrun, hwf', -⟩ := addCounter_spec hwf key keyHash selfNodeId nNodes
  rw [hrun] at hcall
  cases hcall
  exact hwf'

/-- A safe removal returns a well-formed tree whose view is that of before, or that of before
    without the hash if it succeeds. -/
theorem removeData_spec (hwf : WellFormed t) (clock : LamportClock) {checkTimestamps : Bool}
    (hsafe : t.removalSafe keyHash timestamp strategy checkTimestamps = true) :
    ∃ t' clock' r,
      t.removeData keyHash timestamp strategy clock checkTimestamps = some (t', clock', r) ∧
      WellFormed t' ∧ t'.view = if r.isSome then t.view.erase keyHash else t.view := by
  by_cases hgone : ∃ entry, t.view keyHash = some entry ∧
      refuses entry.data timestamp strategy checkTimestamps = false
  · obtain ⟨entry, hv, hacc⟩ := hgone
    obtain ⟨t', hrun, hwf', hview⟩ := removeData_removed hwf clock hsafe hv hacc
    exact ⟨t', _, _, hrun, hwf', hview⟩
  · obtain ⟨t', hrun, hwf', hview⟩ := removeData_kept hwf clock hsafe (by
      intro entry hv
      by_contra hne
      exact hgone ⟨entry, hv, Bool.eq_false_iff.mpr hne⟩)
    exact ⟨t', _, _, hrun, hwf', hview⟩

/-- Runs of safe removals stay within well-formed trees. -/
theorem Reachable.wellFormed (h : Reachable safeRemoval t) : WellFormed t := by
  induction h with
  | empty => exact wellFormed_empty
  | addData _ hcall ih => exact wellFormed_addData ih hcall
  | addCounter _ hcall ih => exact wellFormed_addCounter ih hcall
  | @removeData t t' keyHash timestamp strategy clock _ _ _ _ hallowed hcall ih =>
    obtain ⟨t'', _, _, hrun, hwf', -⟩ := removeData_spec ih clock hallowed
    rw [hrun] at hcall
    cases hcall
    exact hwf'

/-- Along runs whose removals are safe, a safe removal affects its own hash only. -/
theorem removeData_removes_only {t : AVLTree} (hreach : Reachable safeRemoval t)
    (keyHash : UInt32) (timestamp : LamportClock) (strategy : UpdateClockStrategy)
    (clock : LamportClock) (checkTimestamps : Bool)
    (hsafe : t.removalSafe keyHash timestamp strategy checkTimestamps = true) :
    RemovesOnly t keyHash timestamp strategy clock checkTimestamps := by
  have hwf := hreach.wellFormed
  obtain ⟨t', clock', r, hrun, hwf', hview⟩ := removeData_spec hwf clock hsafe
  refine ⟨t', clock', r, hrun, ?_, ?_, ?_⟩
  · intro h' hne
    refine ⟨t.view h', hwf.lookup h', ?_⟩
    rw [hwf'.lookup h', hview]
    split
    · rw [View.erase_ne _ hne]
    · rfl
  · intro hr
    rw [hwf'.lookup keyHash, hview, if_pos hr, View.erase_self]
  · intro hr
    refine ⟨t.view keyHash, hwf.lookup keyHash, ?_⟩
    rw [hwf'.lookup keyHash, hview, hr]
    rfl

/-! ### Small trees -/

/-- A write of one byte by node `1`. -/
def addByte (t : AVLTree) (keyHash : UInt32) (b : UInt8) : Option AVLTree :=
  (t.addData [b] keyHash [b] ⟨1, 1⟩ .SET_MAX ⟨1, 0⟩ true).map (·.1)

/-- Two writes to the empty tree: `first` is at the root and `second` below it. -/
def twoNodes (first second : UInt32) : Option AVLTree :=
  (empty.addByte first 1).bind (·.addByte second 2)

theorem reachable_addByte {b : UInt8} (h : Reachable allowed t)
    (hadd : t.addByte keyHash b = some t') : Reachable allowed t' := by
  obtain ⟨⟨t1, c1, r1⟩, hcall, rfl⟩ := map_eq_some_iff.mp hadd
  exact Reachable.addData h hcall

theorem reachable_twoNodes {first second : UInt32} (h : twoNodes first second = some t) :
    Reachable allowed t := by
  obtain ⟨t1, h1, h2⟩ := bind_eq_some_iff.mp h
  exact reachable_addByte (reachable_addByte .empty h1) h2

/-- Removing the left leaf `1` below `2`. -/
theorem removeData_removes_only_leaf :
    ∃ t, twoNodes 2 1 = some t ∧ RemovesOnly t 1 ⟨1, 2⟩ .SET_MAX ⟨1, 1⟩ true := by
  obtain ⟨t, ht⟩ : ∃ t, twoNodes 2 1 = some t := ⟨_, rfl⟩
  have hsafe : (twoNodes 2 1).map (·.removalSafe 1 ⟨1, 2⟩ .SET_MAX true) = some true := by decide
  rw [ht, map_some, some.injEq] at hsafe
  exact ⟨t, ht, removeData_removes_only (reachable_twoNodes ht) 1 ⟨1, 2⟩ .SET_MAX ⟨1, 1⟩ true hsafe⟩

/-- Removing the absent hash `3` from the nodes `1` and `2` loses `2`: at the root, whose hash
    is smaller, the right child is overwritten by the outcome on the (null) left one. -/
theorem removeData_loses_right_child :
    ¬ ∀ t, Reachable anyRemoval t → ∀ keyHash timestamp strategy clock checkTimestamps,
      RemovesOnly t keyHash timestamp strategy clock checkTimestamps := by
  intro hall
  obtain ⟨t, ht⟩ : ∃ t, twoNodes 1 2 = some t := ⟨_, rfl⟩
  obtain ⟨t', clock', r, hcall, hothers, -, -⟩ :=
    hall t (reachable_twoNodes ht) 3 ⟨1, 2⟩ .SET_MAX ⟨1, 1⟩ true
  obtain ⟨e, hbefore, hafter⟩ := hothers 2 (by decide)
  have hheld : (twoNodes 1 2).bind (·.lookup 2) ≠ some none := by decide
  have hlost : ((twoNodes 1 2).bind (·.removeData 3 ⟨1, 2⟩ .SET_MAX ⟨1, 1⟩ true)).bind
      (·.1.lookup 2) = some none := by decide
  rw [ht, bind_some, hcall, bind_some, hafter] at hlost
  rw [ht, bind_some, hbefore] at hheld
  exact hheld hlost

end AVLTree

end MemDb
