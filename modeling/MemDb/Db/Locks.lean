import MemDb.Db.MapCalls
import MemDb.Utils.SharedLock

/-! # The locks of the buckets

  Each bucket has a `SharedLock`, which a call on the store takes before it looks at the bucket and
  gives back before it returns. In a sequential run nobody else gives a lock back, so a
  lock that a call leaves behind makes the next call on its bucket wait for ever.

  One exit forgets the lock: `updateCounter` on a key that holds a value. `releasesLocks_iff`
  says that it is the only one.
-/

namespace MemDb

open Lib Option Function

/-- Why a call of a sequential run does not return: it waits for a mutex that nobody will release,
    or it fails (a null or dangling pointer, or an index out of bounds). -/
inductive Halt where
  | waits
  | fails
deriving DecidableEq, Repr

/-! ### The lock -/

namespace SharedLock

/-- `sharedCountLock.lock()`. -/
def takeSharedCountLock (l : SharedLock) : Except Halt SharedLock :=
  if l.sharedCountLock then .error .waits else .ok { l with sharedCountLock := true }

/-- `lock.lock()`. -/
def takeLock (l : SharedLock) : Except Halt SharedLock :=
  if l.lock then .error .waits else .ok { l with lock := true }

def lockShared (l : SharedLock) : Except Halt SharedLock := do
  let l ← l.takeSharedCountLock
  let l := { l with lockedSharedCount := l.lockedSharedCount + 1 }
  let l ← if l.lockedSharedCount = 1 then l.takeLock else .ok l
  .ok { l with sharedCountLock := false }

def unlockShared (l : SharedLock) : Except Halt SharedLock := do
  let l ← l.takeSharedCountLock
  let l := { l with lockedSharedCount := l.lockedSharedCount - 1 }
  let l := if l.lockedSharedCount = 0 then { l with lock := false } else l
  .ok { l with sharedCountLock := false }

def lockExclusive (l : SharedLock) : Except Halt SharedLock := do
  let l ← l.takeLock
  .ok { l with lockedExclusiveCount := l.lockedExclusiveCount + 1 }

def unlockExclusive (l : SharedLock) : SharedLock :=
  let l := { l with lockedExclusiveCount := l.lockedExclusiveCount - 1 }
  if l.lockedExclusiveCount = 0 then { l with lockedExclusiveCount := 0, lock := false } else l

/-- A free lock once a reader has taken it. -/
def readHeld : SharedLock := ⟨1, false, true, 0⟩

/-- A free lock once a writer has taken it. -/
def writeHeld : SharedLock := ⟨0, false, true, 1⟩

@[simp] theorem lockShared_free : free.lockShared = .ok readHeld := rfl

@[simp] theorem unlockShared_readHeld : readHeld.unlockShared = .ok free := rfl

@[simp] theorem lockExclusive_free : free.lockExclusive = .ok writeHeld := rfl

@[simp] theorem unlockExclusive_writeHeld : writeHeld.unlockExclusive = free := rfl

end SharedLock

/-! ### The store with its locks -/

/-- The store and the lock of each bucket. -/
structure LockedMap where
  map : Map
  locks : Nat → SharedLock

namespace LockedMap

/-- Every lock is free. -/
def unlocked (m : Map) : LockedMap := ⟨m, fun _ => .free⟩

/-- No lock of a bucket is held. -/
def AllFree (s : LockedMap) : Prop := ∀ i, i < s.map.buckets.length → s.locks i = .free

def setLock (s : LockedMap) (hashCode : UInt32) (l : SharedLock) : LockedMap :=
  { s with locks := update s.locks (s.map.bucketIndex hashCode) l }

def lockRead (s : LockedMap) (hashCode : UInt32) : Except Halt LockedMap :=
  (s.locks (s.map.bucketIndex hashCode)).lockShared.map (s.setLock hashCode)

def unlockRead (s : LockedMap) (hashCode : UInt32) : Except Halt LockedMap :=
  (s.locks (s.map.bucketIndex hashCode)).unlockShared.map (s.setLock hashCode)

def lockWrite (s : LockedMap) (hashCode : UInt32) : Except Halt LockedMap :=
  (s.locks (s.map.bucketIndex hashCode)).lockExclusive.map (s.setLock hashCode)

def unlockWrite (s : LockedMap) (hashCode : UInt32) : LockedMap :=
  s.setLock hashCode (s.locks (s.map.bucketIndex hashCode)).unlockExclusive

/-- What is done while a lock is held; `none` is a call that fails. -/
def body {α : Type} : Option α → Except Halt α
  | none => .error .fails
  | some x => .ok x

/-- The frame of `putData`, `putCounter` and `remove`: the lock of the bucket around the edit. -/
def underWriteLock (s : LockedMap) (keyHash : UInt32) (edit : Map → Option Map) :
    Except Halt LockedMap := do
  let s ← s.lockWrite keyHash
  let map ← body (edit s.map)
  .ok ({ s with map }.unlockWrite keyHash)

section operations
variable (calculateHash : SimpleString → UInt32)

def putData (s : LockedMap) (key value : SimpleString) (timestamp : LamportClock)
    (strategy : UpdateClockStrategy) (lamportClock : LamportClock) (requestFromNode : Bool) :
    Except Halt LockedMap :=
  s.underWriteLock (calculateHash key) fun m =>
    (m.putData calculateHash key value timestamp strategy lamportClock requestFromNode).map (·.1)

def remove (s : LockedMap) (key : SimpleString) (timestamp : LamportClock)
    (strategy : UpdateClockStrategy) (lamportClock : LamportClock) (checkTimestamps : Bool) :
    Except Halt LockedMap :=
  s.underWriteLock (calculateHash key) fun m =>
    (m.remove calculateHash key timestamp strategy lamportClock checkTimestamps).map (·.1)

def putCounter (s : LockedMap) (key : SimpleString) (selfNodeId : UInt16) (nNodes : UInt32) :
    Except Halt LockedMap :=
  s.underWriteLock (calculateHash key) fun m =>
    (m.putCounter calculateHash key selfNodeId nNodes).map (·.1)

/-- Where the key holds a value, the source returns the error before it comes to the unlock. -/
def updateCounter (s : LockedMap) (key : SimpleString) (selfNodeId : UInt16) (nNodes : UInt32)
    (isIncrement : Bool) : Except Halt LockedMap := do
  let hash := calculateHash key
  let s ← s.lockWrite hash
  let (map, newValue) ← body (s.map.updateCounter calculateHash key selfNodeId nNodes isIncrement)
  if newValue.isNone then .ok { s with map }
  else .ok ({ s with map }.unlockWrite hash)

def get (s : LockedMap) (key : SimpleString) : Except Halt LockedMap := do
  let hash := calculateHash key
  let s ← s.lockRead hash
  let _ ← body (s.map.get calculateHash key)
  s.unlockRead hash

end operations

end LockedMap

namespace MapCall
variable (calculateHash : SimpleString → UInt32)

/-- The call with its locks. -/
def applyLocked : MapCall → LockedMap → Except Halt LockedMap
  | putData key value timestamp strategy clock requestFromNode, s =>
    s.putData calculateHash key value timestamp strategy clock requestFromNode
  | remove key timestamp strategy clock checkTimestamps, s =>
    s.remove calculateHash key timestamp strategy clock checkTimestamps
  | putCounter key selfNodeId nNodes, s => s.putCounter calculateHash key selfNodeId nNodes
  | updateCounter key selfNodeId nNodes isIncrement, s =>
    s.updateCounter calculateHash key selfNodeId nNodes isIncrement
  | get key, s => s.get calculateHash key

/-- The call counts, and the node under the hash of its key (one for a counter is added where there
    is none) is not a counter. -/
def findsValue : MapCall → Map → Bool
  | updateCounter key selfNodeId nNodes _, m =>
    (Map.addCounterIfAbsent (m.getBucket (calculateHash key)) key (calculateHash key) selfNodeId
      nNodes).any fun found =>
        ((found.1.get (calculateHash key)).join.bind found.1.node).any (·.nodeType ≠ .COUNTER)
  | _, _ => false

/-- A sequential run. -/
def runLocked : List MapCall → LockedMap → Except Halt LockedMap
  | [], s => .ok s
  | call :: calls, s => (call.applyLocked calculateHash s).bind (runLocked calls)

end MapCall

/-- At every point of the run no call has waited for a lock, and all locks are free. -/
def ReleasesLocks (calculateHash : SimpleString → UInt32) (calls : List MapCall) (s : LockedMap) :
    Prop :=
  ∀ before after, calls = before ++ after →
    MapCall.runLocked calculateHash before s ≠ .error .waits ∧
    ∀ s', MapCall.runLocked calculateHash before s = .ok s' → s'.AllFree

/-! ### Single calls -/

theorem Map.bucketIndex_congr {m m' : Map} (h : m'.numberBuckets = m.numberBuckets)
    (keyHash : UInt32) : m'.bucketIndex keyHash = m.bucketIndex keyHash := by
  rw [bucketIndex, bucketIndex, h]

section calls
variable {calculateHash : SimpleString → UInt32}

/-- No call changes the number of buckets. -/
theorem MapCall.apply_numberBuckets {call : MapCall} {m m' : Map}
    (h : call.apply calculateHash m = some m') : m'.numberBuckets = m.numberBuckets := by
  cases call with
  | putData key value timestamp strategy clock requestFromNode =>
    simp only [apply, Map.putData, bind_eq_bind, map_eq_some_iff,
      bind_eq_some_iff, some.injEq] at h
    obtain ⟨-, ⟨edited, -, rfl⟩, rfl⟩ := h
    rfl
  | remove key timestamp strategy clock checkTimestamps =>
    simp only [apply, Map.remove, bind_eq_bind, map_eq_some_iff,
      bind_eq_some_iff, some.injEq] at h
    obtain ⟨-, ⟨edited, -, rfl⟩, rfl⟩ := h
    rfl
  | putCounter key selfNodeId nNodes =>
    simp only [apply, Map.putCounter, map_eq_some_iff] at h
    obtain ⟨-, ⟨edited, -, rfl⟩, rfl⟩ := h
    rfl
  | updateCounter key selfNodeId nNodes isIncrement =>
    simp only [apply, Map.updateCounter, bind_eq_bind, map_eq_some_iff,
      bind_eq_some_iff] at h
    obtain ⟨result, ⟨found, -, p, -, a, -, n, -, h⟩, rfl⟩ := h
    split at h
    · cases h
      rfl
    · obtain ⟨edited, -, h⟩ := bind_eq_some_iff.mp h
      cases h
      rfl
  | get key =>
    obtain ⟨e, -, rfl⟩ := map_eq_some_iff.mp h
    rfl

namespace LockedMap

theorem lockWrite_unlocked (m : Map) (hash : UInt32) :
    (unlocked m).lockWrite hash = .ok ((unlocked m).setLock hash .writeHeld) := rfl

/-- The lock that was taken before the edit is the one that is given back. -/
theorem unlockWrite_setLock {m m' : Map} (h : m'.numberBuckets = m.numberBuckets) (hash : UInt32) :
    { (unlocked m).setLock hash .writeHeld with map := m' }.unlockWrite hash = unlocked m' := by
  have hindex := Map.bucketIndex_congr h hash
  simp only [unlockWrite, setLock, unlocked, hindex, update_self,
    SharedLock.unlockExclusive_writeHeld, update_idem, mk.injEq, true_and]
  exact update_eq_self _ _

theorem unlockRead_setLock (m : Map) (hash : UInt32) :
    ((unlocked m).setLock hash .readHeld).unlockRead hash = .ok (unlocked m) := by
  simp only [unlockRead, setLock, unlocked, update_self,
    SharedLock.unlockShared_readHeld, Except.map, update_idem, Except.ok.injEq, mk.injEq,
    true_and]
  exact update_eq_self _ _

theorem underWriteLock_unlocked {m : Map} {edit : Map → Option Map}
    (hedit : ∀ m', edit m = some m' → m'.numberBuckets = m.numberBuckets) (hash : UInt32) :
    (unlocked m).underWriteLock hash edit = (body (edit m)).map unlocked := by
  rw [underWriteLock, lockWrite_unlocked]
  show ((body (edit m)).bind fun map => .ok ({ (unlocked m).setLock hash .writeHeld with
    map }.unlockWrite hash)) = _
  cases h : edit m with
  | none => rfl
  | some m' => exact congrArg Except.ok (unlockWrite_setLock (hedit m' h) hash)

theorem updateCounter_unlocked (m : Map) (key : SimpleString) (selfNodeId : UInt16)
    (nNodes : UInt32) (isIncrement : Bool) :
    (unlocked m).updateCounter calculateHash key selfNodeId nNodes isIncrement
      = (body (m.updateCounter calculateHash key selfNodeId nNodes isIncrement)).bind fun result =>
        if result.2.isNone then
          .ok { (unlocked m).setLock (calculateHash key) .writeHeld with map := result.1 }
        else
          .ok ({ (unlocked m).setLock (calculateHash key) .writeHeld with
            map := result.1 }.unlockWrite (calculateHash key)) := rfl

theorem get_unlocked (m : Map) (key : SimpleString) :
    (unlocked m).get calculateHash key = (body (m.get calculateHash key)).bind fun _ =>
      ((unlocked m).setLock (calculateHash key) .readHeld).unlockRead (calculateHash key) := rfl

/-- A lock that is held is not free. -/
theorem not_allFree_setLock (m m' : Map) (hnumber : m'.numberBuckets = m.numberBuckets)
    (hash : UInt32) : ¬ { (unlocked m).setLock hash .writeHeld with map := m' }.AllFree := by
  intro hfree
  have hheld := hfree (m'.bucketIndex hash) (m'.bucketIndex_lt hash)
  simp only [setLock, unlocked, Map.bucketIndex_congr hnumber hash, update_self] at hheld
  exact absurd hheld (by decide)

end LockedMap

/-- `updateCounter` is an error where it finds a value, and nowhere else. -/
theorem MapCall.findsValue_updateCounter_iff {m : Map} {key : SimpleString} {selfNodeId : UInt16}
    {nNodes : UInt32} {isIncrement : Bool} :
    (MapCall.updateCounter key selfNodeId nNodes isIncrement).findsValue calculateHash m = true ↔
      ∃ m', m.updateCounter calculateHash key selfNodeId nNodes isIncrement = some (m', none) := by
  simp only [findsValue, Map.updateCounter, any_eq_true, bind_eq_some_iff,
    join_eq_some_iff, bind_eq_bind]
  constructor
  · rintro ⟨⟨bucket, added⟩, hadd, n, ⟨a, hget, hnode⟩, htype⟩
    refine ⟨m.setBucket (calculateHash key) bucket, (bucket, added), hadd, some a, hget, a, rfl, n,
      hnode, ?_⟩
    rw [if_pos (by simpa using htype)]
    rfl
  · rintro ⟨m', ⟨bucket, added⟩, hadd, p, hget, a, rfl, n, hnode, h⟩
    refine ⟨(bucket, added), hadd, n, ⟨a, hget, hnode⟩, ?_⟩
    split at h
    · next htype => simpa using htype
    · obtain ⟨edited, -, h⟩ := bind_eq_some_iff.mp h
      simp at h

/-- With all locks free, a call that does not find a value leaves them free. -/
theorem MapCall.applyLocked_releases {call : MapCall} {m : Map}
    (hfinds : call.findsValue calculateHash m = false) :
    call.applyLocked calculateHash (.unlocked m)
      = (LockedMap.body (call.apply calculateHash m)).map LockedMap.unlocked := by
  have hnumber : ∀ m', call.apply calculateHash m = some m' → m'.numberBuckets = m.numberBuckets :=
    fun m' h => apply_numberBuckets h
  cases call with
  | putData key value timestamp strategy clock requestFromNode =>
    exact LockedMap.underWriteLock_unlocked hnumber _
  | remove key timestamp strategy clock checkTimestamps =>
    exact LockedMap.underWriteLock_unlocked hnumber _
  | putCounter key selfNodeId nNodes => exact LockedMap.underWriteLock_unlocked hnumber _
  | updateCounter key selfNodeId nNodes isIncrement =>
    rw [applyLocked, LockedMap.updateCounter_unlocked, apply]
    cases hrun : m.updateCounter calculateHash key selfNodeId nNodes isIncrement with
    | none => rfl
    | some outcome =>
      obtain ⟨m', newValue⟩ := outcome
      cases newValue with
      | none =>
        -- an error without an unlock means that a value was found
        rw [findsValue_updateCounter_iff.mpr ⟨m', hrun⟩] at hfinds
        cases hfinds
      | some value =>
        have hsame : m'.numberBuckets = m.numberBuckets := hnumber m' (by rw [apply, hrun]; rfl)
        exact congrArg Except.ok (LockedMap.unlockWrite_setLock hsame (calculateHash key))
  | get key =>
    rw [applyLocked, LockedMap.get_unlocked, apply]
    cases m.get calculateHash key with
    | none => rfl
    | some e => exact LockedMap.unlockRead_setLock m (calculateHash key)

/-- A call that finds a value returns with the lock of its bucket held. -/
theorem MapCall.applyLocked_leaks {call : MapCall} {m : Map}
    (hfinds : call.findsValue calculateHash m = true) :
    ∃ s, call.applyLocked calculateHash (.unlocked m) = .ok s ∧ ¬ s.AllFree := by
  cases call with
  | updateCounter key selfNodeId nNodes isIncrement =>
    obtain ⟨m', hrun⟩ := findsValue_updateCounter_iff.mp hfinds
    have hsame : m'.numberBuckets = m.numberBuckets :=
      @apply_numberBuckets calculateHash (.updateCounter key selfNodeId nNodes isIncrement) m m'
        (by rw [apply, hrun]; rfl)
    refine ⟨{ (LockedMap.unlocked m).setLock (calculateHash key) .writeHeld with map := m' }, ?_,
      LockedMap.not_allFree_setLock m m' hsame _⟩
    rw [applyLocked, LockedMap.updateCounter_unlocked, hrun]
    rfl
  | _ => cases hfinds

end calls

/-! ### Runs -/

theorem LockedMap.allFree_unlocked (m : Map) : (unlocked m).AllFree := fun _ _ => rfl

/-- In a run from a store whose locks are free, all locks are free after each call and no call
    waits, if and only if no `updateCounter` finds a value under its key. -/
theorem releasesLocks_iff (calculateHash : SimpleString → UInt32) (calls : List MapCall) (m : Map) :
    ReleasesLocks calculateHash calls (.unlocked m) ↔
      Run.Guarded (MapCall.apply calculateHash)
        (fun call m => call.findsValue calculateHash m = false) calls m := by
  induction calls generalizing m with
  | nil =>
    refine iff_of_true ?_ trivial
    intro before after h
    obtain ⟨rfl, -⟩ := List.append_eq_nil_iff.mp h.symm
    refine ⟨by simp [MapCall.runLocked], ?_⟩
    intro s' hs'
    cases hs'
    exact LockedMap.allFree_unlocked m
  | cons call calls ih =>
    constructor
    · intro hrel
      have hfinds : call.findsValue calculateHash m = false := by
        by_contra hne
        -- the lock that the call leaves behind is held after the first call
        obtain ⟨s, hcall, hheld⟩ := MapCall.applyLocked_leaks (Bool.eq_true_of_not_eq_false hne)
        refine hheld ((hrel [call] calls rfl).2 s ?_)
        rw [MapCall.runLocked, hcall]
        rfl
      refine ⟨hfinds, fun m' hm' => (ih m').mp ?_⟩
      intro before after hsplit
      have hrun : MapCall.runLocked calculateHash (call :: before) (.unlocked m)
          = MapCall.runLocked calculateHash before (.unlocked m') := by
        rw [MapCall.runLocked, MapCall.applyLocked_releases hfinds, hm']
        rfl
      have hrest := hrel (call :: before) after (by rw [hsplit]; rfl)
      rwa [hrun] at hrest
    · rintro ⟨hfinds, hrest⟩ before after hsplit
      cases before with
      | nil =>
        refine ⟨by simp [MapCall.runLocked], ?_⟩
        intro s' hs'
        cases hs'
        exact LockedMap.allFree_unlocked m
      | cons first before =>
        obtain ⟨rfl, htail⟩ := List.cons.inj hsplit
        rw [MapCall.runLocked, MapCall.applyLocked_releases hfinds]
        cases hm' : call.apply calculateHash m with
        | none =>
          refine ⟨?_, ?_⟩
          · rintro ⟨⟩
          · rintro s' ⟨⟩
        | some m' => exact (ih m').mpr (hrest m' hm') before after htail

/-- After counting on a key that holds a value, a lookup in the same bucket waits for ever. -/
theorem updateCounter_leaks_lock :
    ¬ ∀ calls m, ReleasesLocks shortKeyHash calls (.unlocked m) := by
  intro hall
  have hwaits : MapCall.runLocked shortKeyHash [.write [1] 1, .updateCounter [1] 1 1 true, .get [2]]
      (.unlocked (Map.new 1 (by decide))) = .error .waits := rfl
  exact (hall _ _ [.write [1] 1, .updateCounter [1] 1 1 true, .get [2]] [] rfl).1 hwaits

end MemDb
