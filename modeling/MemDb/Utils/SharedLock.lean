import MemDb.Lib.Run
import Mathlib.Algebra.BigOperators.Group.Finset.Basic
import Mathlib.Algebra.Order.BigOperators.Group.Finset
import Mathlib.Data.Fintype.Basic

/-! # The shared lock

  Readers count themselves under `sharedCountLock`: the first one takes `lock` for all of them and
  the last one gives it back. A mutex is a binary semaphore here, since the reader that releases
  `lock` need not be the one that took it.

  `Thread.step` is one step of a thread on a mutex or a counter. What the lock holds is determined
  by how many threads are at each point (`Consistent`), and every step of every thread keeps it so.
-/

namespace MemDb

open Lib Function Finset

/-- `lock` and `sharedCountLock` are mutexes; `true` while they are held. -/
structure SharedLock where
  lockedSharedCount : Int64
  sharedCountLock : Bool
  lock : Bool
  lockedExclusiveCount : UInt64
deriving DecidableEq, Repr

namespace SharedLock

/-- A new lock; nobody holds it. -/
def free : SharedLock := ⟨0, false, false, 0⟩

inductive Call where
  | lockShared
  | unlockShared
  | lockExclusive
  | unlockExclusive

/-- Where a thread is: between calls, or in front of its next step. -/
inductive Point where
  | idle
  | counting
  | taking
  | uncounting
  | giving
  | leaving
  | entering
  | zeroing
  | unlocking
deriving DecidableEq

/-- How often the thread has locked and not yet called the unlock, and where it is. -/
structure Thread where
  point : Point
  shared : Nat
  exclusive : Nat

namespace Thread

/-- The next step of a thread, which makes `call` if it is between calls. `none` if it has to wait,
    and for an unlock without a lock. -/
def step (call : Call) (th : Thread) (l : SharedLock) : Option (SharedLock × Thread) :=
  match th.point with
  | .idle =>
    match call with
    | .lockShared =>
      if l.sharedCountLock then none
      else some ({ l with sharedCountLock := true }, { th with point := .counting })
    | .unlockShared =>
      if th.shared = 0 ∨ l.sharedCountLock then none
      else some ({ l with sharedCountLock := true },
        { th with shared := th.shared - 1, point := .uncounting })
    | .lockExclusive =>
      if l.lock then none else some ({ l with lock := true }, { th with point := .entering })
    | .unlockExclusive =>
      if th.exclusive = 0 then none
      else
        let l := { l with lockedExclusiveCount := l.lockedExclusiveCount - 1 }
        some (l, { th with exclusive := th.exclusive - 1,
                           point := if l.lockedExclusiveCount = 0 then .zeroing else .idle })
  | .counting =>
    let l := { l with lockedSharedCount := l.lockedSharedCount + 1 }
    some (l, if l.lockedSharedCount = 1 then { th with point := .taking }
      else { th with shared := th.shared + 1, point := .leaving })
  | .taking =>
    if l.lock then none
    else some ({ l with lock := true }, { th with shared := th.shared + 1, point := .leaving })
  | .uncounting =>
    let l := { l with lockedSharedCount := l.lockedSharedCount - 1 }
    some (l, { th with point := if l.lockedSharedCount = 0 then .giving else .leaving })
  | .giving => some ({ l with lock := false }, { th with point := .leaving })
  | .leaving => some ({ l with sharedCountLock := false }, { th with point := .idle })
  | .entering =>
    some ({ l with lockedExclusiveCount := l.lockedExclusiveCount + 1 },
      { th with exclusive := th.exclusive + 1, point := .idle })
  | .zeroing => some ({ l with lockedExclusiveCount := 0 }, { th with point := .unlocking })
  | .unlocking => some ({ l with lock := false }, { th with point := .idle })

/-- One if the thread is at one of the points. -/
def among (points : List Point) (th : Thread) : Nat := if th.point ∈ points then 1 else 0

/-- How often the thread holds the lock shared. -/
def readers (th : Thread) : Nat := th.shared + th.among [.uncounting]

/-- How often the thread holds the lock exclusively. -/
def writers (th : Thread) : Nat := th.exclusive + th.among [.entering, .zeroing, .unlocking]

end Thread

open Thread

/-- The lock for the threads that `total` counts. -/
structure Consistent (l : SharedLock) (total : (Thread → Nat) → Nat) : Prop where
  sharedCountLock : l.sharedCountLock.toNat = total (among [.counting, .uncounting, .leaving]) +
    total (among [.taking]) + total (among [.giving])
  lockedSharedCount : l.lockedSharedCount.toBitVec.toNat =
    (total readers + total (among [.taking])) % 2 ^ 64
  bound : total readers ≤ 2 ^ 64
  lock : l.lock.toNat = total (·.exclusive) + total (among [.entering, .zeroing, .unlocking]) +
    min 1 (total readers + total (among [.giving]))
  giving : total (among [.giving]) = 0 ∨ total readers = 0
  lockedExclusiveCount : l.lockedExclusiveCount.toNat = total (·.exclusive)

theorem eq_iff_toNat {a b : Int64} : a = b ↔ a.toBitVec.toNat = b.toBitVec.toNat := by
  rw [BitVec.toNat_inj, Int64.toBitVec_inj]

variable {l l' : SharedLock} {th th' : Thread} {call : Call} {rest : (Thread → Nat) → Nat}

theorem Consistent.step (h : Consistent l fun f => rest f + f th)
    (hstep : th.step call l = some (l', th')) : Consistent l' fun f => rest f + f th' := by
  obtain ⟨hmutex, hcount, hbound, hlock, hgiving, hexclusive⟩ := h
  obtain ⟨point, shared, exclusive⟩ := th
  obtain ⟨count, mutex, lock, exclusiveCount⟩ := l
  -- one thread at a time is in the counting section, and one writer or the readers have `lock`
  have hmutexLe := mutex.toNat_le
  have hlockLe := lock.toNat_le
  cases point <;> simp [among, readers] at hmutex hcount hbound hlock hgiving hexclusive
  case idle =>
    cases call <;> simp [Thread.step] at hstep
    case lockShared =>
      obtain ⟨rfl, rfl, rfl⟩ := hstep
      constructor <;> simp [among, readers] at hmutex ⊢ <;> omega
    case unlockShared =>
      obtain ⟨⟨hshared, rfl⟩, rfl, rfl⟩ := hstep
      constructor <;> simp [among, readers] at hmutex ⊢ <;> omega
    case lockExclusive =>
      obtain ⟨rfl, rfl, rfl⟩ := hstep
      constructor <;> simp [among, readers] at hlock ⊢ <;> omega
    case unlockExclusive =>
      obtain ⟨hpos, rfl, rfl⟩ := hstep
      have hzero : exclusiveCount - 1 = 0 := by
        rw [← UInt64.toNat_inj, UInt64.toNat_sub, show exclusiveCount.toNat = 1 by omega]
        rfl
      simp only [hzero]
      constructor <;> simp [among, readers] <;> omega
  case taking =>
    simp [Thread.step] at hstep
    obtain ⟨rfl, rfl, rfl⟩ := hstep
    constructor <;> simp [among, readers] at hlock ⊢ <;> omega
  all_goals obtain ⟨rfl, rfl⟩ := Prod.mk.inj (Option.some.inj hstep)
  case counting =>
    -- the count may wrap around; at `2 ^ 64` readers the next one waits for `lock`
    have hfirst : count + 1 = 1 ↔ count.toBitVec.toNat = 0 := by
      simp [eq_iff_toNat]
      omega
    simp only [hfirst]
    split <;> constructor <;> simp [among, readers] <;> omega
  case uncounting =>
    have hlast : count - 1 = 0 ↔ count.toBitVec.toNat = 1 := by
      simp [eq_iff_toNat]
      omega
    simp only [hlast]
    split <;> constructor <;> simp [among, readers] <;> omega
  all_goals constructor <;> simp [among, readers] <;> omega

/-! ### The threads -/

structure System (n : Nat) where
  lock : SharedLock
  threads : Fin n → Thread

namespace System
variable {n : Nat} {s s' : System n}

def initial (n : Nat) : System n := ⟨.free, fun _ => ⟨.idle, 0, 0⟩⟩

/-- The step of one of the threads. -/
def step (move : Fin n × Call) (s : System n) : Option (System n) := do
  let (lock, thread) ← (s.threads move.1).step move.2 s.lock
  some ⟨lock, update s.threads move.1 thread⟩

def Consistent (s : System n) : Prop := s.lock.Consistent fun f => ∑ t, f (s.threads t)

theorem sum_update (threads : Fin n → Thread) (t : Fin n) (th : Thread) (f : Thread → Nat) :
    ∑ u, f (update threads t th u) = ∑ u ∈ univ.erase t, f (threads u) + f th := by
  rw [← sum_erase_add _ _ (mem_univ t), update_self]
  congr 1
  refine sum_congr rfl fun u hu => ?_
  rw [update_of_ne (ne_of_mem_erase hu)]

theorem sum_eq (threads : Fin n → Thread) (t : Fin n) (f : Thread → Nat) :
    ∑ u, f (threads u) = ∑ u ∈ univ.erase t, f (threads u) + f (threads t) :=
  (sum_erase_add _ _ (mem_univ t)).symm

theorem Consistent.step {move : Fin n × Call} (h : s.Consistent) (hstep : s.step move = some s') :
    s'.Consistent := by
  obtain ⟨⟨lock, thread⟩, hthread, hs'⟩ := Option.bind_eq_some_iff.mp hstep
  cases hs'
  unfold Consistent at h ⊢
  simp only [sum_eq s.threads move.1] at h
  simp only [sum_update]
  exact h.step hthread

theorem consistent_initial (n : Nat) : (initial n).Consistent := by
  constructor <;> simp [initial, free, among, readers]

/-- A writer is alone, and the count is that of the readers whenever nobody is counting. -/
theorem excludes (moves : List (Fin n × Call)) (h : Run.run step moves (initial n) = some s) :
    (∀ t u, t ≠ u → 0 < (s.threads t).writers →
      (s.threads u).readers = 0 ∧ (s.threads u).writers = 0) ∧
    ((∀ t, (s.threads t).point ∉ [.counting, .taking, .uncounting, .giving, .leaving]) →
      s.lock.lockedSharedCount = .ofNat (∑ t, (s.threads t).readers) ∧
      (∑ t, (s.threads t).readers < 2 ^ 63 →
        s.lock.lockedSharedCount.toInt = ∑ t, (s.threads t).readers)) := by
  have hguarded : Run.Guarded step (fun _ _ => True) moves (initial n) :=
    .of_forall (fun _ _ _ => trivial) _
  have hs : s.Consistent :=
    Run.invariant (fun _ _ _ hs _ => hs.step) (consistent_initial n) hguarded h
  constructor
  · intro t u hne hpos
    -- the native lock is taken at most once: split the sum of its holders at `t` and at `u`
    have hlock := hs.lock
    have hle := s.lock.lock.toNat_le
    have hu := fun f : Thread → Nat => single_le_sum (f := fun u => f (s.threads u))
      (fun _ _ => Nat.zero_le _) (mem_erase.mpr ⟨hne.symm, mem_univ u⟩)
    simp only [sum_eq s.threads t] at hlock
    have h₁ := hu (·.exclusive)
    have h₂ := hu (among [.entering, .zeroing, .unlocking])
    have h₃ := hu readers
    unfold writers at *
    omega
  · intro hnone
    have htaking : ∑ t, among [.taking] (s.threads t) = 0 := by
      refine sum_eq_zero fun t _ => if_neg fun hmem => hnone t ?_
      simp_all
    have hcount : s.lock.lockedSharedCount = .ofNat (∑ t, (s.threads t).readers) := by
      rw [eq_iff_toNat, hs.lockedSharedCount, htaking, Nat.add_zero, Int64.toBitVec_ofNat',
        BitVec.toNat_ofNat]
    exact ⟨hcount, fun hlt => by rw [hcount, Int64.toInt_ofNat_of_lt hlt]⟩

/-- A writer has the lock; the other thread does not have it. -/
theorem excludes_of_lockExclusive :
    ∃ s, Run.run step [(0, .lockExclusive), (0, .lockExclusive)] (initial 2) = some s ∧
      (s.threads 1).readers = 0 ∧ (s.threads 1).writers = 0 := by
  obtain ⟨s, hs, hpos⟩ : ∃ s, Run.run step [(0, .lockExclusive), (0, .lockExclusive)] (initial 2) =
      some s ∧ 0 < (s.threads 0).writers := by decide +kernel
  exact ⟨s, hs, (excludes _ hs).1 0 1 (by decide) hpos⟩

/-- Once every thread is between calls and has given back what it had locked, the lock is free
    again. -/
theorem free_of_released {moves : List (Fin n × Call)} (h : Run.run step moves (initial n) = some s)
    (hreleased : ∀ t, (s.threads t).point = .idle ∧ (s.threads t).shared = 0 ∧
      (s.threads t).exclusive = 0) : s.lock = .free := by
  have hguarded : Run.Guarded step (fun _ _ => True) moves (initial n) :=
    .of_forall (fun _ _ _ => trivial) _
  obtain ⟨hmutex, hcount, -, hlock, -, hexclusive⟩ : s.Consistent :=
    Run.invariant (fun _ _ _ hs _ => hs.step) (consistent_initial n) hguarded h
  -- nobody is counted at any point
  simp [among, readers, hreleased] at hmutex hcount hlock hexclusive
  obtain ⟨⟨count, mutex, lock, exclusiveCount⟩, threads⟩ := s
  simp_all [free, eq_iff_toNat, ← UInt64.toNat_inj]

/-- A reader that comes and goes. -/
theorem free_of_released_reader :
    ∃ s, Run.run step (.replicate 4 (0, .lockShared) ++ .replicate 4 (0, .unlockShared))
      (initial 2) = some s ∧ s.lock = .free := by
  obtain ⟨s, hs, hreleased⟩ : ∃ s, Run.run step (.replicate 4 (0, .lockShared) ++
      .replicate 4 (0, .unlockShared)) (initial 2) = some s ∧ ∀ t, (s.threads t).point = .idle ∧
        (s.threads t).shared = 0 ∧ (s.threads t).exclusive = 0 := by decide +kernel
  exact ⟨s, hs, free_of_released hs hreleased⟩

end System

end SharedLock

end MemDb
