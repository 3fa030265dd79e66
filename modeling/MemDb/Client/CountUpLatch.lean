import Mathlib.Data.Fin.VecNotation
import MemDb.Lib.Loop

/-! # The latch of the Java client

    Threads that call `MultipleResponseNotifier.addResponse` and `CountUpLatch.awaitMin`, in any
    order of their steps and of the ticks of a clock. Java lets a thread call `wait` and `notifyAll`
    of an object only while it owns the monitor of that object: `addResponse` owns the one of
    `multiResponses`, and nobody that of the latch.
-/

namespace MemDb.Client.CountUpLatch

open Lib.Loop

inductive TimeUnit where
  | NANOSECONDS | MICROSECONDS | MILLISECONDS | SECONDS | MINUTES | HOURS | DAYS

def TimeUnit.nanos : TimeUnit → Int
  | NANOSECONDS => 1
  | MICROSECONDS => 1000
  | MILLISECONDS => 1000000
  | SECONDS => 1000000000
  | MINUTES => 60000000000
  | HOURS => 3600000000000
  | DAYS => 86400000000000

/-- `TimeUnit.MICROSECONDS.convert` rounds towards zero and saturates. -/
def convert (time : Int64) (unit : TimeUnit) : Int :=
  max Int64.minValue.toInt (min Int64.maxValue.toInt ((time.toInt * unit.nanos).tdiv 1000))

inductive Call where
  | addResponse
  | awaitMin (value : Int32) (time : Int64) (unit : TimeUnit)

/-- Where a thread stands in its call; `started` is the time of the first step of an `awaitMin`. -/
inductive Point where
  | start
  /-- In the synchronized block, before `getAndIncrement`. -/
  | counting
  | notifying
  | testing (started : Nat)
  | waiting (started : Nat)
  /-- In `wait`, until it is notified or until the time given, if there is one. -/
  | asleep (started : Nat) (deadline : Option Nat)
  | notified (started : Nat)
  | done
  | returned (started : Nat) (result : Bool)
  | threw

def Point.notify : Point → Point
  | asleep started _ => notified started
  | point => point

/-- The latch, the owners of the two monitors, and the threads. -/
structure System (n : Nat) where
  count : Int32
  /-- In nanoseconds. -/
  now : Nat
  multiResponsesOwner : Option (Fin n)
  latchOwner : Option (Fin n)
  threads : Fin n → Point

variable {n : Nat}

namespace System

def start : System n := ⟨0, 0, none, none, fun _ => .start⟩

def move (s : System n) (i : Fin n) (point : Point) : System n :=
  { s with threads := Function.update s.threads i point }

/-- A thread that was asleep goes on once it owns the monitor again. -/
def wakeUp (s : System n) (i : Fin n) (started : Nat) : System n :=
  if s.latchOwner = none then { s.move i (.testing started) with latchOwner := some i } else s

def addResponse (s : System n) (i : Fin n) : System n :=
  match s.threads i with
  | .start =>
    if s.multiResponsesOwner = none then
      { s.move i .counting with multiResponsesOwner := some i }
    else s
  | .counting => { s.move i .notifying with count := s.count + 1 }
  | .notifying =>
    -- the exception leaves the synchronized block, too
    if s.latchOwner = some i then
      { s with multiResponsesOwner := none
               threads := Function.update (fun j => (s.threads j).notify) i .done }
    else { s.move i .threw with multiResponsesOwner := none }
  | _ => s

def test (s : System n) (i : Fin n) (value : Int32) (started : Nat) : System n :=
  if s.count < value then s.move i (.waiting started) else s.move i (.returned started true)

def awaitMin (s : System n) (i : Fin n) (value : Int32) (time : Int64) (unit : TimeUnit) :
    System n :=
  match s.threads i with
  | .start => s.test i value s.now
  | .testing started => s.test i value started
  | .waiting started =>
    -- the argument of `wait` is in milliseconds, and `0` stands for no timeout
    let timeout := convert time unit
    if timeout < 0 ∨ s.latchOwner ≠ some i then s.move i .threw
    else
      let deadline := if timeout = 0 then none else some (s.now + timeout.toNat * 1000000)
      { s.move i (.asleep started deadline) with latchOwner := none }
  | .asleep started (some deadline) => if deadline ≤ s.now then s.wakeUp i started else s
  | .notified started => s.wakeUp i started
  | _ => s

variable (calls : Fin n → Call)

def step (s : System n) (i : Fin n) : System n :=
  match calls i with
  | .addResponse => s.addResponse i
  | .awaitMin value time unit => s.awaitMin i value time unit

/-- A tick of the clock, or a step of a thread. -/
def next (s : System n) : Fin (n + 1) → System n :=
  Fin.cases { s with now := s.now + 1 } (s.step calls)

def run (draw : Nat → Fin (n + 1)) : Nat → System n
  | 0 => start
  | k + 1 => (run draw k).next calls (draw k)

/-- No call throws, and every `awaitMin` returns: `true` if the count is reached before the time has
    elapsed, `false` if it is not when it has. -/
def HonoursTimeouts (draw : Nat → Fin (n + 1)) : Prop :=
  (∀ k i, (run calls draw k).threads i ≠ .threw) ∧
    ∀ i value time unit, calls i = .awaitMin value time unit →
      ∃ k started result, (run calls draw k).threads i = .returned started result ∧
        ((∃ m, ((run calls draw m).now : Int) < started + time.toInt * unit.nanos ∧
          value ≤ (run calls draw m).count) → result = true) ∧
        ((∃ m, started + time.toInt * unit.nanos ≤ ((run calls draw m).now : Int) ∧
          (run calls draw m).count < value) → result = false)

section
variable {calls} {s : System n} {draw : Nat → Fin (n + 1)}

/-- Nothing was counted, and every call that has begun has returned. -/
structure Calm (s : System n) : Prop where
  count : s.count = 0
  threads : ∀ i, s.threads i = .start ∨ ∃ started, s.threads i = .returned started true

variable (hcalls : ∀ i, ∃ value time unit, calls i = .awaitMin value time unit ∧ value ≤ 0)
include hcalls

theorem Calm.step (hs : s.Calm) (i : Fin n) :
    ∃ started, s.step calls i = s.move i (.returned started true) := by
  obtain ⟨value, time, unit, hcall, hvalue⟩ := hcalls i
  rw [System.step, hcall]
  rcases hs.threads i with hi | ⟨started, hi⟩
  · refine ⟨s.now, ?_⟩
    simp only [awaitMin, hi, test, hs.count]
    exact if_neg (Int32.not_lt.mpr hvalue)
  · refine ⟨started, ?_⟩
    simp only [awaitMin, hi]
    rw [move, ← hi, Function.update_eq_self]

theorem calm_run (draw : Nat → Fin (n + 1)) (k : Nat) : (run calls draw k).Calm := by
  induction k with
  | zero => exact ⟨rfl, fun _ => .inl rfl⟩
  | succ k ih =>
    rw [run, next]
    refine Fin.cases ⟨ih.count, ih.threads⟩ (fun i => ?_) (draw k)
    obtain ⟨started, hstep⟩ := ih.step hcalls i
    rw [Fin.cases_succ, hstep]
    refine ⟨ih.count, fun j => ?_⟩
    by_cases hj : j = i
    · exact .inr ⟨started, by simp [move, hj]⟩
    · simpa [move, hj] using ih.threads j

end

/-- Every call of `addResponse` throws, and so does every `awaitMin` that has to wait. -/
theorem honoursTimeouts_iff :
    (∀ draw, Fair draw → HonoursTimeouts calls draw) ↔
      ∀ i, ∃ value time unit, calls i = .awaitMin value time unit ∧ value ≤ 0 := by
  constructor
  · intro h i
    -- the thread runs alone, to the call of `notifyAll` or `wait`
    have hne := (h _ (fair_repeat 3 i.succ)).1 3 i
    cases hcall : calls i with
    | addResponse =>
      simp [run, next, step, hcall, addResponse, start, System.move] at hne
    | awaitMin value time unit =>
      refine ⟨value, time, unit, rfl, ?_⟩
      by_contra hvalue
      rw [Int32.not_le] at hvalue
      simp [run, next, step, hcall, awaitMin, test, start, System.move, hvalue] at hne
  · intro hcalls draw hfair
    refine ⟨fun k i hthrew => ?_, fun i value time unit hcall => ?_⟩
    · have := (calm_run hcalls draw k).threads i
      simp [hthrew] at this
    · obtain ⟨k, -, hk⟩ := hfair i.succ 0
      obtain ⟨started, hstep⟩ := (calm_run hcalls draw k).step hcalls i
      refine ⟨k + 1, started, true, ?_, fun _ => rfl, ?_⟩
      · simp [run, next, hk, hstep, move]
      · rintro ⟨m, -, hlt⟩
        obtain ⟨_, _, _, hcall', hvalue⟩ := hcalls i
        cases hcall.symm.trans hcall'
        rw [(calm_run hcalls draw m).count] at hlt
        exact absurd hvalue (Int32.not_le.mpr hlt)

/-- A response comes in for a thread that waits for one. -/
theorem not_honoursTimeouts : ∃ draw, Fair draw ∧
    ¬ HonoursTimeouts ![.addResponse, .awaitMin 1 1 .SECONDS] draw :=
  ⟨_, fair_repeat 3 1, fun h => h.1 3 0 rfl⟩

end System

end MemDb.Client.CountUpLatch
