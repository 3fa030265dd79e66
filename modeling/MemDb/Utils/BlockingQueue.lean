import MemDb.Lib.Heap
import Mathlib.Tactic.Ring

/-! # The blocking queue

  `BlockingQueue` is a list of nodes: `head` is the next one to leave, and the `prev` of a node is
  the one that came after it. `dequeue` moves `head` only, so `tail` and the `next` pointers go
  stale, and `enqueue` tells by `size` which of them to follow.

  A call makes at most one node, so the nodes of what is queued stand at consecutive addresses.
  `isFifo_iff` says that the queue is one as long as `size`, an `int`, can count what is in it.
-/

namespace MemDb

open Lib List

variable {α : Type}

structure BlockingQueueNode (α : Type) where
  value : α
  next : Option Nat
  prev : Option Nat

/-- The nodes are shared pointers: those that are referred to stay. -/
structure BlockingQueue (α : Type) where
  nodes : Heap (BlockingQueueNode α)
  head : Option Nat
  tail : Option Nat
  stop : Bool
  size : Int32

namespace BlockingQueue

/-- An empty queue; no constructor sets `stop`. -/
def new (stop : Bool) : BlockingQueue α := ⟨.empty, none, none, stop, 0⟩

def enqueue (q : BlockingQueue α) (data : α) : Option (BlockingQueue α) := do
  let newNode := q.nodes.next
  let nodes := q.nodes.alloc ⟨data, none, none⟩
  if q.size = 0 then
    some { q with nodes := nodes, head := some newNode, tail := some newNode, size := q.size + 1 }
  else
    let last ← (if q.size = 1 then q.head else q.tail)
    let lastNode ← nodes.read last
    let nodes := nodes.write last { lastNode with prev := some newNode }
    let nodes := nodes.write newNode ⟨data, some last, none⟩
    some { q with nodes := nodes, tail := some newNode, size := q.size + 1 }

/-- `none` while it waits, and where it throws. -/
def dequeue (q : BlockingQueue α) : Option (BlockingQueue α × α) := do
  if ¬ (0 < q.size ∨ q.stop) then none
  else if q.stop ∧ q.size = 0 then none
  else
    let nodeToDequeue ← q.head
    let node ← q.nodes.read nodeToDequeue
    some ({ q with head := node.prev, size := q.size - 1 }, node.value)

def getSize (q : BlockingQueue α) : Int32 := q.size

/-! ### What the queue holds -/

/-- The value of a node and the node behind it. -/
def link (nodes : Heap (BlockingQueueNode α)) (a : Nat) : Option (α × Option Nat) :=
  (nodes.read a).bind fun node => some (node.value, node.prev)

theorem link_alloc (nodes : Heap (BlockingQueueNode α)) (node : BlockingQueueNode α) :
    link (nodes.alloc node) =
      Function.update (link nodes) nodes.next (some (node.value, node.prev)) :=
  Heap.bind_read_alloc nodes node _

theorem link_write {nodes : Heap (BlockingQueueNode α)} {a : Nat} (ha : a < nodes.next)
    (node : BlockingQueueNode α) :
    link (nodes.write a node) = Function.update (link nodes) a (some (node.value, node.prev)) :=
  Heap.bind_read_write ha node _

/-- The nodes of the values queued are those from `d` on. -/
structure Holds (q : BlockingQueue α) (queued : List α) (d : Nat) : Prop where
  next : q.nodes.next = d + queued.length
  head : q.head = if queued = [] then none else some d
  tail : queued ≠ [] → q.tail = some (d + queued.length - 1)
  size : q.size.toInt = queued.length
  nodes : ∀ i (hi : i < queued.length), link q.nodes (d + i) =
    some (queued[i], if i + 1 < queued.length then some (d + i + 1) else none)

variable {q : BlockingQueue α} {queued : List α} {d : Nat}

theorem Holds.size_eq_iff (h : q.Holds queued d) (n : Int32) :
    q.size = n ↔ queued.length = n.toInt := by
  rw [← h.size, Int32.toInt_inj]

theorem Holds.dequeue {v : α} (h : q.Holds (v :: queued) d) :
    ∃ q', q.dequeue = some (q', v) ∧ q'.Holds queued (d + 1) := by
  have hsize := h.size
  rw [length_cons] at hsize
  -- the size is an `int` that counts the queue, so it is positive here
  have hpos : 0 < q.size := by
    rw [Int32.lt_iff_toInt_lt, hsize, Int32.toInt_zero]
    omega
  have hne : q.size ≠ 0 := by
    simp [h.size_eq_iff]
    omega
  obtain ⟨node, hread, hnode⟩ := Option.bind_eq_some_iff.mp (h.nodes 0 (by simp))
  obtain ⟨hvalue, hprev⟩ := Prod.mk.inj (Option.some.inj hnode)
  refine ⟨{ q with head := node.prev, size := q.size - 1 }, ?_, ?_, ?_, ?_, ?_, ?_⟩
  · rw [Nat.add_zero] at hread
    simp [BlockingQueue.dequeue, hpos, hne, h.head, hread, hvalue]
  · rw [h.next, length_cons]
    omega
  · cases queued <;> simpa using hprev
  · intro _
    rw [h.tail (cons_ne_nil _ _), length_cons]
    congr 1
    omega
  · have := q.size.toInt_lt
    rw [Int32.toInt_sub, hsize, Int32.toInt_one, Int.bmod_eq_of_le (by omega) (by omega)]
    omega
  · intro i hi
    have := h.nodes (i + 1) (by simpa using hi)
    grind

theorem Holds.enqueue (h : q.Holds queued d) (x : α) (hlt : queued.length + 1 < 2 ^ 31) :
    ∃ q', q.enqueue x = some q' ∧ q'.Holds (queued ++ [x]) d := by
  have hsize : (q.size + 1).toInt = (queued ++ [x]).length := by
    rw [Int32.toInt_add, h.size, Int32.toInt_one, Int.bmod_eq_of_le (by omega) (by omega)]
    simp
  by_cases hempty : queued = []
  · subst hempty
    have hzero : q.size = 0 := by simp [h.size_eq_iff]
    refine ⟨_, if_pos hzero, by simp [h.next], by simp [h.next], by simp [h.next], hsize, ?_⟩
    intro i hi
    obtain rfl : i = 0 := by simpa using hi
    simp [link_alloc, h.next]
  · have hpos := length_pos_iff.mpr hempty
    let last := d + queued.length - 1
    have hlast : (if q.size = 1 then q.head else q.tail) = some last := by
      split
      · next hone =>
        -- the head is the last node as well
        have : queued.length = 1 := by simpa [h.size_eq_iff] using hone
        rw [h.head, if_neg hempty, show d = last by omega]
      · exact h.tail hempty
    have hne : q.size ≠ 0 := by simp [h.size_eq_iff, hempty]
    have hlink := h.nodes (queued.length - 1) (by omega)
    rw [← Nat.add_sub_assoc (Nat.one_le_of_lt hpos)] at hlink
    obtain ⟨lastNode, hread, hnode⟩ := Option.bind_eq_some_iff.mp hlink
    rw [← Heap.read_alloc_of_lt _ ⟨x, none, none⟩ (Heap.read_lt_next hread)] at hread
    let nodes := (q.nodes.alloc ⟨x, none, none⟩).write last
      { lastNode with prev := some q.nodes.next }
    refine ⟨{ q with nodes := nodes.write q.nodes.next ⟨x, some last, none⟩,
                     tail := some q.nodes.next, size := q.size + 1 },
      ?_, by simp [nodes, h.next, Nat.add_assoc], by simp [h.head, hempty],
      by simp [h.next], hsize, ?_⟩
    · simp [BlockingQueue.enqueue, hne, hlast, hread, last, nodes]
    · intro i hi
      have hold := h.nodes i
      rw [link_write (by simp [nodes]), link_write (Heap.read_lt_next hread), link_alloc, h.next]
      grind [Function.update_apply]

end BlockingQueue

/-! ### Runs of calls -/

inductive QueueCall (α : Type) where
  | enqueue (data : α)
  | dequeue

namespace QueueCall

/-- The calls do to the queue what they do to the list `queued`: a value goes to the end, the first
    one leaves, and `getSize` counts the others. A `dequeue` that would wait ends the run. -/
def IsFifo : List (QueueCall α) → BlockingQueue α → List α → Prop
  | [], _, _ => True
  | enqueue data :: calls, q, queued => ∃ q', q.enqueue data = some q' ∧
    q'.getSize.toInt = (queued ++ [data]).length ∧ IsFifo calls q' (queued ++ [data])
  | dequeue :: _, _, [] => True
  | dequeue :: calls, q, value :: queued => ∃ q', q.dequeue = some (q', value) ∧
    q'.getSize.toInt = queued.length ∧ IsFifo calls q' queued

/-- With `n` values queued, the calls never bring their number to `2 ^ 31`. -/
def Fits : List (QueueCall α) → Nat → Prop
  | [], _ => True
  | enqueue _ :: calls, n => n + 1 < 2 ^ 31 ∧ Fits calls (n + 1)
  | dequeue :: _, 0 => True
  | dequeue :: calls, n + 1 => Fits calls n

variable {calls : List (QueueCall α)} {q : BlockingQueue α} {queued : List α} {d : Nat}

theorem IsFifo.fits (h : IsFifo calls q queued) : Fits calls queued.length := by
  induction calls generalizing q queued with
  | nil => trivial
  | cons call calls ih =>
    cases call with
    | enqueue data =>
      obtain ⟨q', -, hsize, hrest⟩ := h
      have := q'.getSize.toInt_lt
      have := ih hrest
      rw [length_append, length_singleton] at *
      exact ⟨by omega, this⟩
    | dequeue =>
      cases queued with
      | nil => trivial
      | cons value queued =>
        obtain ⟨q', -, -, hrest⟩ := h
        exact ih hrest

theorem Fits.isFifo (hq : q.Holds queued d) (h : Fits calls queued.length) :
    IsFifo calls q queued := by
  induction calls generalizing q queued d with
  | nil => trivial
  | cons call calls ih =>
    cases call with
    | enqueue data =>
      obtain ⟨q', hcall, hq'⟩ := hq.enqueue data h.1
      refine ⟨q', hcall, hq'.size, ih hq' ?_⟩
      rw [length_append]
      exact h.2
    | dequeue =>
      cases queued with
      | nil => trivial
      | cons value queued =>
        obtain ⟨q', hcall, hq'⟩ := hq.dequeue
        exact ⟨q', hcall, hq'.size, ih hq' h⟩

/-- A new queue is a FIFO queue exactly as long as fewer than `2 ^ 31` values are queued. -/
theorem isFifo_iff (calls : List (QueueCall α)) (stop : Bool) :
    IsFifo calls (.new stop) [] ↔ Fits calls 0 := by
  have hnew : (BlockingQueue.new stop : BlockingQueue α).Holds [] 0 :=
    ⟨rfl, rfl, by simp, rfl, by simp⟩
  exact ⟨IsFifo.fits, Fits.isFifo hnew⟩

/-- After `2 ^ 31` calls of `enqueue`, `size` is not the number of values. -/
theorem not_isFifo_full : ¬ ∀ calls : List (QueueCall Bool), IsFifo calls (.new false) [] := by
  have hfits : ∀ n k, Fits (replicate (n + 1) (enqueue true)) k → k + n + 1 < 2 ^ 31 := by
    intro n
    induction n with
    | zero => exact fun k h => h.1
    | succ n ih =>
      intro k h
      have := ih (k + 1) h.2
      omega
  intro hall
  have := hfits (2 ^ 31 - 1) 0 (hall _).fits
  omega

end QueueCall

end MemDb
