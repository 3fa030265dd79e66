import MemDb.Lib.Cycle
import MemDb.Lib.Heap
import Mathlib.Data.List.Perm.Subperm
import Mathlib.Data.List.Sort

/-! # The ring of nodes

    `RingEntries`: a circular doubly linked list of the nodes of the cluster in the order of their
    positions, with a pointer to its head and an index by node id. The links of a new node are null
    until they are assigned. Reading through a null pointer, and `at` of an id that is not in the
    index, is `none`.
-/

namespace MemDb

open Lib List UInt32

structure RingEntry where
  nodeId : UInt16
  ringPosition : UInt32
deriving DecidableEq, Repr, Inhabited

structure RingEntryNode where
  entry : RingEntry
  next : Option Nat
  back : Option Nat
deriving DecidableEq, Repr

structure RingEntries where
  /-- Deleted nodes stay in memory. -/
  heap : Heap RingEntryNode
  head : Option Nat
  indexByNodeId : List (UInt16 × Nat)
deriving DecidableEq, Repr

namespace RingEntries

/-! ### Pointers -/

/-- `a->next = b`. -/
def setNext (a b : Nat) (heap : Heap RingEntryNode) : Option (Heap RingEntryNode) :=
  (heap.read a).map fun node => heap.write a { node with next := some b }

/-- `a->back = b`. -/
def setBack (a b : Nat) (heap : Heap RingEntryNode) : Option (Heap RingEntryNode) :=
  (heap.read a).map fun node => heap.write a { node with back := some b }

/-- `a` and `b` become neighbours, `b` clockwise of `a`. -/
def join (a b : Nat) (heap : Heap RingEntryNode) : Option (Heap RingEntryNode) :=
  (setNext a b heap).bind (setBack b a)

/-- `indexByNodeId.at(nodeId)`. -/
def pointerTo (ring : RingEntries) (nodeId : UInt16) : Option Nat :=
  ring.indexByNodeId.lookup nodeId

/-- A key that is there once is found with its value. -/
theorem lookup_of_mem {K V : Type} [BEq K] [LawfulBEq K] {index : List (K × V)}
    (hnodup : (index.map Prod.fst).Nodup) {key : K} {value : V} (hmem : (key, value) ∈ index) :
    index.lookup key = some value := by
  induction index with
  | nil => cases hmem
  | cons head index ih =>
    rw [map_cons, nodup_cons] at hnodup
    rcases mem_cons.mp hmem with heq | htail
    · cases heq
      exact lookup_cons_self
    · have hne : key ≠ head.1 := by
        intro heq
        exact hnodup.1 (mem_map.mpr ⟨_, htail, heq⟩)
      rw [lookup_cons, beq_false_of_ne hne]
      exact ih hnodup.2 htail

/-- There are as many node ids as 16 bits have values. -/
theorem length_nodeIds_le {nodeIds : List UInt16} (hnodup : nodeIds.Nodup) :
    nodeIds.length ≤ 2 ^ 16 := by
  have hnodup : (nodeIds.map UInt16.toNat).Nodup := hnodup.map (fun a b => UInt16.toNat_inj.mp)
  have hsub : nodeIds.map UInt16.toNat ⊆ range (2 ^ 16) := by
    intro x hx
    obtain ⟨nodeId, -, rfl⟩ := mem_map.mp hx
    exact mem_range.mpr nodeId.toNat_lt
  have hle := (hnodup.subperm hsub).length_le
  rwa [length_range, length_map] at hle

/-! ### Changing the ring -/

/-- The loop of `add`: the neighbours between which the position lies, if it finds them. -/
def findGap (heap : Heap RingEntryNode) (ringPosition : UInt32) :
    (remaining actual : Nat) → (nextToActual : Option Nat) → Option (Option (Nat × Nat))
  | 0, _, _ => some none
  | remaining + 1, actual, nextToActual => do
    let nextPointer ← nextToActual
    let actualNode ← heap.read actual
    let nextNode ← heap.read nextPointer
    if actualNode.entry.ringPosition < ringPosition ∧
        ringPosition < nextNode.entry.ringPosition then
      return some (actual, nextPointer)
    else findGap heap ringPosition remaining nextPointer nextNode.next

/-- `add` of an entry that is not in the index, to a ring that is not empty. -/
def addToOthers (ringEntryToAdd : RingEntry) (size head newRingEntry : Nat)
    (heap : Heap RingEntryNode) : Option (Heap RingEntryNode × Nat) := do
  let headNode ← heap.read head
  if size = 1 then
    let heap ← (join head newRingEntry heap).bind (join newRingEntry head)
    let isFirst := ringEntryToAdd.ringPosition < headNode.entry.ringPosition
    return (heap, if isFirst then newRingEntry else head)
  else
    match ← findGap heap ringEntryToAdd.ringPosition (size + 1) head headNode.next with
    | some (actual, nextToActual) =>
      let heap ← (join actual newRingEntry heap).bind (join newRingEntry nextToActual)
      return (heap, head)
    | none =>
      -- meant for the largest position
      let oldBackToHead ← headNode.back
      let heap ← (join newRingEntry head heap).bind (join oldBackToHead newRingEntry)
      return (heap, head)

def add (ringEntryToAdd : RingEntry) (ring : RingEntries) : Option RingEntries :=
  if (ring.pointerTo ringEntryToAdd.nodeId).isSome then some ring
  else
    let size := ring.indexByNodeId.length
    let newRingEntry := ring.heap.next
    let heap := ring.heap.alloc ⟨ringEntryToAdd, none, none⟩
    let indexByNodeId := (ringEntryToAdd.nodeId, newRingEntry) :: ring.indexByNodeId
    if size = 0 then some ⟨heap, some newRingEntry, indexByNodeId⟩
    else
      ring.head.bind fun head =>
        (addToOthers ringEntryToAdd size head newRingEntry heap).map fun (heap, head) =>
          ⟨heap, some head, indexByNodeId⟩

/-- The head is not updated. -/
def deleteByNodeId (nodeId : UInt16) (ring : RingEntries) : Option RingEntries := do
  let ringEntryDeleted ← ring.heap.read (← ring.pointerTo nodeId)
  let back ← ringEntryDeleted.back
  let next ← ringEntryDeleted.next
  let heap ← join back next ring.heap
  return { ring with heap, indexByNodeId := ring.indexByNodeId.filter (·.1 ≠ nodeId) }

/-- The loop of `fromEntries`, with the nodes that remain. -/
def fromSorted (size : Nat) : (i : Nat) → (prev : Option Nat) → List RingEntry → RingEntries →
    Option RingEntries
  | _, _, [], ring => some ring
  | i, prev, entry :: entries, ring => do
    let node := ring.heap.next
    let heap := ring.heap.alloc ⟨entry, none, none⟩
    let indexByNodeId :=
      if (ring.pointerTo entry.nodeId).isSome then ring.indexByNodeId
      else (entry.nodeId, node) :: ring.indexByNodeId
    if i = 0 then
      fromSorted size (i + 1) (some node) entries ⟨heap, some node, indexByNodeId⟩
    else
      let heap ← join (← prev) node heap
      let heap ← if i = size - 1 then join node (← ring.head) heap else some heap
      fromSorted size (i + 1) (some node) entries ⟨heap, ring.head, indexByNodeId⟩

/-- The entries sorted by their positions. -/
def clockwiseOrder (entries : List RingEntry) : List RingEntry :=
  entries.insertionSort fun a b => a.ringPosition ≤ b.ringPosition

def fromEntries (entries : List RingEntry) : Option RingEntries :=
  let sorted := clockwiseOrder entries
  fromSorted sorted.length 0 none sorted ⟨Heap.empty, none, []⟩

/-! ### Looking around -/

/-- The loop of `getRingEntryBelongsToPosition`. -/
def lookup (heap : Heap RingEntryNode) (head : Nat) (ringPosition : UInt32) :
    (remaining nextToActual : Nat) → Option RingEntry
  | 0, _ => (heap.read head).map (·.entry)
  | remaining + 1, actual => do
    let actualNode ← heap.read actual
    match actualNode.next with
    | none => return actualNode.entry
    | some nextToActual =>
      let nextNode ← heap.read nextToActual
      if actualNode.entry.ringPosition ≤ ringPosition ∧
          ringPosition < nextNode.entry.ringPosition then return actualNode.entry
      else if nextToActual = head then return actualNode.entry
      else lookup heap head ringPosition remaining nextToActual

def getRingEntryBelongsToPosition (ring : RingEntries) (ringPosition : UInt32) : Option RingEntry :=
  ring.head.bind fun head =>
    lookup ring.heap head ringPosition (ring.indexByNodeId.length + 1) head

/-- The loop of `getDistance`. -/
def distanceFrom (heap : Heap RingEntryNode) (nodeA nodeB : UInt16) :
    (remaining iterations : Nat) → (actualPointerA actualPointerB : Option Nat) → Option Int
  | 0, iterations, _, actualPointerB => do
    let nodeOfB ← heap.read (← actualPointerB)
    return if nodeOfB.entry.nodeId = nodeA then -iterations else iterations
  | remaining + 1, iterations, actualPointerA, actualPointerB => do
    let nodeOfA ← heap.read (← actualPointerA)
    if nodeOfA.entry.nodeId = nodeB then return iterations
    else
      let nodeOfB ← heap.read (← actualPointerB)
      if nodeOfB.entry.nodeId = nodeA then return -iterations
      else distanceFrom heap nodeA nodeB remaining (iterations + 1) nodeOfA.next nodeOfB.next

def getDistance (ring : RingEntries) (nodeA nodeB : UInt16) : Option Int := do
  let pointerNodeA ← ring.pointerTo nodeA
  let pointerNodeB ← ring.pointerTo nodeB
  distanceFrom ring.heap nodeA nodeB (ring.indexByNodeId.length + 1) 0 pointerNodeA pointerNodeB

def getDistanceClockwise (ring : RingEntries) (nodeA nodeB : UInt16) : Option UInt32 :=
  (ring.getDistance nodeA nodeB).map fun distance =>
    if distance < 0 then UInt32.ofNat (ring.indexByNodeId.length - distance.natAbs)
    else UInt32.ofNat distance.natAbs

def getDistanceCounterClockwise (ring : RingEntries) (nodeA nodeB : UInt16) : Option UInt32 :=
  (ring.getDistance nodeA nodeB).map fun distance =>
    if 0 < distance then UInt32.ofNat (ring.indexByNodeId.length - distance.natAbs)
    else UInt32.ofNat distance.natAbs

/-- The loop of `getNeighborsClockwise`; `isFirst` is `i == 0`. -/
def neighborsFrom (heap : Heap RingEntryNode) (startedNodePtr : Nat) :
    (remaining : Nat) → (isFirst : Bool) → (initialNodePtr : Nat) → Option (List RingEntry)
  | 0, _, _ => some []
  | remaining + 1, isFirst, initialNodePtr => do
    let node ← heap.read initialNodePtr
    if !isFirst && node.next == some startedNodePtr then return []
    else
      match node.next with
      | none => return []
      | some next =>
        let nextNode ← heap.read next
        let neighbors ← neighborsFrom heap startedNodePtr remaining false next
        return nextNode.entry :: neighbors

def getNeighborsClockwise (ring : RingEntries) (nodeId : UInt16) (numberNeighbors : UInt32) :
    Option (List RingEntry) := do
  let initialNodePtr ← ring.pointerTo nodeId
  neighborsFrom ring.heap initialNodePtr numberNeighbors.toNat true initialNodePtr

/-- The neighbour in the given direction. The outer `none` is a read through a bad pointer. -/
def neighbor (direction : RingEntryNode → Option Nat) (ring : RingEntries) (nodeId : UInt16) :
    Option (Option RingEntry) :=
  match ring.pointerTo nodeId with
  | none => some none
  | some pointer => do
    match direction (← ring.heap.read pointer) with
    | none => return none
    | some other => return some (← ring.heap.read other).entry

def getNeighborCounterClockwise (ring : RingEntries) (nodeId : UInt16) :
    Option (Option RingEntry) :=
  neighbor (·.back) ring nodeId

def getNeighborClockwise (ring : RingEntries) (nodeId : UInt16) : Option (Option RingEntry) :=
  neighbor (·.next) ring nodeId

def getByNodeId (ring : RingEntries) (nodeId : UInt16) : Option RingEntry := do
  let node ← ring.heap.read (← ring.pointerTo nodeId)
  return node.entry

end RingEntries

end MemDb
