import MemDb.Clock
import MemDb.Utils
import MemDb.Lib.Heap

/-! # The AVL tree of a bucket

  Each bucket of the store is an `AVLTree` whose nodes are ordered by the 32-bit
  hash of their key. The tree is modelled with its pointers: nodes live in one
  heap, and the data they point to (a `shared_ptr<void>` in the source) in another, so
  that two fields may hold the same pointer and a deleted node may be dangling.

  An operation returns `none` when the source would not return: it dereferences
  a null or dangling pointer, casts the data of a node to the wrong type, or never
  leaves a loop. The loops and recursions carry fuel, one more than the number of nodes
  ever allocated; a descent that visits no node twice stays within it.
-/

namespace MemDb

open Lib

/-! ### Values -/

/-- A node pointer; `none` is `nullptr`. -/
abbrev Ptr := Option Nat

/-- What kind of data a node holds. -/
inductive NodeType where
  | DATA
  | COUNTER
deriving DecidableEq, Repr

/-- The data of a `DATA` node: a value and the timestamp of the write that stored it. -/
structure DataAVLNode where
  value : SimpleString
  timestamp : LamportClock
deriving DecidableEq, Repr

/-- The data of a `COUNTER` node: one increment and one decrement slot per node of the
    cluster, and the slots given to node ids so far. -/
structure Counter where
  selfNodeId : UInt16
  nNodes : UInt32
  nIncrements : List Int64
  nDecrements : List Int64
  indexByNodeId : List (UInt16 × Int)
  lastIndexAssigned : Int
deriving DecidableEq, Repr

/-- The constructor `Counter(selfNodeId, nNodes)`: all slots zero, none given out. -/
def Counter.new (selfNodeId : UInt16) (nNodes : UInt32) : Counter where
  selfNodeId := selfNodeId
  nNodes := nNodes
  nIncrements := List.replicate nNodes.toNat 0
  nDecrements := List.replicate nNodes.toNat 0
  indexByNodeId := []
  lastIndexAssigned := -1

/-- What the data pointer of a node points to. -/
inductive NodeData where
  | data (d : DataAVLNode)
  | counter (c : Counter)
deriving DecidableEq, Repr

/-- The kind of node that holds such data. -/
def NodeData.nodeType : NodeData → NodeType
  | .data _ => .DATA
  | .counter _ => .COUNTER

/-- The value and its timestamp, where the data is not a counter. -/
def NodeData.asData : NodeData → Option DataAVLNode
  | .data d => some d
  | .counter _ => none

/-- A tree node. `data` is the address of its data. -/
structure AVLNode where
  key : SimpleString
  keyHash : UInt32
  left : Ptr
  right : Ptr
  data : Nat
  height : Int
  nodeType : NodeType
deriving DecidableEq, Repr

/-- What a lookup shows of a node. -/
structure MapEntry where
  key : SimpleString
  keyHash : UInt32
  type : NodeType
  data : NodeData
deriving DecidableEq, Repr

/-- The result of a successful edit. A failed edit (`std::error`) carries nothing. -/
structure DbEditResult where
  timestampOfOperation : UInt64
deriving DecidableEq, Repr

/-- The tree: its root pointer and the memory its nodes and their data live in. -/
structure AVLTree where
  root : Ptr
  nodes : Heap AVLNode
  datas : Heap NodeData
deriving DecidableEq, Repr

namespace AVLTree

/-- The tree of a new bucket. -/
def empty : AVLTree := ⟨none, Heap.empty, Heap.empty⟩

/-! ### Memory accesses -/

/-- Dereference a node pointer. -/
def node (t : AVLTree) (a : Nat) : Option AVLNode := t.nodes.read a

/-- Overwrite a node. -/
def setNode (t : AVLTree) (a : Nat) (n : AVLNode) : AVLTree :=
  { t with nodes := t.nodes.write a n }

/-- `node->left = p`. -/
def setLeft (t : AVLTree) (a : Nat) (p : Ptr) : Option AVLTree := do
  let n ← t.node a
  some (t.setNode a { n with left := p })

/-- `node->right = p`. -/
def setRight (t : AVLTree) (a : Nat) (p : Ptr) : Option AVLTree := do
  let n ← t.node a
  some (t.setNode a { n with right := p })

/-- `delete node`. -/
def deleteNode (t : AVLTree) (a : Nat) : AVLTree :=
  { t with nodes := t.nodes.free a }

/-- `static_pointer_cast<DataAVLNode>` and dereference. -/
def dataNode (t : AVLTree) (d : Nat) : Option DataAVLNode :=
  match t.datas.read d with
  | some (.data x) => some x
  | _ => none

/-- Overwrite the data at `d`. -/
def setDataNode (t : AVLTree) (d : Nat) (x : DataAVLNode) : AVLTree :=
  { t with datas := t.datas.write d (.data x) }

/-- `new AVLNode(key, keyHash, -1, nodeType, make_shared(data))`: a node without children, at
    address `t.nodes.next`. -/
def newNode (t : AVLTree) (key : SimpleString) (keyHash : UInt32) (data : NodeData) : AVLTree :=
  { t with
    nodes := t.nodes.alloc ⟨key, keyHash, none, none, t.datas.next, -1, data.nodeType⟩
    datas := t.datas.alloc data }

/-! ### Heights and rotations -/

/-- The stored height of a node; `-1` for `nullptr`. -/
def getHeight (t : AVLTree) (p : Ptr) : Option Int :=
  match p with
  | none => some (-1)
  | some a => (t.node a).map (·.height)

/-- Right height minus left height; `0` for `nullptr`. -/
def getHeightFactor (t : AVLTree) (p : Ptr) : Option Int :=
  match p with
  | none => some 0
  | some a => do
    let n ← t.node a
    let rightHeight ← t.getHeight n.right
    let leftHeight ← t.getHeight n.left
    some (rightHeight - leftHeight)

/-- Recompute the stored height of a node from its children. -/
def updateHeight (t : AVLTree) (a : Nat) : Option AVLTree := do
  let n ← t.node a
  let rightHeight ← t.getHeight n.right
  let leftHeight ← t.getHeight n.left
  some (t.setNode a { n with height := max leftHeight rightHeight + 1 })

/-- The root pointer follows a rotation of the root. -/
def updateRootReferenceIfNeccesary (t : AVLTree) (oldReference newReference : Ptr) : AVLTree :=
  if t.root = oldReference then { t with root := newReference } else t

/-- Rotate the left child of `p` up. -/
def rotateRight (t : AVLTree) (p : Ptr) : Option (AVLTree × Ptr) := do
  let a ← p
  let leftChild ← (← t.node a).left
  let t := t.updateRootReferenceIfNeccesary (some a) (some leftChild)
  let t ← t.setLeft a (← t.node leftChild).right
  let t ← t.setRight leftChild (some a)
  let t ← t.updateHeight a
  let t ← t.updateHeight leftChild
  some (t, some leftChild)

/-- Rotate the right child of `p` up. -/
def rotateLeft (t : AVLTree) (p : Ptr) : Option (AVLTree × Ptr) := do
  let a ← p
  let rightChild ← (← t.node a).right
  let t ← t.setRight a (← t.node rightChild).left
  let t ← t.setLeft rightChild (some a)
  let t := t.updateRootReferenceIfNeccesary (some a) (some rightChild)
  let t ← t.updateHeight a
  let t ← t.updateHeight rightChild
  some (t, some rightChild)

/-- Restore the balance of a node from the stored heights; returns the node that takes its
    place. -/
def rebalance (t : AVLTree) (a : Nat) : Option (AVLTree × Ptr) := do
  let t ← t.updateHeight a
  let heightFactor ← t.getHeightFactor (some a)
  if heightFactor < -1 then
    let left := (← t.node a).left
    let t ←
      if (← t.getHeightFactor left) > 0 then do
        let (t, p) ← t.rotateLeft left
        t.setLeft a p
      else some t
    t.rotateRight (some a)
  else if heightFactor > 1 then
    let right := (← t.node a).right
    let t ←
      if (← t.getHeightFactor right) < 0 then do
        let (t, p) ← t.rotateRight right
        t.setRight a p
      else some t
    t.rotateLeft (some a)
  else
    some (t, some a)

/-! ### Lookups -/

/-- The loop of `get`: the node with hash `keyHashToSearch` below `p`. -/
def getLoop (t : AVLTree) (keyHashToSearch : UInt32) : Nat → Ptr → Option Ptr
  | 0, _ => none
  | _ + 1, none => some none
  | fuel + 1, some a => do
    let n ← t.node a
    if n.keyHash = keyHashToSearch then some (some a)
    else if keyHashToSearch < n.keyHash then getLoop t keyHashToSearch fuel n.left
    else getLoop t keyHashToSearch fuel n.right

/-- Search a hash from the root. -/
def get (t : AVLTree) (keyHashToSearch : UInt32) : Option Ptr :=
  t.getLoop keyHashToSearch (t.nodes.next + 1) t.root

/-- What the caller of `get` reads through the pointer it returns. -/
def entry (t : AVLTree) (p : Ptr) : Option (Option MapEntry) :=
  match p with
  | none => some none
  | some a => do
    let n ← t.node a
    let d ← t.datas.read n.data
    some (some ⟨n.key, n.keyHash, n.nodeType, d⟩)

/-- The entry stored under a hash. -/
def lookup (t : AVLTree) (keyHash : UInt32) : Option (Option MapEntry) := do
  let p ← t.get keyHash
  t.entry p

/-- The in-order walk of `getOrderedByHash`; `toReturn` is the vector it appends to. A null child,
    or a null root, is not visited. -/
def getOrderedByHashRecursive (t : AVLTree) : Nat → Ptr → List MapEntry → Option (List MapEntry)
  | 0, _, _ => none
  | _ + 1, none, toReturn => some toReturn
  | fuel + 1, some a, toReturn => do
    let n ← t.node a
    let toReturn ← getOrderedByHashRecursive t fuel n.left toReturn
    let data ← t.datas.read n.data
    getOrderedByHashRecursive t fuel n.right
      (toReturn ++ [⟨n.key, n.keyHash, n.nodeType, data⟩])

/-- The entries of the tree in the order of its nodes. -/
def getOrderedByHash (t : AVLTree) : Option (List MapEntry) :=
  t.getOrderedByHashRecursive (t.nodes.next + 1) t.root []

/-- The leftmost node below `a`. -/
def mostLeftChild (t : AVLTree) : Nat → Nat → Option Nat
  | 0, _ => none
  | fuel + 1, a => do
    let n ← t.node a
    match n.left with
    | none => some a
    | some l => mostLeftChild t fuel l

/-! ### Insertion -/

/-- The recursion shared by `insertRecursiveData` and `insertRecursiveCounter`. `σ` is what
    the two thread through besides the tree; `atNull` is run where the new node goes, and
    `atEqual` at a node with the same hash, where `none` stands for `return nullptr`. A
    `nullptr` from below leaves the child pointer as it was. -/
def insertRecursive {σ : Type} (atNull : AVLTree → σ → Option (AVLTree × σ))
    (atEqual : AVLTree → σ → Nat → Option (Option (AVLTree × σ))) (toInsert : Nat) :
    Nat → AVLTree → σ → Ptr → Option (AVLTree × σ × Ptr)
  | 0, _, _, _ => none
  | _ + 1, t, x, none => do
    let (t, x) ← atNull t x
    let t := if t.root = none then { t with root := some toInsert } else t
    some (t, x, some toInsert)
  | fuel + 1, t, x, some last => do
    let lastNode ← t.node last
    let newNode ← t.node toInsert
    if lastNode.keyHash > newNode.keyHash then
      let (t, x, inserted) ← insertRecursive atNull atEqual toInsert fuel t x lastNode.left
      let t ← if inserted ≠ none then t.setLeft last inserted else some t
      let (t, p) ← t.rebalance last
      some (t, x, p)
    else if lastNode.keyHash < newNode.keyHash then
      let (t, x, inserted) ← insertRecursive atNull atEqual toInsert fuel t x lastNode.right
      let t ← if inserted ≠ none then t.setRight last inserted else some t
      let (t, p) ← t.rebalance last
      some (t, x, p)
    else
      match ← atEqual t x last with
      | none => some (t, x, none)
      | some (t, x) =>
        let (t, p) ← t.rebalance last
        some (t, x, p)

/-- What a data edit threads through: the caller's clock and the result it fills in. -/
structure Edit where
  clock : LamportClock
  result : DbEditResult
deriving DecidableEq, Repr

/-- The timestamp an accepted write is stored under: its own if it came from a node, the
    new clock value under its node id otherwise. -/
def stamp (timestamp : LamportClock) (newTimestampCounter : UInt64) (requestFromNode : Bool) :
    LamportClock :=
  if requestFromNode then timestamp else ⟨timestamp.nodeId, newTimestampCounter⟩

/-- Advance the clock and stamp the data at `d` with value `value`. -/
def store (t : AVLTree) (e : Edit) (d : Nat) (value : SimpleString) (timestamp : LamportClock)
    (strategy : UpdateClockStrategy) (requestFromNode : Bool) : AVLTree × Edit :=
  let (clock, newTimestampCounter) := e.clock.update strategy timestamp.counter
  let newTimestamp := stamp timestamp newTimestampCounter requestFromNode
  (t.setDataNode d ⟨value, newTimestamp⟩, ⟨clock, ⟨newTimestamp.counter⟩⟩)

/-- `insertRecursiveData` where `last` is null: stamp the new node. -/
def insertDataAtNull (toInsert : Nat) (timestamp : LamportClock)
    (strategy : UpdateClockStrategy) (requestFromNode : Bool) (t : AVLTree) (e : Edit) :
    Option (AVLTree × Edit) := do
  let newNode ← t.node toInsert
  let dataNodeToInsert ← t.dataNode newNode.data
  some (t.store e newNode.data dataNodeToInsert.value timestamp strategy requestFromNode)

/-- `insertRecursiveData` at a node with the hash of the new one: refuse if it is not a `DATA`
    node or holds a greater timestamp, overwrite its value otherwise (its key stays). -/
def insertDataAtEqual (toInsert : Nat) (timestamp : LamportClock)
    (strategy : UpdateClockStrategy) (requestFromNode : Bool) (t : AVLTree) (e : Edit)
    (last : Nat) : Option (Option (AVLTree × Edit)) := do
  let ignoreTimestamps := strategy == .NONE || !requestFromNode
  let lastNode ← t.node last
  if lastNode.nodeType ≠ .DATA then
    some none
  else
    let newNode ← t.node toInsert
    let dataNodeToInsert ← t.dataNode newNode.data
    let dataLastNode ← t.dataNode lastNode.data
    if !ignoreTimestamps && dataLastNode.timestamp.gt timestamp then
      some none
    else
      some (some (t.store e lastNode.data dataNodeToInsert.value timestamp strategy
        requestFromNode))

/-- The recursive insertion of a data node. -/
def insertRecursiveData (toInsert : Nat) (timestamp : LamportClock)
    (strategy : UpdateClockStrategy) (requestFromNode : Bool) :
    Nat → AVLTree → Edit → Ptr → Option (AVLTree × Edit × Ptr) :=
  insertRecursive (insertDataAtNull toInsert timestamp strategy requestFromNode)
    (insertDataAtEqual toInsert timestamp strategy requestFromNode) toInsert

/-- `insertRecursiveCounter` where `last` is null: the new node goes in as it is. -/
def insertCounterAtNull (t : AVLTree) (x : Unit) : Option (AVLTree × Unit) := some (t, x)

/-- `insertRecursiveCounter` at a node with the hash of the new one: an error, whatever the
    node holds. -/
def insertCounterAtEqual (_ : AVLTree) (_ : Unit) (_ : Nat) : Option (Option (AVLTree × Unit)) :=
  some none

/-- The recursive insertion of a counter node. -/
def insertRecursiveCounter (toInsert : Nat) :
    Nat → AVLTree → Unit → Ptr → Option (AVLTree × Unit × Ptr) :=
  insertRecursive insertCounterAtNull insertCounterAtEqual toInsert

/-- Insert or overwrite a value. Returns the tree, the clock and the edit's result; an
    insertion whose recursion returns `nullptr` is an error. -/
def addData (t : AVLTree) (key : SimpleString) (keyHash : UInt32) (value : SimpleString)
    (timestampFromNode : LamportClock) (strategy : UpdateClockStrategy)
    (lamportClock : LamportClock) (requestFromNode : Bool) :
    Option (AVLTree × LamportClock × Option DbEditResult) := do
  let newDataNode := t.nodes.next
  let t := t.newNode key keyHash (.data ⟨value, ⟨0, 0⟩⟩)
  let (t, e, insertedNode) ← insertRecursiveData newDataNode timestampFromNode strategy
    requestFromNode (t.nodes.next + 1) t ⟨lamportClock, ⟨0⟩⟩ t.root
  some (t, e.clock, if insertedNode ≠ none then some e.result else none)

/-- Insert a counter. Returns the tree and whether the insertion succeeded. -/
def addCounter (t : AVLTree) (key : SimpleString) (keyHash : UInt32) (selfNodeId : UInt16)
    (nNodes : UInt32) : Option (AVLTree × Bool) := do
  let newDataNode := t.nodes.next
  let t := t.newNode key keyHash (.counter (Counter.new selfNodeId nNodes))
  let (t, _, insertedNode) ← insertRecursiveCounter newDataNode (t.nodes.next + 1) t () t.root
  some (t, insertedNode ≠ none)

/-! ### Removal -/

/-- `delete` a node with at most one child; the root pointer moves to the child if the node
    was the root. -/
def unlink (t : AVLTree) (last : Nat) (child : Ptr) : AVLTree :=
  let t := if t.root = some last then { t with root := child } else t
  t.deleteNode last

/-- The recursive removal. `removed` is the flag the source passes by reference. At a node
    with a smaller hash the source descends into the LEFT child and stores the outcome
    as the RIGHT child; at a node with two children it takes over the hash, data and type of
    its successor, but not its key. -/
def removeRecursiveData : Nat → AVLTree → Edit → Bool → Ptr → UInt32 → LamportClock →
    UpdateClockStrategy → Bool → Option (AVLTree × Edit × Bool × Ptr)
  | 0, _, _, _, _, _, _, _, _ => none
  | _ + 1, t, e, removed, none, _, _, _, _ => some (t, e, removed, none)
  | fuel + 1, t, e, removed, some last, keyHashToRemove, timestamp, strategy,
      checkTimestamps => do
    let ignoreTimeStamps := strategy == .NONE || !checkTimestamps
    let lastNode ← t.node last
    if lastNode.keyHash > keyHashToRemove then
      let (t, e, removed, p) ← removeRecursiveData fuel t e removed lastNode.left
        keyHashToRemove timestamp strategy checkTimestamps
      let t ← t.setLeft last p
      let (t, p) ← t.rebalance last
      some (t, e, removed, p)
    else if lastNode.keyHash < keyHashToRemove then
      let (t, e, removed, p) ← removeRecursiveData fuel t e removed lastNode.left
        keyHashToRemove timestamp strategy checkTimestamps
      let t ← t.setRight last p
      let (t, p) ← t.rebalance last
      some (t, e, removed, p)
    else if lastNode.nodeType ≠ .DATA then
      some (t, { e with result := ⟨0⟩ }, false, some last)
    else
      let dataNodeLast ← t.dataNode lastNode.data
      if !ignoreTimeStamps && dataNodeLast.timestamp.gt timestamp then
        some (t, { e with result := ⟨0⟩ }, false, some last)
      else
        let (clock, newCounter) := e.clock.update strategy timestamp.counter
        let e : Edit := ⟨clock, ⟨newCounter⟩⟩
        match lastNode.left, lastNode.right with
        | some _, some right =>
          let temp ← t.mostLeftChild (t.nodes.next + 1) right
          let tempNode ← t.node temp
          let t := t.setNode last
            { lastNode with
              keyHash := tempNode.keyHash
              data := tempNode.data
              nodeType := tempNode.nodeType }
          let (t, e, _, p) ← removeRecursiveData fuel t e false (some right) tempNode.keyHash
            dataNodeLast.timestamp .NONE ignoreTimeStamps
          let t ← t.setRight last p
          let (t, p) ← t.rebalance last
          some (t, e, true, p)
        | left, right =>
          let child := if left = none then right else left
          let t := t.unlink last child
          match child with
          | none => some (t, e, true, none)
          | some c =>
            let (t, p) ← t.rebalance c
            some (t, e, true, p)

/-- Remove the data node with a hash. Returns the tree, the clock and the edit's result. -/
def removeData (t : AVLTree) (keyHash : UInt32) (timestamp : LamportClock)
    (strategy : UpdateClockStrategy) (lamportClock : LamportClock) (checkTimestamps : Bool) :
    Option (AVLTree × LamportClock × Option DbEditResult) := do
  let (t, e, removed, _) ← removeRecursiveData (t.nodes.next + 1) t ⟨lamportClock, ⟨0⟩⟩ false
    t.root keyHash timestamp strategy checkTimestamps
  some (t, e.clock, if removed then some e.result else none)

end AVLTree

end MemDb
