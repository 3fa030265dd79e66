import MemDb.Db.AVLTree
import Mathlib.Algebra.BigOperators.Group.Finset.Basic
import Mathlib.Algebra.Order.BigOperators.Group.List
import Mathlib.Data.Finset.Card

/-! # Counters

    A counter is a pair of arrays, one of increments and one of decrements, with a slot for each
    node of the cluster. A node counts in its own slot and takes over the slots of the others when
    they are greater than its copies. Which slot belongs to which node is decided as the nodes turn
    up: an id that is asked for the first time gets the next index.

    While a counter has room for the whole cluster it is never resized, and the copies of it that
    the source hands to its callbacks share their arrays and their index map; such a counter is one
    value here. What it holds of the nodes is `Counter.value`, and every function is specified by
    its effect on that.
-/

namespace MemDb

open List Option

namespace Counter

/-! ### The functions of the source -/

/-- The slots of one kind. -/
def slots (c : Counter) (isIncrement : Bool) : List Int64 :=
  if isIncrement then c.nIncrements else c.nDecrements

/-- The slot at an index; `none` where the source reads past the end of the array. -/
def slotAt (slots : List Int64) (index : Int) : Option Int64 :=
  if index < 0 then none else slots[index.toNat]?

def setSlot (c : Counter) (isIncrement : Bool) (index : Int) (value : Int64) : Counter :=
  if isIncrement then { c with nIncrements := c.nIncrements.set index.toNat value }
  else { c with nDecrements := c.nDecrements.set index.toNat value }

/-- A result at 64 bits; `none` where it overflows. -/
def checked (result : Int) : Option Int64 :=
  if -2 ^ 63 ≤ result ∧ result < 2 ^ 63 then some (Int64.ofInt result) else none

def checkedAdd (a b : Int64) : Option Int64 := checked (a.toInt + b.toInt)

def checkedSub (a b : Int64) : Option Int64 := checked (a.toInt - b.toInt)

/-- `CounterArrayIndexMapper::getIndex`. -/
def getIndexByNode (c : Counter) (nodeId : UInt16) : Counter × Int :=
  match c.indexByNodeId.lookup nodeId with
  | some index => (c, index)
  | none =>
    let newIndex := c.lastIndexAssigned + 1
    ({ c with indexByNodeId := c.indexByNodeId ++ [(nodeId, newIndex)]
              lastIndexAssigned := newIndex }, newIndex)

/-- `++` on the own slot; the new value is returned. -/
def updateOwn (c : Counter) (isIncrement : Bool) : Option (Counter × Int64) := do
  let (c, index) := c.getIndexByNode c.selfNodeId
  let value ← slotAt (c.slots isIncrement) index
  let newValue ← checkedAdd value 1
  return (c.setSlot isIncrement index newValue, newValue)

def increment (c : Counter) : Option (Counter × Int64) := c.updateOwn true

def decrement (c : Counter) : Option (Counter × Int64) := c.updateOwn false

/-- Called with an index, which is cut to 16 bits. -/
def maybeResizeCounters (c : Counter) (index : Int) : Counter :=
  let otherNodeId := UInt16.ofInt index
  if otherNodeId.toNat < c.nNodes.toNat then c
  else
    let added := List.replicate (otherNodeId.toNat + 1 - c.nNodes.toNat) 0
    { c with nIncrements := c.nIncrements ++ added
             nDecrements := c.nDecrements ++ added
             nNodes := UInt32.ofNat (otherNodeId.toNat + 1) }

/-- Raise the slot at an index to a value that is greater. -/
def raiseSlot (c : Counter) (isIncrement : Bool) (index : Int) (newValue : Int64) :
    Option Counter :=
  (slotAt (c.slots isIncrement) index).map fun value =>
    if value < newValue then c.setSlot isIncrement index newValue else c

def sync (c : Counter) (isIncrement : Bool) (valueToSync : Int64) (otherNodeId : UInt16) :
    Option Counter :=
  let (c, index) := c.getIndexByNode otherNodeId
  (c.maybeResizeCounters index).raiseSlot isIncrement index valueToSync

def syncIncrement (c : Counter) (valueToSync : Int64) (otherNodeId : UInt16) : Option Counter :=
  c.sync true valueToSync otherNodeId

def syncDecrement (c : Counter) (valueToSync : Int64) (otherNodeId : UInt16) : Option Counter :=
  c.sync false valueToSync otherNodeId

/-- All increments are added up before the decrements are taken away. -/
def count (c : Counter) : Option Int64 := do
  let actualValue ← (c.nIncrements.take c.nNodes.toNat).foldlM checkedAdd 0
  (c.nDecrements.take c.nNodes.toNat).foldlM checkedSub actualValue

/-- The values of another node as this one knows them. Asking for an id may give it an index. -/
def getLastSeen (c : Counter) (nodeId : UInt16) : Option (Counter × Int64 × Int64) :=
  if c.nNodes.toNat ≤ nodeId.toNat then some (c, 0, 0)
  else do
    let (c, index) := c.getIndexByNode nodeId
    let lastSeenIncrement ← slotAt c.nIncrements index
    let lastSeenDecrement ← slotAt c.nDecrements index
    return (c, lastSeenIncrement, lastSeenDecrement)

end Counter

structure ReplicateCounterRequest where
  otherNodeId : UInt16
  isIncrement : Bool
  newValue : Int64
  lastSeenSelfIncrement : Int64
  lastSeenSelfDecrement : Int64
deriving DecidableEq, Repr

structure ReplicateCounterResponse where
  needsIncrementSync : Bool
  needsDecrementSync : Bool
  nIncrementToSync : Int64
  nDecrementToSync : Int64
deriving DecidableEq, Repr

namespace Counter

def updateCounterFromReplication (c : Counter) (request : ReplicateCounterRequest) :
    Option Counter :=
  let (c, index) := c.getIndexByNode request.otherNodeId
  c.raiseSlot request.isIncrement index request.newValue

/-- The own value of one kind, if the other node has seen less than that, and 0 otherwise. -/
def ownToSync (c : Counter) (isIncrement : Bool) (lastSeen : Int64) :
    Option (Counter × Bool × Int64) := do
  let (c, index) := c.getIndexByNode c.selfNodeId
  let own ← slotAt (c.slots isIncrement) index
  return (c, if lastSeen < own then (true, own) else (false, 0))

def onReplicationCounter (c : Counter) (request : ReplicateCounterRequest) :
    Option (Counter × ReplicateCounterResponse) := do
  let (c, index) := c.getIndexByNode request.otherNodeId
  let c ← (c.maybeResizeCounters index).updateCounterFromReplication request
  let (c, needsIncrementSync, nIncrementToSync) ← c.ownToSync true request.lastSeenSelfIncrement
  let (c, needsDecrementSync, nDecrementToSync) ← c.ownToSync false request.lastSeenSelfDecrement
  return (c, { needsIncrementSync, needsDecrementSync, nIncrementToSync, nDecrementToSync })

theorem checked_eq_some {result : Int} {v : Int64} :
    checked result = some v ↔ v.toInt = result := by
  unfold checked
  constructor
  · intro h
    obtain ⟨hbounds, heq⟩ := ite_none_right_eq_some.mp h
    rw [← some.inj heq, Int64.toInt_ofInt_of_le hbounds.1 hbounds.2]
  · intro h
    subst h
    rw [if_pos ⟨v.le_toInt, v.toInt_lt⟩, Int64.ofInt_toInt]

/-! ### What a counter holds of a node -/

/-- The slot of a node; a node without an index has counted nothing. -/
def slot (c : Counter) (isIncrement : Bool) (nodeId : UInt16) : Int64 :=
  ((c.indexByNodeId.lookup nodeId).bind (slotAt (c.slots isIncrement))).getD 0

def value (c : Counter) (isIncrement : Bool) (nodeId : UInt16) : Int :=
  (c.slot isIncrement nodeId).toInt

/-- A counter that has given indices to members of the cluster only and has room for all of them. -/
structure Assigned (members : Finset UInt16) (c : Counter) : Prop where
  self_mem : c.selfNodeId ∈ members
  room : members.card ≤ c.nNodes.toNat
  length_slots : ∀ isIncrement, (c.slots isIncrement).length = c.nNodes.toNat
  nodup : (c.indexByNodeId.map Prod.fst).Nodup
  mem : ∀ p ∈ c.indexByNodeId, p.1 ∈ members
  index : ∀ (k : Nat) p, c.indexByNodeId[k]? = some p → p.2 = (k : Int)
  last : c.lastIndexAssigned + 1 = (c.indexByNodeId.length : Int)
  unassigned : ∀ isIncrement (k : Nat) v, c.indexByNodeId.length ≤ k →
    (c.slots isIncrement)[k]? = some v → v = 0

theorem slots_setSlot (c : Counter) (isIncrement kind : Bool) (index : Int) (v : Int64) :
    (c.setSlot isIncrement index v).slots kind =
      if kind = isIncrement then (c.slots kind).set index.toNat v else c.slots kind := by
  cases isIncrement <;> cases kind <;> rfl

section
variable (c : Counter) (isIncrement : Bool) (index : Int) (v : Int64)

@[simp] theorem indexByNodeId_setSlot :
    (c.setSlot isIncrement index v).indexByNodeId = c.indexByNodeId := by
  cases isIncrement <;> rfl

@[simp] theorem lastIndexAssigned_setSlot :
    (c.setSlot isIncrement index v).lastIndexAssigned = c.lastIndexAssigned := by
  cases isIncrement <;> rfl

@[simp] theorem nNodes_setSlot :
    (c.setSlot isIncrement index v).nNodes = c.nNodes := by
  cases isIncrement <;> rfl

@[simp] theorem selfNodeId_setSlot :
    (c.setSlot isIncrement index v).selfNodeId = c.selfNodeId := by
  cases isIncrement <;> rfl

end

theorem slotAt_natCast (slots : List Int64) (k : Nat) : slotAt slots (k : Int) = slots[k]? := by
  simp [slotAt]

theorem assigned_new {members : Finset UInt16} {selfNodeId : UInt16} {nNodes : UInt32}
    (hself : selfNodeId ∈ members) (hroom : members.card ≤ nNodes.toNat) :
    (Counter.new selfNodeId nNodes).Assigned members := by
  have hslots : ∀ isIncrement, (Counter.new selfNodeId nNodes).slots isIncrement =
      replicate nNodes.toNat 0 := by
    intro isIncrement
    cases isIncrement <;> rfl
  constructor
  · exact hself
  · exact hroom
  · intro isIncrement
    rw [hslots, length_replicate]
    rfl
  · exact nodup_nil
  · intro p hp
    cases hp
  · intro k p hp
    cases hp
  · rfl
  · intro isIncrement k v _ hv
    rw [hslots] at hv
    exact (eq_of_mem_replicate (mem_of_getElem? hv))

theorem value_new (selfNodeId : UInt16) (nNodes : UInt32) (isIncrement : Bool) (nodeId : UInt16) :
    (Counter.new selfNodeId nNodes).value isIncrement nodeId = 0 := rfl

section assigned
variable {members : Finset UInt16} {c : Counter} {nodeId : UInt16} {k : Nat}

section
variable (h : c.Assigned members)
include h

/-- The id at a position of the index map has that position as its index, and the other way
    round. -/
theorem Assigned.lookup_iff {index : Int} :
    c.indexByNodeId.lookup nodeId = some index ↔
      ∃ k : Nat, index = (k : Int) ∧ c.indexByNodeId[k]? = some (nodeId, (k : Int)) := by
  rw [lookup_eq_some_iff]
  constructor
  · intro hsplit
    obtain ⟨before, after, heq, -⟩ := hsplit
    have hat : c.indexByNodeId[before.length]? = some (nodeId, index) := by
      rw [heq, getElem?_append_right (le_refl _), Nat.sub_self, getElem?_cons_zero]
    have hindex : index = (before.length : Int) := h.index _ _ hat
    rw [hindex] at hat
    exact ⟨before.length, hindex, hat⟩
  · intro hat
    obtain ⟨k, rfl, hk⟩ := hat
    obtain ⟨hlt, hget⟩ := List.getElem?_eq_some_iff.mp hk
    have hsplit : c.indexByNodeId =
        c.indexByNodeId.take k ++ (nodeId, (k : Int)) :: c.indexByNodeId.drop (k + 1) := by
      rw [← hget, getElem_cons_drop, take_append_drop]
    refine ⟨c.indexByNodeId.take k, c.indexByNodeId.drop (k + 1), hsplit, ?_⟩
    -- no earlier entry has the same id
    intro p hp
    have hnodup := h.nodup
    rw [hsplit, map_append, map_cons] at hnodup
    have hne := (nodup_append.mp hnodup).2.2 p.1 (mem_map_of_mem hp) nodeId
      mem_cons_self
    exact bne_iff_ne.mpr hne.symm

/-- The ids with an index are distinct members, so that there is room for one more while a member
    has none. -/
theorem Assigned.length_lt (hmem : nodeId ∈ members)
    (hnone : c.indexByNodeId.lookup nodeId = none) : c.indexByNodeId.length < members.card := by
  have hnotin : nodeId ∉ (c.indexByNodeId.map Prod.fst).toFinset := by
    intro hin
    obtain ⟨p, hp, heq⟩ := mem_map.mp (mem_toFinset.mp hin)
    exact bne_iff_ne.mp (lookup_eq_none_iff.mp hnone p hp) heq.symm
  have hsub : (c.indexByNodeId.map Prod.fst).toFinset ⊆ members.erase nodeId := by
    intro id hid
    obtain ⟨p, hp, rfl⟩ := mem_map.mp (mem_toFinset.mp hid)
    refine Finset.mem_erase.mpr ⟨?_, h.mem p hp⟩
    intro heq
    exact hnotin (heq ▸ hid)
  have hcard := Finset.card_le_card hsub
  rw [toFinset_card_of_nodup h.nodup, length_map, Finset.card_erase_of_mem hmem] at hcard
  have hpos : 0 < members.card := Finset.card_pos.mpr ⟨nodeId, hmem⟩
  omega

theorem Assigned.length_le :
    c.indexByNodeId.length ≤ members.card := by
  have hsub : (c.indexByNodeId.map Prod.fst).toFinset ⊆ members := by
    intro id hid
    obtain ⟨p, hp, rfl⟩ := mem_map.mp (mem_toFinset.mp hid)
    exact h.mem p hp
  have hcard := Finset.card_le_card hsub
  rwa [toFinset_card_of_nodup h.nodup, length_map] at hcard

theorem Assigned.slot_eq (hk : c.indexByNodeId.lookup nodeId = some (k : Int))
    (isIncrement : Bool) : (c.slots isIncrement)[k]? = some (c.slot isIncrement nodeId) := by
  obtain ⟨k', hk', hat⟩ := h.lookup_iff.mp hk
  obtain rfl : k = k' := by exact_mod_cast hk'
  have hlt : k < (c.slots isIncrement).length := by
    rw [h.length_slots]
    have hlength := (List.getElem?_eq_some_iff.mp hat).1
    have hle := h.length_le
    have hroom := h.room
    omega
  rw [slot, hk, bind_some, slotAt_natCast, getElem?_eq_getElem hlt, getD_some]

end

/-- The same counter but for indices that nothing was counted under. -/
structure Agrees (c' c : Counter) : Prop where
  selfNodeId : c'.selfNodeId = c.selfNodeId
  value : c'.value = c.value

theorem Agrees.refl (c : Counter) : c.Agrees c := ⟨rfl, rfl⟩

/-- The counter when one more id has an index. -/
theorem Assigned.assign (h : c.Assigned members) (hmem : nodeId ∈ members)
    (hnone : c.indexByNodeId.lookup nodeId = none) {c' : Counter} (hc' : c' = { c with
      indexByNodeId := c.indexByNodeId ++ [(nodeId, (c.indexByNodeId.length : Int))]
      lastIndexAssigned := (c.indexByNodeId.length : Int) }) :
    c'.Assigned members ∧ c'.Agrees c := by
  have hlt : c.indexByNodeId.length < c.nNodes.toNat :=
    lt_of_lt_of_le (h.length_lt hmem hnone) h.room
  subst hc'
  refine ⟨?_, rfl, ?_⟩
  · constructor
    · exact h.self_mem
    · exact h.room
    · exact h.length_slots
    · -- the new id had no index before
      rw [map_append, nodup_append]
      refine ⟨h.nodup, nodup_singleton _, ?_⟩
      intro id hid id' hid'
      obtain ⟨p, hp, rfl⟩ := mem_map.mp hid
      rw [map_singleton, mem_singleton] at hid'
      rw [hid']
      exact (bne_iff_ne.mp (lookup_eq_none_iff.mp hnone p hp)).symm
    · intro p hp
      rcases mem_append.mp hp with hp | hp
      · exact h.mem p hp
      · rw [mem_singleton.mp hp]
        exact hmem
    · -- indices are given in the order of the list
      intro k p hp
      rcases lt_or_ge k c.indexByNodeId.length with hk | hk
      · rw [getElem?_append_left hk] at hp
        exact h.index k p hp
      · rw [getElem?_append_right hk, getElem?_singleton] at hp
        split at hp
        · cases hp
          have hk' : k = c.indexByNodeId.length := by omega
          rw [hk']
        · cases hp
    · simp
    · intro isIncrement k v hk hv
      rw [length_append, length_singleton] at hk
      exact h.unassigned isIncrement k v (by omega) hv
  · -- the slot of the new index is zero, as the value of an id without an index
    funext isIncrement id
    have hzero : (c.slots isIncrement)[c.indexByNodeId.length]? = some 0 := by
      have hbound : c.indexByNodeId.length < (c.slots isIncrement).length := by
        rw [h.length_slots]
        exact hlt
      rw [getElem?_eq_getElem hbound,
        h.unassigned isIncrement _ _ (le_refl _) (getElem?_eq_getElem hbound)]
    have hslots : slots { c with
        indexByNodeId := c.indexByNodeId ++ [(nodeId, (c.indexByNodeId.length : Int))]
        lastIndexAssigned := (c.indexByNodeId.length : Int) } isIncrement =
          c.slots isIncrement := rfl
    unfold value slot
    rw [hslots, lookup_append]
    cases hid : c.indexByNodeId.lookup id with
    | some index => rfl
    | none =>
      by_cases heq : id = nodeId
      · rw [heq, none_or, lookup_cons_self, bind_some, slotAt_natCast, hzero]
        rfl
      · rw [none_or, lookup_cons, beq_eq_false_iff_ne.mpr heq]
        rfl

theorem Assigned.getIndexByNode_spec (h : c.Assigned members) (hmem : nodeId ∈ members) :
    ∃ c' k, c.getIndexByNode nodeId = (c', ((k : Nat) : Int)) ∧ c'.Assigned members ∧
      c'.Agrees c ∧ c'.indexByNodeId.lookup nodeId = some (k : Int) := by
  unfold getIndexByNode
  cases hlookup : c.indexByNodeId.lookup nodeId with
  | some index =>
    obtain ⟨k, rfl, -⟩ := h.lookup_iff.mp hlookup
    exact ⟨c, k, rfl, h, Agrees.refl c, hlookup⟩
  | none =>
    obtain ⟨h', hagrees⟩ := h.assign hmem hlookup rfl
    refine ⟨_, c.indexByNodeId.length, ?_, h', hagrees, ?_⟩
    · simp only [h.last]
    · rw [lookup_append, hlookup, none_or, lookup_cons_self]

section
variable (h : c.Assigned members) (hk : c.indexByNodeId.lookup nodeId = some (k : Int))
include h hk

theorem Assigned.index_lt : k < c.nNodes.toNat := by
  have hat := h.slot_eq hk true
  rw [← h.length_slots true]
  exact (List.getElem?_eq_some_iff.mp hat).1

/-- A counter with room for the cluster is never resized. -/
theorem Assigned.maybeResizeCounters_eq :
    c.maybeResizeCounters (k : Int) = c := by
  have hlt := h.index_lt hk
  have hle : (UInt16.ofInt (k : Int)).toNat ≤ k := by
    rw [UInt16.ofInt, UInt16.toNat_ofNat']
    omega
  unfold maybeResizeCounters
  rw [if_pos (by omega)]

end

/-- One value replaced. -/
def setValue (value : Bool → UInt16 → Int) (isIncrement : Bool) (nodeId : UInt16) (v : Int) :
    Bool → UInt16 → Int :=
  fun kind id => if kind = isIncrement ∧ id = nodeId then v else value kind id

theorem setValue_self (value : Bool → UInt16 → Int) (isIncrement : Bool) (nodeId : UInt16) :
    setValue value isIncrement nodeId (value isIncrement nodeId) = value := by
  funext kind id
  unfold setValue
  split
  · next hcase => rw [hcase.1, hcase.2]
  · rfl

section
variable (h : c.Assigned members) (hk : c.indexByNodeId.lookup nodeId = some (k : Int))
include h hk

theorem Assigned.setSlot (isIncrement : Bool) (v : Int64) :
    (c.setSlot isIncrement (k : Int) v).Assigned members := by
  obtain ⟨k', hk', hat⟩ := h.lookup_iff.mp hk
  obtain rfl : k = k' := by exact_mod_cast hk'
  have hlength := (List.getElem?_eq_some_iff.mp hat).1
  constructor
  · simpa using h.self_mem
  · simpa using h.room
  · intro kind
    rw [slots_setSlot, nNodes_setSlot, ← h.length_slots kind]
    split <;> simp
  · simpa using h.nodup
  · simpa using h.mem
  · simpa using h.index
  · simpa using h.last
  · intro kind j w hj hw
    rw [indexByNodeId_setSlot] at hj
    rw [slots_setSlot] at hw
    split at hw
    · rw [Int.toNat_natCast, getElem?_set_ne (by omega)] at hw
      exact h.unassigned kind j w hj hw
    · exact h.unassigned kind j w hj hw

theorem Assigned.slot_setSlot (isIncrement kind : Bool) (id : UInt16) (v : Int64) :
    (c.setSlot isIncrement (k : Int) v).slot kind id =
      if kind = isIncrement ∧ id = nodeId then v else c.slot kind id := by
  unfold slot
  rw [indexByNodeId_setSlot, slots_setSlot]
  by_cases hid : id = nodeId
  · have hlt : k < (c.slots kind).length := by
      rw [h.length_slots]
      exact h.index_lt hk
    rw [hid, hk]
    simp only [bind_some, slotAt_natCast, Int.toNat_natCast, and_true]
    split
    · rw [getElem?_set_self hlt, getD_some]
    · rfl
  · have hcase : ¬ (kind = isIncrement ∧ id = nodeId) := fun hcase => hid hcase.2
    rw [if_neg hcase]
    cases hlookup : c.indexByNodeId.lookup id with
    | none => rfl
    | some index =>
      obtain ⟨j, rfl, hat⟩ := h.lookup_iff.mp hlookup
      obtain ⟨k', hk', hat'⟩ := h.lookup_iff.mp hk
      obtain rfl : k = k' := by exact_mod_cast hk'
      -- two ids never share an index
      have hne : k ≠ j := by
        intro heq
        rw [heq, hat] at hat'
        exact hid (congrArg Prod.fst (some.inj hat'))
      simp only [bind_some, slotAt_natCast, Int.toNat_natCast]
      split
      · rw [getElem?_set_ne hne]
      · rfl

theorem Assigned.value_setSlot (isIncrement : Bool) (v : Int64) :
    (c.setSlot isIncrement (k : Int) v).value = setValue c.value isIncrement nodeId v.toInt := by
  funext kind id
  unfold value setValue
  rw [h.slot_setSlot hk]
  split <;> rfl

theorem Assigned.raiseSlot_spec (isIncrement : Bool) (v : Int64) :
    ∃ c', c.raiseSlot isIncrement (k : Int) v = some c' ∧ c'.Assigned members ∧
      c'.selfNodeId = c.selfNodeId ∧
      c'.value =
        setValue c.value isIncrement nodeId (max (c.value isIncrement nodeId) v.toInt) := by
  unfold raiseSlot
  rw [slotAt_natCast, h.slot_eq hk, map_some]
  split
  · next hlt =>
    refine ⟨_, rfl, h.setSlot hk isIncrement v, selfNodeId_setSlot .., ?_⟩
    have hle : c.value isIncrement nodeId ≤ v.toInt := le_of_lt (Int64.lt_iff_toInt_lt.mp hlt)
    rw [h.value_setSlot hk, max_eq_right hle]
  · next hge =>
    refine ⟨c, rfl, h, rfl, ?_⟩
    have hle : v.toInt ≤ c.value isIncrement nodeId := by
      rw [Int64.lt_iff_toInt_lt] at hge
      exact not_lt.mp hge
    rw [max_eq_left hle, setValue_self]

end

section
variable (h : c.Assigned members)
include h

/-- A count of its own: the node adds one to its own value. -/
theorem Assigned.updateOwn_spec {isIncrement : Bool} {c' : Counter} {v : Int64}
    (hrun : c.updateOwn isIncrement = some (c', v)) :
    c'.Assigned members ∧ c'.selfNodeId = c.selfNodeId ∧
      v.toInt = c.value isIncrement c.selfNodeId + 1 ∧
      c'.value = setValue c.value isIncrement c.selfNodeId v.toInt := by
  obtain ⟨c₁, k, hindex, h₁, hagrees, hk⟩ := h.getIndexByNode_spec h.self_mem
  unfold updateOwn at hrun
  rw [hindex] at hrun
  simp only [slotAt_natCast, h₁.slot_eq hk, bind_eq_bind, bind_some,
    bind_eq_some_iff] at hrun
  obtain ⟨newValue, hadd, hresult⟩ := hrun
  obtain ⟨rfl, rfl⟩ := Prod.mk.inj (some.inj hresult)
  refine ⟨h₁.setSlot hk isIncrement newValue, ?_, ?_, ?_⟩
  · rw [selfNodeId_setSlot, hagrees.selfNodeId]
  · rw [checked_eq_some.mp hadd, ← hagrees.value]
    rfl
  · rw [h₁.value_setSlot hk, hagrees.value]

theorem Assigned.updateOwn_isSome (isIncrement : Bool)
    (hmax : c.value isIncrement c.selfNodeId + 1 < 2 ^ 63) :
    ∃ c' v, c.updateOwn isIncrement = some (c', v) := by
  obtain ⟨c₁, k, hindex, h₁, hagrees, hk⟩ := h.getIndexByNode_spec h.self_mem
  have hslot : (c₁.slot isIncrement c.selfNodeId).toInt = c.value isIncrement c.selfNodeId := by
    rw [← hagrees.value]
    rfl
  have hmin := (c₁.slot isIncrement c.selfNodeId).le_toInt
  obtain ⟨v, hv⟩ : ∃ v, checkedAdd (c₁.slot isIncrement c.selfNodeId) 1 = some v := by
    refine ⟨Int64.ofInt (c.value isIncrement c.selfNodeId + 1), checked_eq_some.mpr ?_⟩
    rw [hslot, Int64.toInt_ofInt_of_le (by omega) (by omega)]
    rfl
  refine ⟨c₁.setSlot isIncrement k v, v, ?_⟩
  unfold updateOwn
  rw [hindex]
  simp only [slotAt_natCast, h₁.slot_eq hk, bind_eq_bind, bind_some, hv]
  rfl

theorem Assigned.sync_spec {otherNodeId : UInt16} (hmem : otherNodeId ∈ members)
    (isIncrement : Bool) (valueToSync : Int64) :
    ∃ c', c.sync isIncrement valueToSync otherNodeId = some c' ∧ c'.Assigned members ∧
      c'.selfNodeId = c.selfNodeId ∧
      c'.value = setValue c.value isIncrement otherNodeId
        (max (c.value isIncrement otherNodeId) valueToSync.toInt) := by
  obtain ⟨c₁, k, hindex, h₁, hagrees, hk⟩ := h.getIndexByNode_spec hmem
  obtain ⟨c', hraise, h', hself, hvalue⟩ := h₁.raiseSlot_spec hk isIncrement valueToSync
  refine ⟨c', ?_, h', hself.trans hagrees.selfNodeId, ?_⟩
  · unfold sync
    rw [hindex]
    simp only [h₁.maybeResizeCounters_eq hk, hraise]
  · rw [hvalue, hagrees.value]

/-- What is told of the slots of another node: nothing when its id, taken for an index, is too
    great. -/
theorem Assigned.getLastSeen_spec (hmem : nodeId ∈ members) :
    ∃ c' lastSeen, c.getLastSeen nodeId = some (c', lastSeen) ∧ c'.Assigned members ∧
      c'.Agrees c ∧ lastSeen = if c.nNodes.toNat ≤ nodeId.toNat then (0, 0)
        else (c'.slot true nodeId, c'.slot false nodeId) := by
  unfold getLastSeen
  split
  · exact ⟨c, _, rfl, h, Agrees.refl c, rfl⟩
  · obtain ⟨c₁, k, hindex, h₁, hagrees, hk⟩ := h.getIndexByNode_spec hmem
    have hincrement : slotAt c₁.nIncrements (k : Int) = some (c₁.slot true nodeId) := by
      rw [slotAt_natCast]
      exact h₁.slot_eq hk true
    have hdecrement : slotAt c₁.nDecrements (k : Int) = some (c₁.slot false nodeId) := by
      rw [slotAt_natCast]
      exact h₁.slot_eq hk false
    refine ⟨c₁, (c₁.slot true nodeId, c₁.slot false nodeId), ?_, h₁, hagrees, rfl⟩
    rw [hindex]
    simp [hincrement, hdecrement]

end

/-- What is answered about an own value: the value, if the other node has seen less, and 0
    otherwise. -/
def Tells (needsSync : Bool) (toSync lastSeen : Int64) (own : Int) : Prop :=
  lastSeen.toInt < own ∧ needsSync = true ∧ toSync.toInt = own ∨
    own ≤ lastSeen.toInt ∧ needsSync = false ∧ toSync = 0

theorem Assigned.ownToSync_spec (h : c.Assigned members) (isIncrement : Bool) (lastSeen : Int64) :
    ∃ c' needsSync toSync, c.ownToSync isIncrement lastSeen = some (c', needsSync, toSync) ∧
      c'.Assigned members ∧ c'.Agrees c ∧
      Tells needsSync toSync lastSeen (c.value isIncrement c.selfNodeId) := by
  obtain ⟨c₁, k, hindex, h₁, hagrees, hk⟩ := h.getIndexByNode_spec h.self_mem
  unfold ownToSync
  rw [hindex]
  simp only [slotAt_natCast, h₁.slot_eq hk, bind_eq_bind, bind_some, ← hagrees.value]
  split
  · next hlt => exact ⟨c₁, true, _, rfl, h₁, hagrees, .inl ⟨Int64.lt_iff_toInt_lt.mp hlt, rfl, rfl⟩⟩
  · next hge =>
    rw [Int64.lt_iff_toInt_lt, not_lt] at hge
    exact ⟨c₁, false, 0, rfl, h₁, hagrees, .inr ⟨hge, rfl, rfl⟩⟩

theorem Assigned.onReplicationCounter_spec (h : c.Assigned members)
    {request : ReplicateCounterRequest} (hmem : request.otherNodeId ∈ members) :
    ∃ c' response, c.onReplicationCounter request = some (c', response) ∧ c'.Assigned members ∧
      c'.selfNodeId = c.selfNodeId ∧
      c'.value = setValue c.value request.isIncrement request.otherNodeId
        (max (c.value request.isIncrement request.otherNodeId) request.newValue.toInt) ∧
      Tells response.needsIncrementSync response.nIncrementToSync request.lastSeenSelfIncrement
        (c'.value true c.selfNodeId) ∧
      Tells response.needsDecrementSync response.nDecrementToSync request.lastSeenSelfDecrement
        (c'.value false c.selfNodeId) := by
  obtain ⟨c₁, k₁, hindex₁, h₁, hagrees₁, hk₁⟩ := h.getIndexByNode_spec hmem
  -- the id has its index now, so that asking again changes nothing
  obtain ⟨c₂, k₂, hindex₂, h₂, hagrees₂, hk₂⟩ := h₁.getIndexByNode_spec hmem
  obtain ⟨c₃, hraise, h₃, hself₃, hvalue₃⟩ :=
    h₂.raiseSlot_spec hk₂ request.isIncrement request.newValue
  obtain ⟨c₄, needsIncrementSync, nIncrementToSync, hown₄, h₄, hagrees₄, hcase₄⟩ :=
    h₃.ownToSync_spec true request.lastSeenSelfIncrement
  obtain ⟨c₅, needsDecrementSync, nDecrementToSync, hown₅, h₅, hagrees₅, hcase₅⟩ :=
    h₄.ownToSync_spec false request.lastSeenSelfDecrement
  have hself₃' : c₃.selfNodeId = c.selfNodeId :=
    hself₃.trans (hagrees₂.selfNodeId.trans hagrees₁.selfNodeId)
  have hupdate : (c₁.maybeResizeCounters (k₁ : Int)).updateCounterFromReplication request =
      some c₃ := by
    unfold updateCounterFromReplication
    rw [h₁.maybeResizeCounters_eq hk₁, hindex₂]
    exact hraise
  refine ⟨c₅, ⟨needsIncrementSync, needsDecrementSync, nIncrementToSync, nDecrementToSync⟩, ?_, h₅,
    ?_, ?_, ?_, ?_⟩
  · unfold onReplicationCounter
    rw [hindex₁]
    simp only [hupdate, hown₄, hown₅, bind_eq_bind, bind_some]
    rfl
  · rw [hagrees₅.selfNodeId, hagrees₄.selfNodeId, hself₃']
  · rw [hagrees₅.value, hagrees₄.value, hvalue₃, hagrees₂.value, hagrees₁.value]
  · rw [hagrees₅.value, hagrees₄.value, ← hself₃']
    exact hcase₄
  · rw [hagrees₅.value, ← hself₃', ← hagrees₄.selfNodeId]
    exact hcase₅

end assigned

/-! ### The count -/

/-- A sum of terms of one sign stays in range up to the end if it is in range at the end. -/
theorem foldlM_checked {term : Int64 → Int} (values : List Int64) (start : Int64)
    (hrange : (∀ v ∈ values, 0 ≤ term v) ∧ start.toInt + (values.map term).sum < 2 ^ 63 ∨
      (∀ v ∈ values, term v ≤ 0) ∧ -2 ^ 63 ≤ start.toInt + (values.map term).sum) :
    ∃ total, values.foldlM (fun a v => checked (a.toInt + term v)) start = some total ∧
      total.toInt = start.toInt + (values.map term).sum := by
  induction values generalizing start with
  | nil => exact ⟨start, rfl, by simp⟩
  | cons v values ih =>
    have hmin := start.le_toInt
    have hmax := start.toInt_lt
    simp only [map_cons, sum_cons, forall_mem_cons] at hrange ⊢
    -- the rest of the sum has the sign of its terms
    have hrest : (∀ w ∈ values, 0 ≤ term w) → 0 ≤ (values.map term).sum := fun h =>
      sum_nonneg (by simpa using h)
    have hrest' : (∀ w ∈ values, term w ≤ 0) → (values.map term).sum ≤ 0 := fun h => by
      simpa using sum_le_sum (g := fun _ => 0) h
    have hnext : (Int64.ofInt (start.toInt + term v)).toInt = start.toInt + term v := by
      rcases hrange with ⟨⟨hv, hvalues⟩, hend⟩ | ⟨⟨hv, hvalues⟩, hend⟩
      · have := hrest hvalues
        exact Int64.toInt_ofInt_of_le (by omega) (by omega)
      · have := hrest' hvalues
        exact Int64.toInt_ofInt_of_le (by omega) (by omega)
    obtain ⟨total, hfold, htotal⟩ := ih (Int64.ofInt (start.toInt + term v)) (by
      rw [hnext]
      rcases hrange with ⟨⟨-, hvalues⟩, hend⟩ | ⟨⟨-, hvalues⟩, hend⟩
      · exact Or.inl ⟨hvalues, by omega⟩
      · exact Or.inr ⟨hvalues, by omega⟩)
    refine ⟨total, ?_, ?_⟩
    · rw [foldlM_cons, checked_eq_some.mpr hnext, bind_eq_bind, bind_some, hfold]
    · rw [htotal, hnext, add_assoc]

section count
variable {members : Finset UInt16} {c : Counter}

/-- The slots are the values of the ids in the order of their indices, and zeros. -/
theorem Assigned.slots_eq (h : c.Assigned members) (isIncrement : Bool) :
    c.slots isIncrement = (c.indexByNodeId.map fun p => c.slot isIncrement p.1) ++
      List.replicate (c.nNodes.toNat - c.indexByNodeId.length) 0 := by
  apply ext_getElem?
  intro k
  rcases lt_or_ge k c.indexByNodeId.length with hk | hk
  · have hat : c.indexByNodeId[k]? = some (c.indexByNodeId[k].1, (k : Int)) := by
      rw [getElem?_eq_getElem hk, ← h.index k _ (getElem?_eq_getElem hk)]
    rw [getElem?_append_left (by simpa using hk), getElem?_map, hat, map_some]
    exact h.slot_eq (h.lookup_iff.mpr ⟨k, rfl, hat⟩) isIncrement
  · rw [getElem?_append_right (by simpa using hk), length_map]
    rcases lt_or_ge k (c.slots isIncrement).length with hlt | hge
    · have hzero := h.unassigned isIncrement k _ hk (getElem?_eq_getElem hlt)
      rw [getElem?_eq_getElem hlt, hzero, getElem?_replicate, if_pos]
      rw [h.length_slots] at hlt
      omega
    · rw [getElem?_eq_none hge, getElem?_eq_none]
      rw [h.length_slots] at hge
      rw [length_replicate]
      omega

theorem value_eq_zero (isIncrement : Bool) {nodeId : UInt16}
    (hid : nodeId ∉ (c.indexByNodeId.map Prod.fst).toFinset) : c.value isIncrement nodeId = 0 := by
  have hnone : c.indexByNodeId.lookup nodeId = none := by
    rw [lookup_eq_none_iff]
    intro p hp
    rw [bne_iff_ne]
    intro heq
    exact hid (mem_toFinset.mpr (heq ▸ mem_map_of_mem hp))
  rw [value, slot, hnone]
  rfl

theorem Assigned.sum_slots (h : c.Assigned members) (isIncrement : Bool) :
    ((c.slots isIncrement).map Int64.toInt).sum = ∑ id ∈ members, c.value isIncrement id := by
  have hids : ((c.indexByNodeId.map Prod.fst).map (c.value isIncrement)).sum =
      ∑ id ∈ members, c.value isIncrement id := by
    rw [← sum_toFinset _ h.nodup]
    apply Finset.sum_subset
    · intro id hid
      obtain ⟨p, hp, rfl⟩ := mem_map.mp (mem_toFinset.mp hid)
      exact h.mem p hp
    · intro id _ hid
      exact value_eq_zero isIncrement hid
  rw [h.slots_eq, map_append, sum_append, ← hids]
  simp only [List.map_map, List.map_replicate, List.sum_replicate, Int64.toInt_zero, nsmul_zero,
    add_zero]
  rfl

theorem Assigned.slots_nonneg (h : c.Assigned members) {isIncrement : Bool}
    (hnonneg : ∀ id, 0 ≤ c.value isIncrement id) : ∀ v ∈ c.slots isIncrement, 0 ≤ v.toInt := by
  intro v hv
  rw [h.slots_eq] at hv
  rcases mem_append.mp hv with hv | hv
  · obtain ⟨p, -, rfl⟩ := mem_map.mp hv
    exact hnonneg p.1
  · rw [eq_of_mem_replicate hv]
    exact le_refl _

/-- The count is the sum of all increments less the sum of all decrements. -/
theorem Assigned.count_spec (h : c.Assigned members)
    (hnonneg : ∀ isIncrement id, 0 ≤ c.value isIncrement id)
    (hlt : ∑ id ∈ members, c.value true id < 2 ^ 63)
    (hle : -2 ^ 63 ≤ ∑ id ∈ members, c.value true id - ∑ id ∈ members, c.value false id) :
    ∃ total, c.count = some total ∧
      total.toInt = ∑ id ∈ members, c.value true id - ∑ id ∈ members, c.value false id := by
  have hinc : c.nIncrements.take c.nNodes.toNat = c.slots true :=
    take_of_length_le (h.length_slots true).le
  have hdec : c.nDecrements.take c.nNodes.toNat = c.slots false :=
    take_of_length_le (h.length_slots false).le
  have hsums : ∑ id ∈ members, c.value true id - ∑ id ∈ members, c.value false id =
      ((c.slots true).map Int64.toInt).sum + ((c.slots false).map fun v => -v.toInt).sum := by
    rw [← h.sum_slots, ← h.sum_slots, sub_eq_add_neg, List.sum_neg, List.map_map]
    rfl
  rw [hsums] at hle ⊢
  obtain ⟨incremented, hfold, hincremented⟩ := foldlM_checked (c.slots true) 0
    (Or.inl ⟨h.slots_nonneg (hnonneg true), by rwa [Int64.toInt_zero, zero_add, h.sum_slots]⟩)
  rw [Int64.toInt_zero, zero_add] at hincremented
  have hnonpos : ∀ v ∈ c.slots false, -v.toInt ≤ 0 := by
    intro v hv
    have := h.slots_nonneg (hnonneg false) v hv
    omega
  obtain ⟨total, hfold', htotal⟩ := foldlM_checked (c.slots false) incremented
    (Or.inr ⟨hnonpos, by rwa [hincremented]⟩)
  refine ⟨total, ?_, by rw [htotal, hincremented]⟩
  unfold count
  rw [hinc, hdec]
  show ((c.slots true).foldlM (fun a v => checked (a.toInt + v.toInt)) 0).bind _ = _
  rw [hfold]
  exact hfold'

end count

end Counter

end MemDb
