import MemDb.Db.Counter
import MemDb.Lib.GrowOnly
import MemDb.Lib.Run
import Mathlib.Data.Fintype.BigOperators
import Mathlib.Data.Fin.VecNotation

/-! # Counters of a cluster

    Every node of a cluster holds a counter for the same key. A node that counts tells the others
    the new value of its slot (`REPLICATE_COUNTER`), and each of them answers with the values of its
    own slot that the sender has not seen yet. A message that was sent can arrive at any time after,
    any number of times, or not at all: nothing is ever taken out of `messages`.

    Seen one kind of count at a time, the cluster is a group of members with slots that only grow
    (`knowledge`), and all that its steps do is allowed there.
-/

namespace MemDb

open Lib.Run Lib.GrowOnly Option Function Finset

/-! ### Messages -/

/-- The response to `REPLICATE_COUNTER` as `onReplicationCounterResponse` reads it. -/
structure CounterReply where
  nIncrementToSync : Int64
  nDecrementToSync : Int64
  otherNodeId : UInt16
deriving DecidableEq, Repr

/-- The response that the operator builds: 0 stands for nothing to sync. -/
def ReplicateCounterResponse.reply (response : ReplicateCounterResponse) (selfNodeId : UInt16) :
    CounterReply where
  nIncrementToSync := if response.needsIncrementSync then response.nIncrementToSync else 0
  nDecrementToSync := if response.needsDecrementSync then response.nDecrementToSync else 0
  otherNodeId := selfNodeId

namespace Counter

def onReplicationCounterResponse (c : Counter) (reply : CounterReply) : Option Counter :=
  (if 0 < reply.nIncrementToSync then c.syncIncrement reply.nIncrementToSync reply.otherNodeId
    else some c).bind fun c =>
  if 0 < reply.nDecrementToSync then c.syncDecrement reply.nDecrementToSync reply.otherNodeId
  else some c

end Counter

/-- The value to sync of one kind. -/
def CounterReply.toSync (reply : CounterReply) (isIncrement : Bool) : Int64 :=
  if isIncrement then reply.nIncrementToSync else reply.nDecrementToSync

inductive CounterMessage (n : Nat) where
  | request (sender target : Fin n) (request : ReplicateCounterRequest)
  | response (requester : Fin n) (reply : CounterReply)
deriving DecidableEq, Repr

namespace CounterMessage
variable {n : Nat}

/-- The id of the node whose counts the message is about. -/
def otherNodeId : CounterMessage n → UInt16
  | .request _ _ replicated => replicated.otherNodeId
  | .response _ reply => reply.otherNodeId

/-- The message carries a value of the slot of a node. -/
def Carries (nodeId : UInt16) (isIncrement : Bool) (v : Int) : CounterMessage n → Prop
  | .request _ _ replicated =>
    replicated.otherNodeId = nodeId ∧ replicated.isIncrement = isIncrement ∧
      replicated.newValue.toInt = v
  | .response _ reply => reply.otherNodeId = nodeId ∧ (reply.toSync isIncrement).toInt = v

instance (nodeId : UInt16) (isIncrement : Bool) (v : Int) (message : CounterMessage n) :
    Decidable (message.Carries nodeId isIncrement v) := by
  cases message <;> unfold Carries <;> infer_instance

end CounterMessage

/-! ### The system -/

/-- An update that the node has still to tell the others about. -/
structure CounterUpdate (n : Nat) where
  node : Fin n
  isIncrement : Bool
  newValue : Int64
deriving DecidableEq, Repr

structure CounterCluster (n : Nat) where
  counters : Fin n → Counter
  updates : List (CounterUpdate n)
  /-- All messages that have been sent. -/
  messages : List (CounterMessage n)
  /-- The messages that a node has processed. -/
  processed : Fin n → List (CounterMessage n)

/-- What can happen next. -/
inductive CounterEvent (n : Nat) where
  /-- `increment` or `decrement` at a node. -/
  | update (i : Fin n) (isIncrement : Bool)
  /-- The request about an update to one of the other nodes. The two values that the target reads as
      the last ones seen are left open: the requests of one broadcast share their arguments, and the
      target reads the second value one argument too early, so that they need not be those of
      `getLastSeen`. -/
  | send (update : Nat) (target : Fin n) (lastSeenIncrement lastSeenDecrement : Int64)
  /-- A message arrives. -/
  | deliver (message : Nat)
deriving DecidableEq, Repr

namespace CounterCluster

variable {n : Nat} (ids : Fin n → UInt16)

/-- New counters, each with room for as many nodes as its node believes there are. -/
def start (nNodes : Fin n → UInt32) : CounterCluster n where
  counters i := Counter.new (ids i) (nNodes i)
  updates := []
  messages := []
  processed _ := []

def setCounter (i : Fin n) (c : Counter) (cluster : CounterCluster n) : CounterCluster n :=
  { cluster with counters := update cluster.counters i c }

/-- The node has processed a message, and sends others. -/
def process (i : Fin n) (message : CounterMessage n) (c : Counter) (sent : List (CounterMessage n))
    (cluster : CounterCluster n) : CounterCluster n :=
  { cluster.setCounter i c with
    messages := cluster.messages ++ sent
    processed := update cluster.processed i (message :: cluster.processed i) }

def step : CounterEvent n → CounterCluster n → Option (CounterCluster n)
  | .update i isIncrement, cluster =>
    (if isIncrement then (cluster.counters i).increment else (cluster.counters i).decrement).map
      fun (c, newValue) =>
        { cluster.setCounter i c with updates := cluster.updates ++ [⟨i, isIncrement, newValue⟩] }
  | .send update target lastSeenIncrement lastSeenDecrement, cluster => do
    let update ← cluster.updates[update]?
    if target = update.node then none
    else
      let (c, _) ← (cluster.counters update.node).getLastSeen (ids target)
      return { cluster.setCounter update.node c with
        messages := cluster.messages ++ [.request update.node target
          { otherNodeId := ids update.node
            isIncrement := update.isIncrement
            newValue := update.newValue
            lastSeenSelfIncrement := lastSeenIncrement
            lastSeenSelfDecrement := lastSeenDecrement }] }
  | .deliver message, cluster => do
    let message ← cluster.messages[message]?
    match message with
    | .request sender target request =>
      let (c, response) ← (cluster.counters target).onReplicationCounter request
      return cluster.process target message c [.response sender (response.reply (ids target))]
    | .response requester reply =>
      let c ← (cluster.counters requester).onReplicationCounterResponse reply
      return cluster.process requester message c []

/-- The members of the cluster. -/
def members : Finset UInt16 := Finset.univ.image ids

/-- One kind of count as slots that only grow. -/
def knowledge (isIncrement : Bool) (cluster : CounterCluster n) : State (Fin n) Int where
  known i j := (cluster.counters i).value isIncrement (ids j)
  announced j v :=
    (∃ update ∈ cluster.updates, update.node = j ∧ update.isIncrement = isIncrement ∧
      update.newValue.toInt = v) ∨
    ∃ message ∈ cluster.messages, message.Carries (ids j) isIncrement v
  heard i j v := ∃ message ∈ cluster.processed i, message.Carries (ids j) isIncrement v

end CounterCluster

/-- How often a node has counted. -/
def counted {n : Nat} (events : List (CounterEvent n)) (isIncrement : Bool) (j : Fin n) : Nat :=
  events.count (.update j isIncrement)

/-! ### Responses -/

namespace Counter
variable {members : Finset UInt16} {c : Counter}

/-- A value to sync is taken over where it is positive; the copy is not negative, so that this is
    always the greater of the two. -/
theorem Assigned.syncPositive_spec (h : c.Assigned members) {otherNodeId : UInt16}
    (hmem : otherNodeId ∈ members) (isIncrement : Bool)
    (hnonneg : ∀ kind id, 0 ≤ c.value kind id) (v : Int64) :
    ∃ c', (if 0 < v then c.sync isIncrement v otherNodeId else some c) = some c' ∧
      c'.Assigned members ∧ c'.selfNodeId = c.selfNodeId ∧
      (∀ kind id, 0 ≤ c'.value kind id) ∧
      c'.value = setValue c.value isIncrement otherNodeId
        (max (c.value isIncrement otherNodeId) v.toInt) := by
  split
  · obtain ⟨c', hsync, h', hself, hvalue⟩ := h.sync_spec hmem isIncrement v
    refine ⟨c', hsync, h', hself, ?_, hvalue⟩
    intro kind id
    rw [hvalue, setValue]
    split
    · exact le_trans (hnonneg _ _) (le_max_left _ _)
    · exact hnonneg kind id
  · next hpos =>
    have hle : v.toInt ≤ c.value isIncrement otherNodeId := by
      rw [Int64.lt_iff_toInt_lt, Int64.toInt_zero, not_lt] at hpos
      exact le_trans hpos (hnonneg _ _)
    refine ⟨c, rfl, h, rfl, hnonneg, ?_⟩
    rw [max_eq_left hle, setValue_self]

theorem Assigned.onReplicationCounterResponse_spec (h : c.Assigned members)
    (hnonneg : ∀ kind id, 0 ≤ c.value kind id) {reply : CounterReply}
    (hmem : reply.otherNodeId ∈ members) :
    ∃ c', c.onReplicationCounterResponse reply = some c' ∧ c'.Assigned members ∧
      c'.selfNodeId = c.selfNodeId ∧
      ∀ kind id, c'.value kind id = if id = reply.otherNodeId then
        max (c.value kind id) (reply.toSync kind).toInt else c.value kind id := by
  obtain ⟨c₁, hsync₁, h₁, hself₁, hnonneg₁, hvalue₁⟩ :=
    h.syncPositive_spec hmem true hnonneg reply.nIncrementToSync
  obtain ⟨c₂, hsync₂, h₂, hself₂, -, hvalue₂⟩ :=
    h₁.syncPositive_spec hmem false hnonneg₁ reply.nDecrementToSync
  refine ⟨c₂, ?_, h₂, hself₂.trans hself₁, ?_⟩
  · unfold onReplicationCounterResponse syncIncrement syncDecrement
    rw [hsync₁, bind_some, hsync₂]
  · intro kind id
    rw [hvalue₂, hvalue₁]
    by_cases hid : id = reply.otherNodeId
    · cases kind <;> simp [setValue, hid, CounterReply.toSync]
    · simp [setValue, hid]

end Counter

/-! ### Steps -/

namespace CounterCluster

variable {n : Nat} {ids : Fin n → UInt16} {cluster : CounterCluster n}

theorem mem_members (i : Fin n) : ids i ∈ members ids :=
  mem_image_of_mem ids (mem_univ i)

/-- What holds of a cluster at any time. -/
structure Consistent (ids : Fin n → UInt16) (cluster : CounterCluster n) : Prop where
  assigned : ∀ i, (cluster.counters i).Assigned (members ids)
  self : ∀ i, (cluster.counters i).selfNodeId = ids i
  nonneg : ∀ i isIncrement id, 0 ≤ (cluster.counters i).value isIncrement id
  origin : ∀ message ∈ cluster.messages, message.otherNodeId ∈ members ids
  sound : ∀ isIncrement, Sound (knowledge ids isIncrement cluster)

/-- What an event does: the cluster stays consistent, the slots of each kind take a step, and only
    an update changes what a node has counted itself. -/
structure Advances (ids : Fin n → UInt16) (event : CounterEvent n)
    (cluster cluster' : CounterCluster n) : Prop where
  consistent : Consistent ids cluster'
  steps : ∀ isIncrement,
    Step (knowledge ids isIncrement cluster) (knowledge ids isIncrement cluster')
  own : ∀ isIncrement j, (cluster'.counters j).value isIncrement (ids j) =
    (cluster.counters j).value isIncrement (ids j) + if event = .update j isIncrement then 1 else 0

theorem consistent_start {nNodes : Fin n → UInt32} (hroom : ∀ i, n ≤ (nNodes i).toNat) :
    Consistent ids (start ids nNodes) := by
  have hcard : (members ids).card ≤ n := le_trans card_image_le (card_fin n).le
  constructor
  · intro i
    exact Counter.assigned_new (mem_members i) (le_trans hcard (hroom i))
  · intro i
    rfl
  · intro i isIncrement id
    exact le_refl 0
  · intro message hmessage
    cases hmessage
  · intro isIncrement
    constructor
    · intro i j
      exact le_refl 0
    · intro j v hannounced
      rcases hannounced with ⟨update, hupdate, -⟩ | ⟨message, hmessage, -⟩
      · cases hupdate
      · cases hmessage
    · intro i j v hheard
      obtain ⟨message, hmessage, -⟩ := hheard
      cases hmessage

section steps
variable (h : Consistent ids cluster)
include h

variable {c : Counter} {cluster' : CounterCluster n} {i : Fin n} {number : Nat}

/-- An event changes the counter of one node only. It is enough to look at what that counter holds,
    at what is said of it, and at what the node has processed. -/
theorem Consistent.advances {event : CounterEvent n}
    (hcounters : cluster'.counters = update cluster.counters i c)
    (hassigned : c.Assigned (members ids)) (hself : c.selfNodeId = ids i)
    (hgrows : ∀ isIncrement id, (cluster.counters i).value isIncrement id ≤ c.value isIncrement id)
    (hlearns : ∀ isIncrement j, j ≠ i →
      c.value isIncrement (ids j) = (cluster.counters i).value isIncrement (ids j) ∨
        (knowledge ids isIncrement cluster).announced j (c.value isIncrement (ids j)))
    (hevent : ∀ isIncrement j, event = .update j isIncrement → j = i)
    (hown : ∀ isIncrement, c.value isIncrement (ids i) =
      (cluster.counters i).value isIncrement (ids i) +
        if event = .update i isIncrement then 1 else 0)
    (horigin : ∀ message ∈ cluster'.messages, message.otherNodeId ∈ members ids)
    (hannounces : ∀ isIncrement j v, (knowledge ids isIncrement cluster').announced j v →
      (knowledge ids isIncrement cluster).announced j v ∨
        j = i ∧ v ≤ c.value isIncrement (ids i))
    (hhears : ∀ isIncrement k j v, (knowledge ids isIncrement cluster').heard k j v →
      (knowledge ids isIncrement cluster).heard k j v ∨ k = i ∧ v ≤ c.value isIncrement (ids j)) :
    Advances ids event cluster cluster' := by
  -- for each kind of slot the event is a step of the abstract knowledge: node `i` may learn, the
  -- others stay as they are
  have hsteps : ∀ isIncrement,
      Step (knowledge ids isIncrement cluster) (knowledge ids isIncrement cluster') := by
    intro isIncrement
    have hknown : ∀ k j, (knowledge ids isIncrement cluster').known k j =
        (update cluster.counters i c k).value isIncrement (ids j) := by
      intro k j
      rw [← hcounters]
      rfl
    constructor
    · intro k j
      rw [hknown]
      by_cases hk : k = i
      · rw [hk, update_self]
        exact hgrows isIncrement (ids j)
      · rw [update_of_ne hk]
        exact le_refl _
    · intro k j hkj
      rw [hknown]
      by_cases hk : k = i
      · rw [hk, update_self]
        exact hlearns isIncrement j (fun hj => hkj (hk.trans hj.symm))
      · rw [update_of_ne hk]
        exact Or.inl rfl
    · intro j v hannounced
      rcases hannounces isIncrement j v hannounced with hbefore | ⟨rfl, hle⟩
      · exact Or.inl hbefore
      · rw [hknown, update_self]
        exact Or.inr hle
    · intro k j v hheard
      rcases hhears isIncrement k j v hheard with hbefore | ⟨rfl, hle⟩
      · exact Or.inl hbefore
      · rw [hknown, update_self]
        exact Or.inr hle
  refine ⟨⟨?_, ?_, ?_, horigin, fun isIncrement => (h.sound isIncrement).step (hsteps isIncrement)⟩,
    hsteps, ?_⟩
  · rw [hcounters]
    exact (forall_update_iff _ fun _ (c' : Counter) => c'.Assigned (members ids)).mpr
      ⟨hassigned, fun j _ => h.assigned j⟩
  · rw [hcounters]
    exact (forall_update_iff _ fun j (c' : Counter) => c'.selfNodeId = ids j).mpr
      ⟨hself, fun j _ => h.self j⟩
  · rw [hcounters]
    have hnew : ∀ isIncrement id, 0 ≤ c.value isIncrement id := fun isIncrement id =>
      le_trans (h.nonneg i isIncrement id) (hgrows isIncrement id)
    exact (forall_update_iff _ fun _ (c' : Counter) =>
      ∀ isIncrement id, 0 ≤ c'.value isIncrement id).mpr ⟨hnew, fun j _ => h.nonneg j⟩
  · intro isIncrement j
    rw [hcounters]
    by_cases hj : j = i
    · rw [hj, update_self]
      exact hown isIncrement
    · rw [update_of_ne hj, if_neg (fun heq => hj (hevent isIncrement j heq)), add_zero]

section
variable (hids : Injective ids)
include hids

/-- A count at a node. -/
theorem Consistent.update {isIncrement : Bool}
    (hstep : step ids (.update i isIncrement) cluster = some cluster') :
    Advances ids (.update i isIncrement) cluster cluster' := by
  have hupdate : step ids (.update i isIncrement) cluster =
      ((cluster.counters i).updateOwn isIncrement).map fun (c, newValue) =>
        { cluster.setCounter i c with
          updates := cluster.updates ++ [⟨i, isIncrement, newValue⟩] } := by
    cases isIncrement <;> rfl
  rw [hupdate] at hstep
  obtain ⟨⟨c, newValue⟩, hrun, rfl⟩ := map_eq_some_iff.mp hstep
  obtain ⟨hassigned, hself, hnew, hvalue⟩ := (h.assigned i).updateOwn_spec hrun
  rw [h.self i] at hself hnew hvalue
  -- one own slot is one greater, all others are as before
  have hat : ∀ kind id, c.value kind id = if kind = isIncrement ∧ id = ids i then
      (cluster.counters i).value isIncrement (ids i) + 1
      else (cluster.counters i).value kind id := by
    intro kind id
    rw [hvalue, Counter.setValue, hnew]
  apply h.advances (c := c) rfl hassigned hself
  · intro kind id
    rw [hat]
    split
    · next hcase =>
      rw [hcase.1, hcase.2]
      omega
    · exact le_refl _
  · intro kind j hj
    rw [hat, if_neg (fun hcase => hj (hids hcase.2))]
    exact Or.inl rfl
  · intro kind j heq
    injection heq with hj
    exact hj.symm
  · intro kind
    rw [hat]
    by_cases hkind : kind = isIncrement
    · rw [if_pos ⟨hkind, rfl⟩, if_pos (by rw [hkind]), hkind]
    · rw [if_neg (fun hcase => hkind hcase.1), if_neg, add_zero]
      intro heq
      injection heq with _ hk
      exact hkind hk.symm
  · exact h.origin
  · intro kind j v hannounced
    rcases hannounced with ⟨update, hmem, hnode, hkind, hv⟩ | hmessage
    · rcases List.mem_append.mp hmem with hmem | hmem
      · exact Or.inl (Or.inl ⟨update, hmem, hnode, hkind, hv⟩)
      · rw [List.mem_singleton.mp hmem] at hnode hkind hv
        refine Or.inr ⟨hnode.symm, ?_⟩
        rw [hat, if_pos ⟨hkind.symm, rfl⟩, ← hnew]
        exact hv.ge
    · exact Or.inl (Or.inr hmessage)
  · intro kind k j v hheard
    exact Or.inl hheard

/-- A request that is sent says what an update has announced. -/
theorem Consistent.send {target : Fin n} {lastSeenIncrement lastSeenDecrement : Int64}
    (hstep : step ids (.send number target lastSeenIncrement lastSeenDecrement) cluster =
      some cluster') :
    Advances ids (.send number target lastSeenIncrement lastSeenDecrement) cluster cluster' := by
  obtain ⟨update, hupdate, hstep⟩ := bind_eq_some_iff.mp hstep
  split at hstep
  · cases hstep
  obtain ⟨c, lastSeen, hrun, hassigned, hagrees, -⟩ :=
    (h.assigned update.node).getLastSeen_spec (mem_members target)
  rw [hrun, bind_eq_bind, bind_some] at hstep
  cases hstep
  -- sending reads the counter and changes no count; only a message is added
  apply h.advances (c := c) rfl hassigned (hagrees.selfNodeId.trans (h.self _))
  · intro kind id
    rw [hagrees.value]
  · intro kind j _
    rw [hagrees.value]
    exact Or.inl rfl
  · intro kind j heq
    cases heq
  · intro kind
    rw [hagrees.value, if_neg (by intro heq; cases heq), add_zero]
  · intro message hmessage
    rcases List.mem_append.mp hmessage with hmessage | hmessage
    · exact h.origin message hmessage
    · rw [List.mem_singleton.mp hmessage]
      exact mem_members update.node
  -- the new message carries the value of an update, which has been announced before
  · intro kind j v hannounced
    rcases hannounced with hupdates | ⟨message, hmessage, hcarries⟩
    · exact Or.inl (Or.inl hupdates)
    · rcases List.mem_append.mp hmessage with hmessage | hmessage
      · exact Or.inl (Or.inr ⟨message, hmessage, hcarries⟩)
      · rw [List.mem_singleton.mp hmessage] at hcarries
        obtain ⟨hnode, hkind, hv⟩ := hcarries
        exact Or.inl (Or.inl ⟨update, List.mem_of_getElem? hupdate, hids hnode, hkind, hv⟩)
  · intro kind k j v hheard
    exact Or.inl hheard

/-- A node raises its copies to what a message carries and remembers that it has processed it. -/
theorem Consistent.process {message : CounterMessage n} (hmessage : message ∈ cluster.messages)
    (hassigned : c.Assigned (members ids)) (hself : c.selfNodeId = ids i)
    (hraises : ∀ isIncrement id,
      c.value isIncrement id = (cluster.counters i).value isIncrement id ∨
        (cluster.counters i).value isIncrement id ≤ c.value isIncrement id ∧
          message.Carries id isIncrement (c.value isIncrement id))
    (hhears : ∀ isIncrement id v, message.Carries id isIncrement v → v ≤ c.value isIncrement id)
    {sent : List (CounterMessage n)} (hsent : ∀ other ∈ sent, other.otherNodeId = ids i ∧
      ∀ isIncrement id v, other.Carries id isIncrement v → id = ids i ∧
        v ≤ c.value isIncrement (ids i)) :
    Advances ids (.deliver number) cluster (cluster.process i message c sent) := by
  apply h.advances (c := c) rfl hassigned hself
  · intro kind id
    rcases hraises kind id with hsame | ⟨hle, -⟩
    · exact hsame.ge
    · exact hle
  · intro kind j _
    rcases hraises kind (ids j) with hsame | ⟨-, hcarries⟩
    · exact Or.inl hsame
    · exact Or.inr (Or.inr ⟨message, hmessage, hcarries⟩)
  · intro kind j heq
    cases heq
  · -- a message about the node itself says no more than the node has counted
    intro kind
    rw [if_neg (by intro heq; cases heq), add_zero]
    rcases hraises kind (ids i) with hsame | ⟨hle, hcarries⟩
    · exact hsame
    · exact le_antisymm
        ((h.sound kind).announced_le i _ (Or.inr ⟨message, hmessage, hcarries⟩)) hle
  · intro other hother
    rcases List.mem_append.mp hother with hother | hother
    · exact h.origin other hother
    · rw [(hsent other hother).1]
      exact mem_members i
  · intro kind j v hannounced
    rcases hannounced with hupdates | ⟨other, hother, hcarries⟩
    · exact Or.inl (Or.inl hupdates)
    · rcases List.mem_append.mp hother with hother | hother
      · exact Or.inl (Or.inr ⟨other, hother, hcarries⟩)
      · obtain ⟨hid, hle⟩ := (hsent other hother).2 kind (ids j) v hcarries
        exact Or.inr ⟨hids hid, hle⟩
  · intro kind k j v hheard
    obtain ⟨other, hother, hcarries⟩ := hheard
    by_cases hk : k = i
    · have hprocessed : (cluster.process i message c sent).processed k =
          message :: cluster.processed k := by
        rw [hk]
        exact update_self ..
      rw [hprocessed] at hother
      rcases List.mem_cons.mp hother with rfl | hother
      · exact Or.inr ⟨hk, hhears kind (ids j) v hcarries⟩
      · exact Or.inl ⟨other, hother, hcarries⟩
    · have hprocessed : (cluster.process i message c sent).processed k = cluster.processed k :=
        update_of_ne hk ..
      rw [hprocessed] at hother
      exact Or.inl ⟨other, hother, hcarries⟩

theorem Consistent.deliver_request {sender target : Fin n} {request : ReplicateCounterRequest}
    (hmessage : .request sender target request ∈ cluster.messages)
    {response : ReplicateCounterResponse}
    (hrun : (cluster.counters target).onReplicationCounter request = some (c, response)) :
    Advances ids (.deliver number) cluster
      (cluster.process target (.request sender target request) c
      [.response sender (response.reply (ids target))]) := by
  obtain ⟨c', response', hrun', hassigned, hself, hvalue, hincrement, hdecrement⟩ :=
    (h.assigned target).onReplicationCounter_spec (h.origin _ hmessage)
  obtain ⟨rfl, rfl⟩ := Prod.mk.inj (some.inj (hrun'.symm.trans hrun))
  rw [h.self target] at hself hincrement hdecrement
  apply h.process hids hmessage hassigned hself
  · intro kind id
    rw [hvalue, Counter.setValue]
    split
    · next hcase =>
      obtain ⟨rfl, rfl⟩ := hcase
      -- the slot of the sender becomes the greater of the two values
      rcases le_total request.newValue.toInt
        ((cluster.counters target).value request.isIncrement request.otherNodeId) with hle | hle
      · exact Or.inl (max_eq_left hle)
      · rw [max_eq_right hle]
        exact Or.inr ⟨hle, rfl, rfl, rfl⟩
    · exact Or.inl rfl
  · intro kind id v hcarries
    obtain ⟨rfl, rfl, rfl⟩ := hcarries
    rw [hvalue, Counter.setValue, if_pos ⟨rfl, rfl⟩]
    exact le_max_right _ _
  · intro other hother
    rw [List.mem_singleton.mp hother]
    refine ⟨rfl, ?_⟩
    intro kind id v hcarries
    obtain ⟨rfl, rfl⟩ := hcarries
    refine ⟨rfl, ?_⟩
    -- the reply carries an own value that the sender lacks, and zero where it lacks none
    have hnonneg : 0 ≤ c'.value kind (ids target) := by
      rw [hvalue, Counter.setValue]
      split
      · exact le_trans (h.nonneg _ _ _) (le_max_left _ _)
      · exact h.nonneg _ _ _
    cases kind with
    | true =>
      rcases hincrement with ⟨-, hneeds, heq⟩ | ⟨-, hneeds, -⟩
      · simp [CounterReply.toSync, ReplicateCounterResponse.reply, hneeds, heq]
      · simpa [CounterReply.toSync, ReplicateCounterResponse.reply, hneeds] using hnonneg
    | false =>
      rcases hdecrement with ⟨-, hneeds, heq⟩ | ⟨-, hneeds, -⟩
      · simp [CounterReply.toSync, ReplicateCounterResponse.reply, hneeds, heq]
      · simpa [CounterReply.toSync, ReplicateCounterResponse.reply, hneeds] using hnonneg

theorem Consistent.deliver_response {requester : Fin n} {reply : CounterReply}
    (hmessage : .response requester reply ∈ cluster.messages)
    (hrun : (cluster.counters requester).onReplicationCounterResponse reply = some c) :
    Advances ids (.deliver number) cluster
      (cluster.process requester (.response requester reply) c []) := by
  obtain ⟨c', hrun', hassigned, hself, hvalue⟩ :=
    (h.assigned requester).onReplicationCounterResponse_spec (h.nonneg requester)
      (h.origin _ hmessage)
  cases hrun'.symm.trans hrun
  rw [h.self requester] at hself
  apply h.process hids hmessage hassigned hself
  · intro kind id
    rw [hvalue]
    split
    · next hid =>
      subst hid
      rcases le_total (reply.toSync kind).toInt
        ((cluster.counters requester).value kind reply.otherNodeId) with hle | hle
      · exact Or.inl (max_eq_left hle)
      · rw [max_eq_right hle]
        exact Or.inr ⟨hle, rfl, rfl⟩
    · exact Or.inl rfl
  · intro kind id v hcarries
    obtain ⟨rfl, rfl⟩ := hcarries
    rw [hvalue, if_pos rfl]
    exact le_max_right _ _
  · intro other hother
    cases hother

theorem Consistent.step {event : CounterEvent n} (hstep : step ids event cluster = some cluster') :
    Advances ids event cluster cluster' := by
  cases event with
  | update i isIncrement => exact h.update hids hstep
  | send number target lastSeenIncrement lastSeenDecrement => exact h.send hids hstep
  | deliver number =>
    obtain ⟨message, hget, hstep⟩ := bind_eq_some_iff.mp hstep
    have hmessage := List.mem_of_getElem? hget
    cases message with
    | request sender target request =>
      obtain ⟨⟨c, response⟩, hrun, hstep⟩ := bind_eq_some_iff.mp hstep
      cases hstep
      exact h.deliver_request hids hmessage hrun
    | response requester reply =>
      obtain ⟨c, hrun, hstep⟩ := bind_eq_some_iff.mp hstep
      cases hstep
      exact h.deliver_response hids hmessage hrun

/-- What a run of any length does. -/
theorem Consistent.run {events : List (CounterEvent n)} {final : CounterCluster n}
    (hrun : run (CounterCluster.step ids) events cluster = some final) :
    Consistent ids final ∧
      (∀ i isIncrement j, (cluster.counters i).value isIncrement (ids j) ≤
        (final.counters i).value isIncrement (ids j)) ∧
      ∀ isIncrement j, (final.counters j).value isIncrement (ids j) =
        (cluster.counters j).value isIncrement (ids j) + counted events isIncrement j := by
  induction events generalizing cluster with
  | nil =>
    cases hrun
    exact ⟨h, fun _ _ _ => le_refl _, fun _ _ => (add_zero _).symm⟩
  | cons event events ih =>
    obtain ⟨next, hnext, hrest⟩ := run_cons_eq_some.mp hrun
    have hadvances := h.step hids hnext
    obtain ⟨hfinal, hgrows, hown⟩ := ih hadvances.consistent hrest
    refine ⟨hfinal, ?_, ?_⟩
    · intro i isIncrement j
      exact le_trans ((hadvances.steps isIncrement).grows i j) (hgrows i isIncrement j)
    · intro isIncrement j
      have hcounted : (counted (event :: events) isIncrement j : Int) =
          (if event = .update j isIncrement then 1 else 0) + counted events isIncrement j := by
        unfold counted
        rw [List.count_cons, beq_eq_decide]
        split <;> simp_all [add_comm]
      rw [hown, hadvances.own, hcounted, add_assoc]

end

end steps

end CounterCluster

/-! ### Safety and agreement -/

open CounterCluster

/-- In any state of any run, a message that was sent can be processed, also for another time: no
    handler reads past the end of an array. -/
theorem messages_processed {n : Nat} {ids : Fin n → UInt16} (hids : Injective ids)
    {nNodes : Fin n → UInt32} (hroom : ∀ i, n ≤ (nNodes i).toNat) {events : List (CounterEvent n)}
    {cluster : CounterCluster n} (hrun : run (step ids) events (start ids nNodes) = some cluster)
    {number : Nat} (hnumber : number < cluster.messages.length) :
    (step ids (.deliver number) cluster).isSome = true := by
  have hstart : Consistent ids (start ids nNodes) := consistent_start hroom
  obtain ⟨h, -, -⟩ := hstart.run hids hrun
  have hget := List.getElem?_eq_getElem hnumber
  have horigin := h.origin _ (List.mem_of_getElem? hget)
  rw [CounterCluster.step, hget, bind_eq_bind, bind_some]
  cases hmessage : cluster.messages[number] with
  | request sender target request =>
    rw [hmessage] at horigin
    obtain ⟨c, response, hdeliver, -⟩ := (h.assigned target).onReplicationCounter_spec horigin
    simp [hdeliver]
  | response requester reply =>
    rw [hmessage] at horigin
    obtain ⟨c, hdeliver, -⟩ :=
      (h.assigned requester).onReplicationCounterResponse_spec (h.nonneg requester) horigin
    simp [hdeliver]

/-- In any run, what a node knows of the counts of another never decreases and never exceeds them,
    and it is exact for its own. A node that has processed messages with the present counts of all
    others has the count of the whole cluster; a count of 0 needs no message, and the sums have to
    fit in 64 bits. -/
theorem counters_agree {n : Nat} {ids : Fin n → UInt16} (hids : Injective ids)
    {nNodes : Fin n → UInt32} (hroom : ∀ i, n ≤ (nNodes i).toNat)
    {before after : List (CounterEvent n)} {middle final : CounterCluster n}
    (hmiddle : run (step ids) before (start ids nNodes) = some middle)
    (hfinal : run (step ids) after middle = some final) :
    (∀ i j isIncrement, (middle.counters i).value isIncrement (ids j) ≤
      (final.counters i).value isIncrement (ids j)) ∧
    (∀ i j isIncrement, (final.counters i).value isIncrement (ids j) ≤
      counted (before ++ after) isIncrement j) ∧
    (∀ j isIncrement, (final.counters j).value isIncrement (ids j) =
      counted (before ++ after) isIncrement j) ∧
    ∀ i, (∀ j ≠ i, ∀ isIncrement, counted (before ++ after) isIncrement j = 0 ∨
        ∃ message ∈ final.processed i,
          message.Carries (ids j) isIncrement (counted (before ++ after) isIncrement j)) →
      ∑ j, (counted (before ++ after) true j : Int) < 2 ^ 63 →
      -2 ^ 63 ≤ ∑ j, (counted (before ++ after) true j : Int) -
        ∑ j, (counted (before ++ after) false j : Int) →
      ∃ total, (final.counters i).count = some total ∧
        total.toInt = ∑ j, (counted (before ++ after) true j : Int) -
          ∑ j, (counted (before ++ after) false j : Int) := by
  have hstart : Consistent ids (start ids nNodes) := consistent_start hroom
  obtain ⟨hconsistent, -, -⟩ := hstart.run hids hmiddle
  have hrun : run (step ids) (before ++ after) (start ids nNodes) = some final := by
    rw [run_append, hmiddle, bind_some, hfinal]
  obtain ⟨hfinalConsistent, -, hown⟩ := hstart.run hids hrun
  have hown : ∀ j isIncrement, (final.counters j).value isIncrement (ids j) =
      counted (before ++ after) isIncrement j := by
    intro j isIncrement
    have hzero : ((start ids nNodes).counters j).value isIncrement (ids j) = 0 :=
      Counter.value_new ..
    rw [hown isIncrement j, hzero, zero_add]
  refine ⟨?_, ?_, hown, ?_⟩
  · intro i j isIncrement
    exact (hconsistent.run hids hfinal).2.1 i isIncrement j
  · intro i j isIncrement
    rw [← hown j isIncrement]
    exact (hfinalConsistent.sound isIncrement).known_le i j
  · intro i hprocessed hlt hle
    -- the node knows every slot, so that its sums are those of the cluster
    have hknown : ∀ j isIncrement, (final.counters i).value isIncrement (ids j) =
        counted (before ++ after) isIncrement j := by
      intro j isIncrement
      by_cases hj : j = i
      · rw [hj]
        exact hown i isIncrement
      · rcases hprocessed j hj isIncrement with hzero | hmessage
        · have hbound := (hfinalConsistent.sound isIncrement).known_le i j
          have hnonneg := hfinalConsistent.nonneg i isIncrement (ids j)
          have hj := hown j isIncrement
          rw [hzero] at hj ⊢
          exact le_antisymm (hbound.trans hj.le) hnonneg
        · rw [← hown j isIncrement] at hmessage ⊢
          exact (hfinalConsistent.sound isIncrement).known_eq hmessage
    have hsum : ∀ isIncrement, ∑ id ∈ members ids, (final.counters i).value isIncrement id =
        ∑ j, (counted (before ++ after) isIncrement j : Int) := by
      intro isIncrement
      unfold members
      rw [sum_image (fun j _ k _ heq => hids heq)]
      exact sum_congr rfl fun j _ => hknown j isIncrement
    rw [← hsum true] at hlt
    rw [← hsum true, ← hsum false] at hle ⊢
    exact (hfinalConsistent.assigned i).count_spec (hfinalConsistent.nonneg i) hlt hle

/-- Node `a` counts up twice and node `b` down once. Of the requests to node `c`, that about the
    first count is lost and the last one arrives twice. -/
def threeCounts (a b c : Fin 3) : List (CounterEvent 3) :=
  [.update a true, .update a true, .update b false, .send 0 c 0 0, .send 2 c 0 0, .deliver 1,
    .send 1 c 0 0, .deliver 3, .deliver 3]

/-- The request about the first count arrives after all. -/
theorem messages_processed_three :
    ∃ cluster, run (step ![7, 3, 9]) (threeCounts 0 1 2) (start ![7, 3, 9] ![3, 4, 3]) =
      some cluster ∧ (step ![7, 3, 9] (.deliver 0) cluster).isSome = true := by
  obtain ⟨cluster, hrun, hsent⟩ : ∃ cluster, run (step ![7, 3, 9]) (threeCounts 0 1 2)
      (start ![7, 3, 9] ![3, 4, 3]) = some cluster ∧ 0 < cluster.messages.length := by
        decide +kernel
  exact ⟨cluster, hrun, messages_processed (by decide) (by decide) hrun hsent⟩

theorem counters_agree_three :
    ∃ final, run (step ![7, 3, 9]) (threeCounts 0 1 2) (start ![7, 3, 9] ![3, 4, 3]) = some final ∧
      ∃ total, (final.counters 2).count = some total ∧
        total.toInt = ∑ j, (counted (threeCounts 0 1 2 ++ []) true j : Int) -
          ∑ j, (counted (threeCounts 0 1 2 ++ []) false j : Int) := by
  obtain ⟨final, hrun, hfinal⟩ : ∃ final,
      run (step ![7, 3, 9]) (threeCounts 0 1 2) (start ![7, 3, 9] ![3, 4, 3]) = some final ∧
      ∀ j ≠ 2, ∀ isIncrement, counted (threeCounts 0 1 2 ++ []) isIncrement j = 0 ∨
        ∃ message ∈ final.processed 2, message.Carries (![7, 3, 9] j) isIncrement
          (counted (threeCounts 0 1 2 ++ []) isIncrement j) := by
    decide +kernel
  refine ⟨final, hrun, ?_⟩
  exact (counters_agree (by decide) (by decide) hrun rfl).2.2.2 2 hfinal (by decide) (by decide)

end MemDb
