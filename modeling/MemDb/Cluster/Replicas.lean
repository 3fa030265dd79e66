import MemDb.Operators.Sets
import MemDb.Server.TCPServer
import MemDb.Lib.Run
import Mathlib.Data.List.FinRange
import Mathlib.Logic.Function.Basic

/-! # A cluster of replicas

    The nodes of a cluster in replication mode without partitions, and the requests that they
    broadcast to each other. A node that executes a write successfully broadcasts it to all other
    nodes, also when the write came from another node. Every message in flight can be delivered
    next; it arrives as the request that was sent, with the authentication type that its key stands
    for.
-/

namespace MemDb

open List Function

/-! ### The cluster -/

/-- A request on its way to a node. -/
structure Message (n : Nat) where
  target : Fin n
  request : Request
deriving DecidableEq

structure Cluster (n : Nat) where
  nodes : Fin n → Node
  inFlight : List (Message n)

/-- What can happen next: a client sends a request to a node, or the message at a position among
    those in flight is delivered. -/
inductive Event (n : Nat) where
  | client (node : Fin n) (request : Request)
  | deliver (position : Nat)

namespace Cluster

variable {n : Nat}

/-- The messages of `broadcastAndWait`: every other node gets each request. -/
def sendAll (sender : Fin n) (outbox : List (UInt32 × Request)) : List (Message n) :=
  outbox.flatMap fun sent =>
    ((finRange n).erase sender).map fun target => ⟨target, sent.2⟩

variable (configs : Fin n → Configuration) (others : UInt8 → Option Operator)

/-- A request arrives at a node, and the node sends what it broadcasts. -/
def handle (i : Fin n) (request : Request) (cluster : Cluster n) : Option (Cluster n) :=
  (TCPServer.onDeserialized (configs i) others request (cluster.nodes i)).map fun result =>
    { nodes := update cluster.nodes i result.1.flush
      inFlight := cluster.inFlight ++ sendAll i result.1.outbox }

/-- The message at a position leaves the network and arrives. -/
def deliver (position : Nat) (cluster : Cluster n) : Option (Cluster n) :=
  cluster.inFlight[position]?.bind fun message =>
    handle configs others message.target message.request
      { cluster with inFlight := cluster.inFlight.eraseIdx position }

def step : Event n → Cluster n → Option (Cluster n)
  | .client i request, cluster => cluster.handle configs others i request
  | .deliver position, cluster => cluster.deliver configs others position

end Cluster

/-! ### Copies of a write -/

/-- The configurations of a cluster in replication mode without partitions, with one key for its
    nodes that is not the key of the users. -/
structure Replicated {n : Nat} (configs : Fin n → Configuration) : Prop where
  useReplication : ∀ i, (configs i).useReplication = true
  usePartitions : ∀ i, (configs i).usePartitions = false
  authNodeKey : ∀ i j, (configs i).authNodeKey = (configs j).authNodeKey
  authApiUserKey : ∀ i, (configs i).authApiUserKey ≠ (configs i).authNodeKey

/-- A broadcast of `SET key value` by node `k` with the counter `counter`. -/
structure Request.IsCopy {n : Nat} (configs : Fin n → Configuration) (request : Request)
    (key value : SimpleString) (k : Fin n) (counter : UInt64) : Prop where
  authKey : request.authentication.authKey = (configs k).authNodeKey
  isSet : request.IsSet key value
  nodeId : request.operation.nodeId = (configs k).nodeId
  timestamp : request.operation.timestamp = counter

/-- Every other node is sent such a broadcast by node `i`. -/
structure Sends {n : Nat} (configs : Fin n → Configuration) (i : Fin n) (key value : SimpleString)
    (counter : UInt64) (messages : List (Message n)) : Prop where
  length : messages.length = n - 1
  isCopy : ∀ message ∈ messages, message.request.IsCopy configs key value i counter

section copies
variable {n : Nat} {configs : Fin n → Configuration} {key value : SimpleString} {counter : UInt64}
  {k : Fin n} {request : Request} {cluster : Cluster n}

theorem sends_prepareRequest (i : Fin n) {operation : OperationBody}
    (hnumber : operation.operatorNumber = OperatorNumbers.SET)
    (hargs : ∃ rest, operation.args = some (key :: value :: rest)) :
    Sends configs i key value counter (Cluster.sendAll i
      [(0, prepareRequest (configs i) { operation with timestamp := counter })]) := by
  constructor
  · have hothers := length_erase_of_mem (mem_finRange i)
    simp [Cluster.sendAll, hothers]
  · intro message hmessage
    simp only [Cluster.sendAll, flatMap_cons, flatMap_nil, append_nil,
      mem_map] at hmessage
    obtain ⟨target, -, rfl⟩ := hmessage
    exact ⟨rfl, ⟨hnumber, hargs⟩, rfl, rfl⟩

/-! ### Delivering a copy -/

/-- What a node does with a copy of a write that node `k` broadcast. -/
inductive CopyOutcome (configs : Fin n → Configuration) (key value : SimpleString) (k i : Fin n)
    (counter : UInt64) (before after : Node) (sent : List (Message n)) : Prop where
  /-- The copy is stored and broadcast again. -/
  | accepted
      (older : ∀ entry, before.view ((configs i).calculateHash key) = some entry →
        ∃ d, entry.data = .data d ∧ d.timestamp ≤ ⟨(configs k).nodeId, counter⟩)
      (view : after.view = before.view.put key ((configs i).calculateHash key)
        ⟨value, ⟨(configs k).nodeId, counter⟩⟩)
      (clock : after.clock = (before.clock.update .SET_MAX counter).1)
      (sends : Sends configs i key value counter sent)
  /-- The copy is refused, and that is the end of it. -/
  | reported
      (newer : ∃ entry, before.view ((configs i).calculateHash key) = some entry ∧
        ∀ d, entry.data = .data d → ⟨(configs k).nodeId, counter⟩ < d.timestamp)
      (atRoot : before.atRoot ((configs i).calculateHash key) = true)
      (view : after.view = before.view) (clock : after.clock = before.clock)
      (sends : sent = [])
  /-- The copy is refused and broadcast again. -/
  | unreported
      (newer : ∃ entry, before.view ((configs i).calculateHash key) = some entry ∧
        ∀ d, entry.data = .data d → ⟨(configs k).nodeId, counter⟩ < d.timestamp)
      (atRoot : before.atRoot ((configs i).calculateHash key) = false)
      (view : after.view = before.view) (clock : after.clock = before.clock)
      (sends : Sends configs i key value counter sent)

/-- A delivered copy has the type `NODE`: its timestamp is checked, and kept when it is stored. -/
theorem setStamp_copy (config : Configuration) (hcopy : request.IsCopy configs key value k counter)
    (clock : LamportClock) :
    setTimestamp config { request with authenticationType := .NODE } =
        ⟨(configs k).nodeId, counter⟩ ∧
      setStamp config { request with authenticationType := .NODE } clock =
        ⟨(configs k).nodeId, counter⟩ := by
  rw [← hcopy.nodeId, ← hcopy.timestamp]
  exact ⟨rfl, rfl⟩

theorem Cluster.handle_copy (others : UInt8 → Option Operator)
    (hconfigs : Replicated configs) {i : Fin n} (hready : (cluster.nodes i).Ready)
    (hcopy : request.IsCopy configs key value k counter) :
    ∃ after sent, cluster.handle configs others i request =
        some ⟨update cluster.nodes i after, cluster.inFlight ++ sent⟩ ∧
      after.Ready ∧
      CopyOutcome configs key value k i counter (cluster.nodes i) after sent := by
  have hkey := hcopy.authKey.trans (hconfigs.authNodeKey k i)
  have hset : { request with authenticationType := .NODE }.IsSet key value := hcopy.isSet
  obtain ⟨htimestamp, hstamp⟩ := setStamp_copy (configs i) hcopy (cluster.nodes i).clock
  have haccepts : (cluster.nodes i).acceptsSet (configs i)
      { request with authenticationType := .NODE } key =
        (cluster.nodes i).view.accepts ((configs i).calculateHash key)
          ⟨(configs k).nodeId, counter⟩ .SET_MAX true := by
    rw [← htimestamp]
    rfl
  unfold Cluster.handle
  rw [TCPServer.onDeserialized_node others hkey (hconfigs.authApiUserKey i)]
  obtain ⟨node', response, hdispatch, hready', hcases⟩ := dispatch_set_spec others
    (hconfigs.useReplication i) (hconfigs.usePartitions i) hready hset
  refine ⟨node'.flush, Cluster.sendAll i node'.outbox, by rw [hdispatch]; rfl, hready', ?_⟩
  rcases hcases with ⟨hacc, hview, hclock, houtbox⟩ | ⟨hacc, hview, hclock, houtbox⟩
  · rw [hstamp] at hview houtbox
    rw [htimestamp] at hclock
    refine .accepted ?_ hview hclock ?_
    · exact accepts_eq_true_iff.mp (haccepts ▸ hacc)
    · rw [houtbox]
      exact sends_prepareRequest i hset.1 hset.2
  · have hnewer := accepts_eq_false_iff.mp (haccepts ▸ hacc)
    -- a refusal at the root is an error and ends there; elsewhere it is broadcast on
    cases hroot : (cluster.nodes i).atRoot ((configs i).calculateHash key) with
    | true =>
      refine .reported hnewer hroot hview hclock ?_
      rw [houtbox, if_pos hroot]
      rfl
    | false =>
      refine .unreported hnewer hroot hview hclock ?_
      have hcounter : (if (setOptions (configs i)
          { request with authenticationType := .NODE }).fromClient then 0
            else request.operation.timestamp) = counter := hcopy.timestamp
      rw [houtbox, hroot, hcounter]
      exact sends_prepareRequest i hset.1 hset.2

theorem Cluster.deliver_copy (others : UInt8 → Option Operator)
    (hconfigs : Replicated configs) {position : Nat} {message : Message n}
    (hready : (cluster.nodes message.target).Ready)
    (hmessage : cluster.inFlight[position]? = some message)
    (hcopy : message.request.IsCopy configs key value k counter) :
    ∃ after sent, cluster.deliver configs others position =
        some ⟨update cluster.nodes message.target after,
          cluster.inFlight.eraseIdx position ++ sent⟩ ∧
      after.Ready ∧
      CopyOutcome configs key value k message.target counter (cluster.nodes message.target) after
        sent := by
  unfold Cluster.deliver
  rw [hmessage]
  have hready' : (({ cluster with inFlight := cluster.inFlight.eraseIdx position } :
      Cluster n).nodes message.target).Ready := hready
  exact Cluster.handle_copy others hconfigs hready' hcopy

/-! ### Requests of clients -/

/-- What a node does with `SET key value` of a client. -/
inductive ClientOutcome (configs : Fin n → Configuration) (key value : SimpleString) (i : Fin n)
    (request : Request) (before after : Node) (sent : List (Message n)) : Prop where
  /-- The write is stored under the new counter of the clock and broadcast with it. -/
  | accepted
      (clock : after.clock = (before.clock.update .TICK request.operation.timestamp).1)
      (view : after.view = before.view.put key ((configs i).calculateHash key)
        ⟨value, ⟨(configs i).nodeId, after.clock.counter⟩⟩)
      (sends : Sends configs i key value after.clock.counter sent)
  /-- The key holds a counter. The refusal is reported, or it is broadcast as a write at counter
      0. -/
  | refused
      (counter : ∃ entry count, before.view ((configs i).calculateHash key) = some entry ∧
        entry.data = .counter count)
      (view : after.view = before.view) (clock : after.clock = before.clock)
      (sends : sent = [] ∨ Sends configs i key value 0 sent)

theorem Cluster.handle_client (others : UInt8 → Option Operator)
    (hconfigs : Replicated configs) {i : Fin n} (hready : (cluster.nodes i).Ready)
    (huser : request.FromUser (configs i)) (hset : request.IsSet key value) :
    ∃ after sent, cluster.handle configs others i request =
        some ⟨update cluster.nodes i after, cluster.inFlight ++ sent⟩ ∧
      after.Ready ∧
      ClientOutcome configs key value i request (cluster.nodes i) after sent := by
  have hset' : { request with authenticationType := .USER }.IsSet key value := hset
  unfold Cluster.handle
  rw [TCPServer.onDeserialized_user others huser]
  obtain ⟨node', response, hdispatch, hready', hcases⟩ := dispatch_set_spec others
    (hconfigs.useReplication i) (hconfigs.usePartitions i) hready hset'
  refine ⟨node'.flush, Cluster.sendAll i node'.outbox, by rw [hdispatch]; rfl, hready', ?_⟩
  rcases hcases with ⟨hacc, hview, hclock, houtbox⟩ | ⟨hacc, hview, hclock, houtbox⟩
  · have hstamp : setStamp (configs i) { request with authenticationType := .USER }
        (cluster.nodes i).clock = ⟨(configs i).nodeId, node'.clock.counter⟩ := by
      rw [hclock]
      rfl
    rw [hstamp] at hview houtbox
    refine .accepted hclock hview ?_
    rw [houtbox]
    exact sends_prepareRequest i hset.1 hset.2
  · refine .refused ?_ hview hclock ?_
    · -- only a counter refuses a write whose timestamp is not checked
      unfold Node.acceptsSet View.accepts at hacc
      split at hacc
      · exact absurd hacc (by decide)
      · next entry hentry =>
        cases hdata : entry.data with
        | counter count => exact ⟨entry, count, hentry, hdata⟩
        | data d =>
          simp [AVLTree.refuses, hdata, setOptions, optionsOfRequest] at hacc
    · rw [houtbox]
      split
      · exact .inl rfl
      · exact .inr (sends_prepareRequest i hset.1 hset.2)

end copies

/-! ### Small clusters -/

/-- Nodes with the ids 1, 2 and so on. -/
def numberedNodes (n : Nat) (i : Fin n) : Configuration :=
  { firstNode with nodeId := UInt16.ofNat (i + 1) }

def emptyCluster (n : Nat) : Cluster n where
  nodes i := emptyNode .RUNNING (UInt16.ofNat (i + 1))
  inFlight := []

/-- `SET k value` of a user. -/
def userSet (value : SimpleString) : Request where
  authentication := ⟨firstNode.authApiUserKey, false, false⟩
  operation :=
    { args := some [[107], value]
      timestamp := 0
      nodeId := 1
      operatorNumber := OperatorNumbers.SET
      flag1 := false
      flag2 := false }
  requestNumber := 0
  authenticationType := .USER

theorem replicated_numberedNodes (n : Nat) : Replicated (numberedNodes n) :=
  ⟨fun _ => rfl, fun _ => rfl, fun _ _ => rfl,
    fun _ => show firstNode.authApiUserKey ≠ firstNode.authNodeKey by decide⟩

theorem ready_emptyCluster (n : Nat) (i : Fin n) : ((emptyCluster n).nodes i).Ready :=
  ⟨rfl, rfl, rfl, Map.new 1 (by decide), rfl, Map.wellFormed_new 1 (by decide)⟩

theorem view_emptyCluster (n : Nat) (i : Fin n) (h : UInt32) :
    ((emptyCluster n).nodes i).view h = none := by
  have hstore : ((emptyCluster n).nodes i).memDbStores 0 = some (Map.new 1 (by decide)) := rfl
  rw [view_of_store hstore]
  exact Map.view_new 1 (by decide) h

theorem fromUser_userSet {n : Nat} (i : Fin n) (value : SimpleString) :
    (userSet value).FromUser (numberedNodes n i) :=
  ⟨rfl, rfl⟩

theorem isSet_userSet (value : SimpleString) : (userSet value).IsSet [107] value :=
  ⟨rfl, [], rfl⟩

end MemDb
