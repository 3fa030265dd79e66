import MemDb.Operators.Cas
import MemDb.Cluster.Replicas
import MemDb.Lib.Election

/-! # Compare and set in a cluster

    Calls of `CAS` at the nodes of a cluster, with the requests and responses they exchange. Every
    broadcast sends one request to each other node, which answers with one response; both can take
    any time, or get lost. A node is a proposer and an acceptor at once, and what it accepts as an
    acceptor is not checked against its own proposal. Two calls can therefore both succeed; they
    cannot when no node accepts another proposal below its own.

    A send can also fail. `broadcastAndWait` reads `isSuccessful` of what `sendRequest` returns
    before it looks for an error, and with an error that field is not initialized: a failed send
    counts as a success or not, whether or not the request has arrived.
-/

namespace MemDb

open Lib.Run

/-! ### The system -/

/-- A request of a broadcast to one node, and what has become of it. -/
inductive Exchange where
  | unsent
  /-- `response` is that of the target, once the request has arrived there, and `isSuccessful` is
      what `broadcastAndWait` has read when `sendRequest` returned. -/
  | sent (request : Request) (response : Option Response) (isSuccessful : Option Bool)
deriving DecidableEq

structure CasCluster (n : Nat) where
  nodes : Fin n → Node
  /-- The call of `CAS` at a node, if there has been one. -/
  calls : Fin n → Option CasCall
  /-- Who broadcast, the number of the broadcast, and who gets the request. -/
  exchanges : Fin n → Nat → Fin n → Exchange

/-- What can happen next. -/
inductive CasEvent (n : Nat) where
  /-- A client calls `CAS` at a node. -/
  | call (i : Fin n) (operation : OperationBody)
  /-- A request arrives at its target. -/
  | request (proposer : Fin n) (broadcast : Nat) (target : Fin n)
  /-- A response arrives at the proposer. -/
  | response (proposer : Fin n) (broadcast : Nat) (target : Fin n)
  /-- `sendRequest` returns an error, of which `isSuccessful` is read. -/
  | failure (proposer : Fin n) (broadcast : Nat) (target : Fin n) (isSuccessful : Bool)
  /-- The wait for promises has timed out. -/
  | retry (i : Fin n)
  /-- There is a quorum of promises. -/
  | promised (i : Fin n)
  /-- The wait for accepts has timed out. -/
  | timeout (i : Fin n)
  /-- There is a quorum of accepts. -/
  | commit (i : Fin n)
  /-- The node does something else. -/
  | other (i : Fin n) (after : Node)

/-- The request of an exchange. -/
def Exchange.request? : Exchange → Option Request
  | .unsent => none
  | .sent request _ _ => some request

/-- The latch of the broadcast has been increased. -/
def Exchange.counts : Exchange → Bool
  | .unsent => false
  | .sent _ _ isSuccessful => isSuccessful.getD false

namespace CasCluster

variable {n : Nat} (configs : Fin n → Configuration)

/-- `broadcastAndWait`: the request goes to all other nodes. -/
def broadcast (i : Fin n) (number : Nat) (operation : OperationBody)
    (exchanges : Fin n → Nat → Fin n → Exchange) : Fin n → Nat → Fin n → Exchange :=
  fun proposer broadcast target =>
    if proposer = i ∧ broadcast = number ∧ target ≠ i then
      .sent (prepareRequest (configs i) operation) none none
    else exchanges proposer broadcast target

def setExchange (proposer : Fin n) (broadcast : Nat) (target : Fin n) (exchange : Exchange)
    (cluster : CasCluster n) : CasCluster n :=
  { cluster with exchanges := fun p b t =>
      if p = proposer ∧ b = broadcast ∧ t = target then exchange else cluster.exchanges p b t }

def setCall (i : Fin n) (call : CasCall) (cluster : CasCluster n) : CasCluster n :=
  { cluster with calls := Function.update cluster.calls i (some call) }

def setNode (i : Fin n) (node : Node) (cluster : CasCluster n) : CasCluster n :=
  { cluster with nodes := Function.update cluster.nodes i node }

/-- The latch of the last broadcast. -/
def successfulResponses (i : Fin n) (call : CasCall) (cluster : CasCluster n) : Nat :=
  ((List.finRange n).filter fun target =>
    (cluster.exchanges i call.broadcasts target).counts).length

/-- The call at a node, if it is waiting in the given state. -/
def waiting (i : Fin n) (state : ProposerPaxosState) (cluster : CasCluster n) : Option CasCall :=
  (cluster.calls i).filter fun call => call.response == none && call.state == state

/-- A pass of the loop of `sendRetriesPrepares`. -/
def prepare (i : Fin n) (call : CasCall) (cluster : CasCluster n) : Option (CasCluster n) :=
  (call.prepare (configs i) (cluster.nodes i)).map fun (call, operation) =>
    { cluster.setCall i call with
      exchanges := operation.elim cluster.exchanges fun operation =>
        broadcast configs i call.broadcasts operation cluster.exchanges }

/-- A wait may time out at any moment before its quorum is complete, so that `retry` and `timeout`
    do not look at the responses. -/
def step : CasEvent n → CasCluster n → Option (CasCluster n)
  | .call i operation, cluster =>
    if (cluster.calls i).isNone then
      (CasCall.start operation (cluster.nodes i).clock).bind (prepare configs i · cluster)
    else none
  | .request proposer broadcast target, cluster =>
    match cluster.exchanges proposer broadcast target with
    | .sent request none isSuccessful =>
      (TCPServer.onDeserialized (configs target) (casOperators (configs target)) request
          (cluster.nodes target)).map fun (node, response) =>
        (cluster.setNode target node).setExchange proposer broadcast target
          (.sent request (some response) isSuccessful)
    | _ => none
  | .response proposer broadcast target, cluster =>
    match cluster.exchanges proposer broadcast target with
    | .sent request (some response) none =>
      some (cluster.setExchange proposer broadcast target
        (.sent request (some response) (some response.isSuccessful)))
    | _ => none
  | .failure proposer broadcast target isSuccessful, cluster =>
    match cluster.exchanges proposer broadcast target with
    | .sent request response none =>
      some (cluster.setExchange proposer broadcast target
        (.sent request response (some isSuccessful)))
    | _ => none
  | .retry i, cluster =>
    (cluster.waiting i .WAITING_FOR_PROMISE).bind (prepare configs i · cluster)
  | .promised i, cluster =>
    ((cluster.waiting i .WAITING_FOR_PROMISE).filter fun call =>
        waitForSuccessfulQuorum (n - 1) (cluster.successfulResponses i call)).map fun call =>
      let (call, operation) := call.accept (configs i)
      { cluster.setCall i call with
        exchanges := broadcast configs i call.broadcasts operation cluster.exchanges }
  | .timeout i, cluster =>
    (cluster.waiting i .WAITING_FOR_ACCEPT).map fun call => cluster.setCall i call.abort
  | .commit i, cluster =>
    ((cluster.waiting i .WAITING_FOR_ACCEPT).filter fun call =>
        waitForSuccessfulQuorum (n - 1) (cluster.successfulResponses i call)).bind fun call =>
      (call.commit (configs i) (cluster.nodes i)).map fun (call, node) =>
        (cluster.setCall i call).setNode i node
  | .other i after, cluster => some (cluster.setNode i after)

/-! ### What a step does to an exchange -/

section
variable {configs} {cluster cluster' : CasCluster n} {p t : Fin n} {b : Nat}

theorem step_request (h : step configs (.request p b t) cluster = some cluster') :
    ∃ request isSuccessful node response,
      cluster.exchanges p b t = .sent request none isSuccessful ∧
      TCPServer.onDeserialized (configs t) (casOperators (configs t)) request (cluster.nodes t) =
        some (node, response) ∧
      cluster' = (cluster.setNode t node).setExchange p b t
        (.sent request (some response) isSuccessful) := by
  simp only [step] at h
  split at h
  · next request isSuccessful hexchange =>
    obtain ⟨⟨node, response⟩, hresult, rfl⟩ := Option.map_eq_some_iff.mp h
    exact ⟨request, isSuccessful, node, response, hexchange, hresult, rfl⟩
  · cases h

theorem step_response (h : step configs (.response p b t) cluster = some cluster') :
    ∃ request response, cluster.exchanges p b t = .sent request (some response) none ∧
      cluster' = cluster.setExchange p b t
        (.sent request (some response) (some response.isSuccessful)) := by
  simp only [step] at h
  split at h
  · next request response hexchange =>
    cases h
    exact ⟨request, response, hexchange, rfl⟩
  · cases h

theorem step_failure {isSuccessful : Bool}
    (h : step configs (.failure p b t isSuccessful) cluster = some cluster') :
    ∃ request response, cluster.exchanges p b t = .sent request response none ∧
      cluster' = cluster.setExchange p b t (.sent request response (some isSuccessful)) := by
  simp only [step] at h
  split at h
  · next request response hexchange =>
    cases h
    exact ⟨request, response, hexchange, rfl⟩
  · cases h

end

end CasCluster

end MemDb
