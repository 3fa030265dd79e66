import MemDb.Operators.OneStore

/-! # Requests that are answered

    A server gets requests for the operators on data. It answers one when the dispatcher returns;
    besides a throw of the operator, three things keep it from returning. `Map::updateCounter`
    leaves the lock of the bucket held where it finds a value under the key, and whoever asks for
    that lock afterwards waits forever. A counter that was updated is replicated through
    `clusterNodes`, which is null on a server without replication. And before a write of another
    node the dispatcher sends that node the requests that were kept for it, which it cannot read
    back.
-/

namespace MemDb

open Lib.Run OperatorNumbers Option List ErrorCode

/-- A node, the buckets of its store whose lock is never given back, and the nodes for which its
    `HintsService` keeps requests that could not be sent. -/
structure ServingNode where
  node : Node
  lockedBuckets : List Nat
  hintsByNodeId : List UInt16

section serve
variable (config : Configuration) (nNodes : UInt32)

/-- The registry of a server on its own; nobody answers a `CAS`. -/
def serverOperators : UInt8 → Option Operator :=
  keyOperators config nNodes ⟨[], false⟩

/-- The request passes the checks of the dispatcher on its operator and its sender. -/
def reachesOperator (request : Request) : Bool :=
  (operatorRegistry config (serverOperators config nNodes)
    request.operation.operatorNumber).any (isAuthorizedToExecute · request.authenticationType)

/-- The bucket of a key in the store of the node. -/
def bucketOf (key : SimpleString) (node : Node) : Option Nat :=
  (node.memDbStores 0).map fun m => m.bucketIndex (config.calculateHash key)

/-- The operator of the request waits for a lock that is never given back; `contains` takes none. -/
def blocked (request : Request) (state : ServingNode) : Bool :=
  request.operation.operatorNumber != CONTAINS &&
    ((request.operation.getArg 0).bind (bucketOf config · state.node)).any
      (state.lockedBuckets.contains ·)

/-- `checkHintedHandoff` before a write of another node finds requests for it. Their iterator opens
    the directory of the file in place of the file, and throws. -/
def checkHintedHandoff (request : Request) (state : ServingNode) : Bool :=
  config.useReplication && [SET, DEL].contains
      request.operation.operatorNumber &&
    decide (request.authenticationType = .NODE) &&
    state.hintsByNodeId.contains request.operation.nodeId

/-- The locks after a request: an update of a counter that finds a value keeps the one of its
    bucket. -/
def locksAfter (request : Request) (response : Response) (state : ServingNode) : List Nat :=
  if request.operation.operatorNumber = UPDATE_COUNTER ∧
      response.errorCode = INVALID_TYPE then
    ((request.operation.getArg 0).bind (bucketOf config · state.node)).toList ++ state.lockedBuckets
  else state.lockedBuckets

/-- `dispatch` on such a server. -/
def serve (request : Request) (state : ServingNode) : Option (ServingNode × Response) :=
  if reachesOperator config nNodes request &&
      (blocked config request state || checkHintedHandoff config request state) then none
  else (dispatch config (serverOperators config nNodes) request state.node).bind
    fun result =>
      -- `replicate` follows the null pointer `clusterNodes`
      if request.operation.operatorNumber = UPDATE_COUNTER ∧
          result.2.isSuccessful = true ∧ config.useReplication = false then none
      else some ({ state with
        node := result.1
        lockedBuckets := locksAfter config request result.2 state }, result.2)

/-- A request comes in, or one that was broadcast has not reached a node. -/
inductive ServerEvent
  | received (request : Request)
  | unsent (nodeId : UInt16)
deriving DecidableEq

def serveStep : ServerEvent → ServingNode → Option ServingNode
  | .received request, state => (serve config nNodes request state).map Prod.fst
  | .unsent nodeId, state => some { state with hintsByNodeId := nodeId :: state.hintsByNodeId }

/-- A server without entries and locks that executes what is dispatched to it. -/
structure ServingNode.Start (state : ServingNode) : Prop where
  executes : canExecuteRequest config state.node = true
  buffer : state.node.delayedOperationsBuffer = []
  store : ∃ m, state.node.memDbStores 0 = some m ∧ m.WellFormed ∧ ∀ h, m.view h = none
  unlocked : state.lockedBuckets = []

end serve

/-! ### Counters that only this node counts in -/

namespace Counter

/-- The node alone has counted in the counter, so many times each way. -/
structure CountsAlone (nodeId : UInt16) (c : Counter) (counted : Bool → Nat) : Prop where
  assigned : c.Assigned {nodeId}
  selfNodeId : c.selfNodeId = nodeId
  value : ∀ kind, c.value kind nodeId = counted kind

variable {c : Counter} {nodeId : UInt16} {counted : Bool → Nat} {nNodes : UInt32}

theorem Assigned.value_of_not_mem {members : Finset UInt16} (h : c.Assigned members)
    (isIncrement : Bool) {id : UInt16} (hid : id ∉ members) : c.value isIncrement id = 0 := by
  apply value_eq_zero
  intro hin
  obtain ⟨p, hp, rfl⟩ := mem_map.mp (mem_toFinset.mp hin)
  exact hid (h.mem p hp)

theorem countsAlone_new (hnodes : 0 < nNodes.toNat) :
    (Counter.new nodeId nNodes).CountsAlone nodeId fun _ => 0 :=
  ⟨assigned_new (Finset.mem_singleton_self _) (by rwa [Finset.card_singleton]), rfl,
    fun _ => value_new ..⟩

section
variable (h : CountsAlone nodeId c counted)
include h

/-- Such a counter has a count, and it is that of the node. -/
theorem CountsAlone.count (hsmall : ∀ kind, counted kind < 2 ^ 63) :
    ∃ total, c.count = some total ∧ total.toInt = (counted true : Int) - counted false := by
  have hnonneg : ∀ kind id, 0 ≤ c.value kind id := by
    intro kind id
    by_cases hid : id = nodeId
    · rw [hid, h.value]
      exact Int.natCast_nonneg _
    · rw [h.assigned.value_of_not_mem kind (by simpa using hid)]
  have hspec := h.assigned.count_spec hnonneg
  rw [Finset.sum_singleton, Finset.sum_singleton, h.value, h.value] at hspec
  have hinc := hsmall true
  have hdec := hsmall false
  exact hspec (by omega) (by omega)

/-- An update counts once more in the counter that it finds or adds. -/
theorem CountsAlone.updateCounter {calculateHash : SimpleString → UInt32} {m : Map}
    (hwf : m.WellFormed) {key : SimpleString}
    (hdata : (m.view.withCounter key (calculateHash key) nodeId nNodes).data = .counter c)
    (isIncrement : Bool) (hsmall : counted isIncrement + 1 < 2 ^ 63) :
    ∃ m' v entry edited,
      m.updateCounter calculateHash key nodeId nNodes isIncrement = some (m', some v) ∧
      m'.WellFormed ∧ m'.view = Function.update m.view (calculateHash key) (some entry) ∧
      entry.data = .counter edited ∧ edited.CountsAlone nodeId
        fun kind => counted kind + if kind = isIncrement then 1 else 0 := by
  obtain ⟨edited, v, hown⟩ := h.assigned.updateOwn_isSome isIncrement
    (by rw [h.selfNodeId, h.value]; omega)
  obtain ⟨hassigned, hself, hv, hvalues⟩ := h.assigned.updateOwn_spec hown
  obtain ⟨written, hupdate, hwritten⟩ := Map.updateCounter_counter hwf hdata isIncrement
  rw [hown] at hupdate
  obtain ⟨hwf', hview⟩ := hwritten edited
  refine ⟨_, v, _, edited, hupdate, hwf', hview, rfl, hassigned, hself.trans h.selfNodeId, ?_⟩
  intro kind
  rw [hvalues, setValue, hv, h.selfNodeId, h.value, h.value]
  by_cases hkind : kind = isIncrement
  · simp [hkind]
  · simp [hkind]

end

end Counter

/-! ### What the operators do to the store -/

/-- Every counter of the store has counted for the node alone, at most `k` times each way. -/
def Map.CountsUpTo (m : Map) (nodeId : UInt16) (k : Nat) : Prop :=
  ∀ h entry c, m.view h = some entry → entry.data = .counter c →
    ∃ counted, c.CountsAlone nodeId counted ∧ ∀ kind, counted kind ≤ k

section counts
variable {m m' : Map} {nodeId : UInt16} {k : Nat}

theorem Map.CountsUpTo.mono (h : m.CountsUpTo nodeId k) {k' : Nat} (hk : k ≤ k') :
    m.CountsUpTo nodeId k' := by
  intro hash entry c hentry hc
  obtain ⟨counted, hcounted, hle⟩ := h hash entry c hentry hc
  exact ⟨counted, hcounted, fun kind => (hle kind).trans hk⟩

/-- An edit that adds no counter. -/
theorem Map.CountsUpTo.of_view (h : m.CountsUpTo nodeId k)
    (hview : ∀ hash entry, m'.view hash = some entry → m.view hash = some entry ∨
      ∃ d, entry.data = .data d) : m'.CountsUpTo nodeId k := by
  intro hash entry c hentry hc
  rcases hview hash entry hentry with hold | ⟨d, hd⟩
  · exact h hash entry c hold hc
  · rw [hd] at hc
    cases hc

/-- The counter that an update finds or adds, where there is no value under the key. -/
theorem Map.CountsUpTo.withCounter (hcounts : m.CountsUpTo nodeId k) {nNodes : UInt32}
    (hnodes : 0 < nNodes.toNat) {h : UInt32} (key : SimpleString)
    (hvalue : ((m.view h).bind fun entry => entry.data.asData) = none) :
    ∃ c counted, (m.view.withCounter key h nodeId nNodes).data = .counter c ∧
      c.CountsAlone nodeId counted ∧ ∀ kind, counted kind ≤ k := by
  unfold View.withCounter
  cases hview : m.view h with
  | none => exact ⟨_, _, rfl, Counter.countsAlone_new hnodes, fun _ => Nat.zero_le k⟩
  | some entry =>
    cases hdata : entry.data with
    | data d => simp [hview, hdata, NodeData.asData] at hvalue
    | counter c =>
      obtain ⟨counted, hcounted⟩ := hcounts h entry c hview hdata
      exact ⟨c, counted, hdata, hcounted⟩

end counts

/-! ### What the operators return -/

/-- A node that executes requests at once, whose counters have counted at most `k` times each
    way. -/
structure Node.Serves (config : Configuration) (k : Nat) (node : Node) : Prop where
  executes : canExecuteRequest config node = true
  buffer : node.delayedOperationsBuffer = []
  store : ∃ m, node.memDbStores 0 = some m ∧ m.WellFormed ∧ m.CountsUpTo config.nodeId k

section operators
variable {config : Configuration} {nNodes : UInt32} {quorums : CasQuorums}
  {number : UInt8} {operator : Operator} {operation : OperationBody} {options : OperationOptions}
  {node node' : Node} {m : Map} {k : Nat} {key : SimpleString}

theorem Node.Serves.setStore (hserves : node.Serves config k) {m' : Map} (hwf : m'.WellFormed)
    {k' : Nat} (hcounts : m'.CountsUpTo config.nodeId k') (clock : LamportClock) :
    (node.setStore 0 m' clock).Serves config k' := by
  have hstore : (node.setStore 0 m' clock).memDbStores 0 = some m' := by
    simp [Node.setStore]
  exact ⟨hserves.executes, hserves.buffer, m', hstore, hwf, hcounts⟩

theorem Node.Serves.mono (hserves : node.Serves config k) {k' : Nat} (hk : k ≤ k') :
    node.Serves config k' := by
  obtain ⟨m, hm, hwf, hcounts⟩ := hserves.store
  exact ⟨hserves.executes, hserves.buffer, m, hm, hwf, hcounts.mono hk⟩

end operators

/-! ### One request -/

section requests
variable {config : Configuration} {nNodes : UInt32} {request : Request}
  {operator : Operator} {state next : ServingNode} {node : Node} {k : Nat} {key : SimpleString}
  {response : Response}

section
variable (hserves : node.Serves config k) (hpartitions : config.usePartitions = false)
  (hregistry : operatorRegistry config (serverOperators config nNodes)
    request.operation.operatorNumber = some operator)
  (hauthorized : isAuthorizedToExecute operator request.authenticationType = true)
include hserves hpartitions hregistry hauthorized

end

section
variable (hserves : state.node.Serves config k) (hk : k + 1 < 2 ^ 63)
  (hnodes : 0 < nNodes.toNat) (hpartitions : config.usePartitions = false)
include hserves hk hnodes hpartitions

end

end requests

/-! ### Whole runs -/

theorem ServingNode.Start.serves {config : Configuration} {start : ServingNode}
    (hstart : start.Start config) : start.node.Serves config 0 := by
  obtain ⟨m, hm, hwf, hempty⟩ := hstart.store
  refine ⟨hstart.executes, hstart.buffer, m, hm, hwf, ?_⟩
  intro h entry c hentry
  rw [hempty] at hentry
  cases hentry

/-- The server before its first request. -/
def emptyServer : ServingNode := ⟨emptyNode .RUNNING 1, [], []⟩

end MemDb
