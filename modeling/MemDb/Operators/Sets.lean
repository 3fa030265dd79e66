import MemDb.Operators.Writes

/-! # `SET` at a running node

    A node that runs, has nothing delayed and has sent all its broadcasts is ready for the next
    request. What it stores is a view, and a `SET` that is dispatched to it either changes the view
    at one hash or is refused. All that the cluster sees of it is in `dispatch_set_spec`.
-/

namespace MemDb

open Option

/-! ### Nodes that are ready -/

/-- What a node stores; without partitions all of it is in store 0. -/
def Node.view (node : Node) : View := (node.memDbStores 0).elim (fun _ => none) Map.view

/-- The entry under the hash is at the root of its bucket, where a refusal is reported. -/
def Node.atRoot (node : Node) (h : UInt32) : Bool :=
  (node.memDbStores 0).elim false fun m => decide (m.atRoot h)

/-- A node between two requests: it runs, nothing is delayed and all that it broadcast is sent. -/
structure Node.Ready (node : Node) : Prop where
  running : node.nodeState = .RUNNING
  buffer : node.delayedOperationsBuffer = []
  outbox : node.outbox = []
  store : ∃ m, node.memDbStores 0 = some m ∧ m.WellFormed

/-- The node after its broadcasts have been handed to the network. -/
def Node.flush (node : Node) : Node := { node with outbox := [] }

/-- `SET key value`; further arguments are ignored. -/
def Request.IsSet (request : Request) (key value : SimpleString) : Prop :=
  request.operation.operatorNumber = OperatorNumbers.SET ∧
    ∃ rest, request.operation.args = some (key :: value :: rest)

variable {key value : SimpleString} {node : Node} {h : UInt32} {timestamp : LamportClock}

theorem Request.IsSet.unique {request : Request} {key' value' : SimpleString}
    (h : request.IsSet key value) (h' : request.IsSet key' value') :
    key = key' ∧ value = value' := by
  obtain ⟨-, rest, hargs⟩ := h
  obtain ⟨-, rest', hargs'⟩ := h'
  have hcons := some.inj (hargs.symm.trans hargs')
  exact ⟨(List.cons.inj hcons).1, (List.cons.inj (List.cons.inj hcons).2).1⟩

theorem Request.IsSet.getArg {request : Request} (h : request.IsSet key value) :
    request.operation.getArg 0 = some key ∧ request.operation.getArg 1 = some value := by
  obtain ⟨-, rest, hargs⟩ := h
  simp [OperationBody.getArg, hargs]

theorem view_of_store {m : Map} (hm : node.memDbStores 0 = some m) :
    node.view = m.view := by
  unfold Node.view
  rw [hm]
  rfl

theorem atRoot_of_store {m : Map} (hm : node.memDbStores 0 = some m) (h : UInt32) :
    node.atRoot h = decide (m.atRoot h) := by
  unfold Node.atRoot
  rw [hm]
  rfl

/-! ### Data of a node -/

/-- The value and timestamp stored under a hash, if a value is. -/
def Node.data (node : Node) (h : UInt32) : Option DataAVLNode :=
  (node.view h).bind fun entry => entry.data.asData

/-- What `Map::get` returns for a key, if that is a value. -/
def Node.read (config : Configuration) (node : Node) (key : SimpleString) : Option DataAVLNode := do
  let store ← node.memDbStores 0
  let entry ← (← store.get config.calculateHash key)
  entry.data.asData

theorem Node.Ready.read (hready : node.Ready) (config : Configuration) (key : SimpleString) :
    node.read config key = node.data (config.calculateHash key) := by
  obtain ⟨m, hm, hwf⟩ := hready.store
  unfold Node.read Node.data
  rw [view_of_store hm, hm]
  simp [hwf.get]

theorem Node.data_of_view {entry : MapEntry} {d : DataAVLNode} (hentry : node.view h = some entry)
    (hdata : entry.data = .data d) : node.data h = some d := by
  simp [Node.data, hentry, hdata, NodeData.asData]

theorem Node.exists_entry {d : DataAVLNode} (hdata : node.data h = some d) :
    ∃ entry, node.view h = some entry ∧ entry.data = .data d := by
  obtain ⟨entry, hentry, hd⟩ := bind_eq_some_iff.mp hdata
  refine ⟨entry, hentry, ?_⟩
  cases hentry' : entry.data with
  | data d' =>
    rw [hentry'] at hd
    rw [some.inj hd]
  | counter count =>
    rw [hentry'] at hd
    cases hd

theorem Node.data_congr {before after : Node} (hview : after.view = before.view) :
    after.data = before.data := by
  unfold Node.data
  rw [hview]

section put
variable {before after : Node} {key : SimpleString} {h : UInt32} {d : DataAVLNode}

theorem Node.data_put_self (hview : after.view = before.view.put key h d) :
    after.data h = some d := by
  simp [Node.data, hview, NodeData.asData]

theorem Node.data_put_ne (hview : after.view = before.view.put key h d) {h' : UInt32}
    (hne : h' ≠ h) : after.data h' = before.data h' := by
  simp [Node.data, hview, View.put_ne _ _ hne]

/-- All entries of the node are values. -/
def Node.DataOnly (node : Node) : Prop :=
  ∀ h entry, node.view h = some entry → ∃ d, entry.data = .data d

theorem Node.DataOnly.put (hdata : before.DataOnly)
    (hview : after.view = before.view.put key h d) : after.DataOnly := by
  intro h' entry hentry
  rw [hview] at hentry
  by_cases hh : h' = h
  · subst hh
    rw [View.put_self] at hentry
    cases hentry
    exact ⟨d, View.written_data _ _ _ _⟩
  · rw [View.put_ne _ _ hh] at hentry
    exact hdata h' entry hentry

end put

/-- The clock of the node is not behind what it stores. -/
def Node.ClockCovers (node : Node) : Prop :=
  ∀ h d, node.data h = some d → d.timestamp.counter.toNat ≤ node.clock.counter.toNat

/-! ### Accepted timestamps -/

theorem accepts_eq_true_iff {V : View} :
    V.accepts h timestamp .SET_MAX true = true ↔
      ∀ entry, V h = some entry → ∃ d, entry.data = .data d ∧ d.timestamp ≤ timestamp := by
  unfold View.accepts
  cases hV : V h with
  | none => simp
  | some entry =>
    cases hdata : entry.data with
    | counter _ => simp [AVLTree.refuses, hdata]
    | data d => simp [AVLTree.refuses, hdata, LamportClock.gt_eq_false_iff_le]

theorem accepts_eq_false_iff {V : View} :
    V.accepts h timestamp .SET_MAX true = false ↔
      ∃ entry, V h = some entry ∧ ∀ d, entry.data = .data d → timestamp < d.timestamp := by
  unfold View.accepts
  cases hV : V h with
  | none => simp
  | some entry =>
    cases hdata : entry.data with
    | counter _ => simp [AVLTree.refuses, hdata]
    | data d => simp [AVLTree.refuses, hdata, LamportClock.gt_iff_lt]

/-! ### Executing `SET` -/

section set
variable {config : Configuration} {operation : OperationBody} {options : OperationOptions}
  {node : Node} {m : Map} {key value : SimpleString} {rest : List SimpleString}

theorem getPartitionIdByKey_zero (hpartitions : config.usePartitions = false) (key : SimpleString) :
    getPartitionIdByKey config key = 0 := by
  simp [getPartitionIdByKey, hpartitions]

/-- What executing `SET` comes down to once `putData` has returned. -/
theorem executeOperation_set (hreplication : config.useReplication = true)
    (hpartitions : config.usePartitions = false) (hpartition : options.partitionId = 0)
    (hbroadcast : options.dontBroadcastToCluster = false) (hm : node.memDbStores 0 = some m)
    (hargs : operation.args = some (key :: value :: rest)) {m' : Map} {clock : LamportClock}
    {result : Option DbEditResult}
    (hput : m.putData config.calculateHash key value (getTimestamp config operation options)
      options.updateClockStrategy node.clock options.checkTimestamps = some (m', clock, result)) :
    ∃ node' response, executeOperation config (SetOperator config) operation options node =
        some (node', response) ∧
      node'.nodeState = node.nodeState ∧
      node'.delayedOperationsBuffer = node.delayedOperationsBuffer ∧
      node'.memDbStores 0 = some m' ∧ node'.clock = clock ∧
      node'.outbox = node.outbox ++ (result.elim [] fun edit =>
        [(0, prepareRequest config { operation with
          timestamp := if options.fromClient then edit.timestampOfOperation
            else operation.timestamp })]) := by
  have hoperate : (SetOperator config).operate operation options node =
      some (node.setStore 0 m' clock, Response.ofEdit result ErrorCode.ALREADY_REPLICATED) := by
    simp [SetOperator, OperationBody.getArg, hpartition, hm, hargs, hput]
  have hproperty : ∀ property, (SetOperator config).hasProperty property = true := by
    intro property
    cases property <;> rfl
  -- the stamp of the operation does not change its key
  have hkey : ∀ timestamp, ({ operation with timestamp := timestamp } : OperationBody).getArg 0 =
      some key := by
    intro timestamp
    simp [OperationBody.getArg, hargs]
  have hpartitionOfKey : getPartitionIdByKey config key = 0 :=
    getPartitionIdByKey_zero hpartitions key
  unfold executeOperation
  rw [hoperate]
  cases result with
  | none =>
    refine ⟨node.setStore 0 m' clock, Response.ofEdit none ErrorCode.ALREADY_REPLICATED, ?_, rfl,
      rfl, by simp [Node.setStore], rfl, (List.append_nil _).symm⟩
    simp [Response.ofEdit, broadcastAndWait, addToOperationLog]
  | some edit =>
    cases hsave : options.dontSaveInOperationLog <;> cases hclient : options.fromClient <;>
      simp [Response.ofEdit, broadcastAndWait, addToOperationLog, hproperty, hreplication,
        hbroadcast, hkey, hpartitionOfKey, Node.setStore]

end set

/-! ### Dispatching `SET` -/

section dispatch
variable {config : Configuration} (others : UInt8 → Option Operator) {request : Request}
  {node : Node} {key value : SimpleString}

/-- The options under which a request for `SET` is executed. -/
def setOptions (config : Configuration) (request : Request) : OperationOptions :=
  optionsOfRequest (SetOperator config) request 0

/-- The timestamp that a request for `SET` brings to the store. -/
def setTimestamp (config : Configuration) (request : Request) : LamportClock :=
  getTimestamp config request.operation (setOptions config request)

/-- The timestamp that an accepted request is stored under. -/
def setStamp (config : Configuration) (request : Request) (clock : LamportClock) : LamportClock :=
  AVLTree.stamped clock (setTimestamp config request)
    (setOptions config request).updateClockStrategy (setOptions config request).checkTimestamps

/-- The entry under the hash of the key, if any, gives way to the request. -/
def Node.acceptsSet (config : Configuration) (request : Request) (key : SimpleString)
    (node : Node) : Bool :=
  node.view.accepts (config.calculateHash key) (setTimestamp config request)
    (setOptions config request).updateClockStrategy (setOptions config request).checkTimestamps

/-- The operation of a node keeps its counter, which is then that of the stamp as well. -/
theorem broadcastCounter_eq (config : Configuration) (request : Request) (clock : LamportClock) :
    (if (setOptions config request).fromClient then (setStamp config request clock).counter
      else request.operation.timestamp) = (setStamp config request clock).counter := by
  by_cases hnode : request.authenticationType = .NODE
  · simp [setOptions, optionsOfRequest, OperationOptions.fromClient, setStamp, AVLTree.stamped,
      AVLTree.stamp, setTimestamp, getTimestamp, SetOperator, hnode]
  · simp [setOptions, optionsOfRequest, OperationOptions.fromClient, hnode]

theorem Request.IsSet.operator (config : Configuration) (hset : request.IsSet key value) :
    operatorRegistry config others request.operation.operatorNumber =
      some (SetOperator config) := by
  rw [operatorRegistry, if_pos hset.1]

/-- A `SET` is refused for its partition, or it is executed at the store of its key; the log and
    the broadcast that follow leave the stores and the clock as they are. -/
theorem dispatch_set_cases (hexecute : canExecuteRequest config node = true)
    (hbuffer : node.delayedOperationsBuffer = []) (hset : request.IsSet key value) {node' : Node}
    {response : Response}
    (hrun : dispatch config others request node = some (node', response)) :
    (node' = node ∧ response = Response.error ErrorCode.INVALID_PARTITION) ∨
      ∃ edited, (SetOperator config).operate request.operation
          (optionsOfRequest (SetOperator config) request (getPartitionIdByKey config key)) node =
            some (edited, response) ∧
        node'.nodeState = edited.nodeState ∧
        node'.delayedOperationsBuffer = edited.delayedOperationsBuffer ∧
        node'.memDbStores = edited.memDbStores ∧ node'.clock = edited.clock := by
  have hop : (SetOperator config).IsWrite config := .inl rfl
  have hpartition : partitionOfOperation config (SetOperator config) request.operation =
      some (getPartitionIdByKey config key) := by
    simp [partitionOfOperation, hop.type, hset.getArg.1]
  rw [dispatch_executes config _ hexecute hbuffer,
    dispatchNoApply_executes config _ (hset.operator others config) hexecute,
    if_pos (hop.authorized config _), hpartition] at hrun
  obtain ⟨invalid, -, hrun⟩ := bind_eq_some_iff.mp hrun
  cases invalid with
  | true =>
    cases hrun
    exact .inl ⟨rfl, rfl⟩
  | false =>
    simp only [Bool.false_eq_true, if_false, bind_some, executeOperation_eq] at hrun
    obtain ⟨⟨edited, result⟩, hoperate, hafter⟩ := bind_eq_some_iff.mp hrun
    obtain ⟨rfl, hkept⟩ := persistAndBroadcast_keeps config hafter
    exact .inr ⟨edited, hoperate, hkept⟩

theorem dispatch_set (hpartitions : config.usePartitions = false) (hready : node.Ready)
    (hset : request.IsSet key value) :
    dispatch config others request node =
      executeOperation config (SetOperator config) request.operation (setOptions config request)
        node :=
  dispatch_write config others (.inl rfl) (hset.operator others config) hpartitions
    (canExecuteRequest_running config hready.running) hready.buffer hset.getArg.1

section
variable (hreplication : config.useReplication = true) (hpartitions : config.usePartitions = false)
  (hready : node.Ready) (hset : request.IsSet key value)
include hreplication hpartitions hready hset

/-- An accepted `SET` is stored under its stamp and broadcast with the counter of the stamp. One
    that is refused changes nothing. It is reported as an error at the root of a bucket; elsewhere
    it counts as a success and is broadcast. -/
theorem dispatch_set_spec :
    ∃ node' response, dispatch config others request node = some (node', response) ∧
      node'.flush.Ready ∧
      (node.acceptsSet config request key = true ∧
        node'.view = node.view.put key (config.calculateHash key)
          ⟨value, setStamp config request node.clock⟩ ∧
        node'.clock = (node.clock.update (setOptions config request).updateClockStrategy
          (setTimestamp config request).counter).1 ∧
        node'.outbox = [(0, prepareRequest config { request.operation with
          timestamp := (setStamp config request node.clock).counter })] ∨
      node.acceptsSet config request key = false ∧ node'.view = node.view ∧
        node'.clock = node.clock ∧
        node'.outbox = if node.atRoot (config.calculateHash key) then [] else
          [(0, prepareRequest config { request.operation with
            timestamp := if (setOptions config request).fromClient then 0
              else request.operation.timestamp })]) := by
  obtain ⟨m, hm, hwf⟩ := hready.store
  obtain ⟨hnumber, rest, hargs⟩ := hset
  obtain ⟨m', clock, result, hput, hwf', -, hcases⟩ := m.putData_spec hwf value node.clock
    (setTimestamp config request) (setOptions config request).updateClockStrategy
    (setOptions config request).checkTimestamps
  obtain ⟨node', response, hexecute, hstate, hbuffer, hstore, hclock, houtbox⟩ :=
    executeOperation_set hreplication hpartitions rfl rfl hm hargs hput
  refine ⟨node', response, ?_, ⟨hstate.trans hready.running, hbuffer.trans hready.buffer, rfl, m',
    hstore, hwf'⟩, ?_⟩
  · rw [dispatch_set others hpartitions hready ⟨hnumber, rest, hargs⟩]
    exact hexecute
  rw [Node.acceptsSet, view_of_store hm, view_of_store hstore]
  rw [hready.outbox] at houtbox
  rcases hcases with ⟨hacc, rfl, rfl, hview⟩ | ⟨hacc, rfl, rfl, hview⟩
  · refine .inl ⟨hacc, hview, hclock, ?_⟩
    rw [houtbox, ← broadcastCounter_eq config request node.clock]
    rfl
  · refine .inr ⟨hacc, hview, hclock, ?_⟩
    rw [houtbox, atRoot_of_store hm]
    by_cases hroot : m.atRoot (config.calculateHash key) <;> simp [hroot]

end

end dispatch

end MemDb
