import MemDb.Operators.Dispatcher

/-! # Dispatching writes

    What the dispatcher does with a request for `SET` or `DEL`: a node that is `BOOTING` puts it
    into its buffer, and a node that is `RUNNING` executes it. Either way everyone may send one, and
    the operator itself changes nothing but a store and the clock.
-/

namespace MemDb

open Option ErrorCode

section
variable (config : Configuration) (others : UInt8 → Option Operator)

/-! ### Writes -/

/-- A request for one of the two write operators of the registry. -/
def Request.IsWrite (request : Request) : Prop :=
  request.operation.operatorNumber = OperatorNumbers.SET ∨
    request.operation.operatorNumber = OperatorNumbers.DEL

/-- The operators behind such requests. -/
def Operator.IsWrite (operator : Operator) : Prop :=
  operator = SetOperator config ∨ operator = DeleteOperator config

section
variable {operator : Operator} (h : operator.IsWrite config)
include h

theorem Operator.IsWrite.type :
    operator.desc.type = .DB_STORE_WRITE := by
  rcases h with rfl | rfl <;> rfl

/-- Users and nodes may execute a write. -/
theorem Operator.IsWrite.authorized (authenticationType : AuthenticationType) :
    isAuthorizedToExecute operator authenticationType = true := by
  rcases h with rfl | rfl <;> cases authenticationType <;> rfl

/-- Writes are logged and broadcast. -/
theorem Operator.IsWrite.hasProperty (property : OperatorProperty) :
    operator.hasProperty property = true := by
  rcases h with rfl | rfl <;> cases property <;> rfl

end

theorem Request.IsWrite.operator {request : Request} (h : request.IsWrite) :
    ∃ operator : Operator, operator.IsWrite config ∧
      operatorRegistry config others request.operation.operatorNumber = some operator := by
  rcases h with h | h
  · exact ⟨SetOperator config, .inl rfl, by rw [operatorRegistry, if_pos h]⟩
  · refine ⟨DeleteOperator config, .inr rfl, ?_⟩
    rw [operatorRegistry, if_neg (by rw [h]; decide), if_pos h]

/-! ### Executing an operation -/

variable {operator : Operator} {request : Request} {node node' : Node} {operation : OperationBody}
  {options : OperationOptions} {response result : Response} {key : SimpleString}

/-- What `executeOperation` does once the operator has returned. -/
def persistAndBroadcast (operator : Operator) (operation : OperationBody)
    (options : OperationOptions) (result : Response) (node : Node) : Option (Node × Response) :=
  let canBroadcast := operator.hasProperty .BROADCAST && config.useReplication &&
    result.isSuccessful && !options.dontBroadcastToCluster
  let canBePersisted := operator.hasProperty .PERSISTENCE && result.isSuccessful &&
    !options.dontSaveInOperationLog
  let operation := if options.fromClient && (canBroadcast || canBePersisted) then
      { operation with timestamp := result.timestamp.counter }
    else operation
  (broadcastAndWait config canBroadcast operation
    (addToOperationLog canBePersisted options.partitionId operation node)).bind fun node =>
      some (node, result)

theorem executeOperation_eq (operator : Operator) (operation : OperationBody)
    (options : OperationOptions) : executeOperation config operator operation options = fun node =>
    (operator.operate operation options node).bind fun result =>
      persistAndBroadcast config operator operation options result.2 result.1 := rfl

/-- Persisting and broadcasting change the log and the outbox. -/
theorem persistAndBroadcast_keeps
    (h : persistAndBroadcast config operator operation options result node =
      some (node', response)) :
    response = result ∧ node'.nodeState = node.nodeState ∧
      node'.delayedOperationsBuffer = node.delayedOperationsBuffer ∧
      node'.memDbStores = node.memDbStores ∧ node'.clock = node.clock := by
  obtain ⟨broadcast, hbroadcast, hresult⟩ := bind_eq_some_iff.mp h
  cases hresult
  unfold broadcastAndWait at hbroadcast
  unfold addToOperationLog at hbroadcast
  split at hbroadcast
  · obtain ⟨key, -, rfl⟩ := map_eq_some_iff.mp hbroadcast
    split <;> exact ⟨rfl, rfl, rfl, rfl, rfl⟩
  · cases hbroadcast
    split <;> exact ⟨rfl, rfl, rfl, rfl, rfl⟩

/-- The operation as it is logged and broadcast: that of a client gets the counter of the
    response. -/
def stampedOperation (options : OperationOptions) (result : Response) (operation : OperationBody) :
    OperationBody :=
  if options.fromClient then { operation with timestamp := result.timestamp.counter } else operation

/-- A successful write is logged and broadcast, a failed one is neither. -/
theorem persistAndBroadcast_write (hop : operator.IsWrite config)
    (hsave : options.dontSaveInOperationLog = false)
    (h : persistAndBroadcast config operator operation options result node =
      some (node', response)) :
    node'.operationLog = node.operationLog ++ (if result.isSuccessful then
          [(options.partitionId, stampedOperation options result operation)] else []) ∧
      ∀ sent ∈ node'.outbox, sent ∈ node.outbox ∨
        sent.2 = prepareRequest config (stampedOperation options result operation) := by
  obtain ⟨broadcast, hbroadcast, hresult⟩ := bind_eq_some_iff.mp h
  obtain ⟨rfl, -⟩ := Prod.mk.inj (some.inj hresult)
  simp only [hop.hasProperty, hsave, Bool.true_and, Bool.not_false, Bool.and_true] at hbroadcast
  cases hsuccess : result.isSuccessful with
  | false =>
    simp only [hsuccess, Bool.and_false, Bool.false_and, broadcastAndWait, addToOperationLog,
      Bool.false_eq_true, if_false, some.injEq] at hbroadcast
    rw [← hbroadcast]
    exact ⟨(List.append_nil _).symm, fun sent hsent => Or.inl hsent⟩
  | true =>
    simp only [hsuccess, Bool.or_true, Bool.and_true, addToOperationLog, if_true] at hbroadcast
    unfold broadcastAndWait at hbroadcast
    split at hbroadcast
    · obtain ⟨key, -, rfl⟩ := map_eq_some_iff.mp hbroadcast
      refine ⟨rfl, ?_⟩
      intro sent hsent
      rcases List.mem_append.mp hsent with hbefore | hnew
      · exact Or.inl hbefore
      · right
        rw [List.mem_singleton.mp hnew]
        rfl
    · cases hbroadcast
      exact ⟨rfl, fun sent hsent => Or.inl hsent⟩

section
variable (hkey : operation.getArg 0 = some key)
include hkey

theorem broadcastAndWait_returns (canBroadcast : Bool) (node : Node) :
    ∃ node', broadcastAndWait config canBroadcast operation node = some node' := by
  cases canBroadcast <;> simp [broadcastAndWait, hkey]

/-- Persisting and broadcasting return for an operation with a key. -/
theorem persistAndBroadcast_returns (response : Response) (node : Node) :
    ∃ node', persistAndBroadcast config operator operation options response node =
      some (node', response) := by
  -- the stamp of the operation does not change its key
  have hstamped : ∀ (stamps : Bool), (if stamps then
      { operation with timestamp := response.timestamp.counter } else operation).getArg 0 =
        some key := by
    intro stamps
    cases stamps <;> exact hkey
  unfold persistAndBroadcast
  dsimp only
  obtain ⟨node', hnode'⟩ := broadcastAndWait_returns config (hstamped _) _ _
  exact ⟨node', by rw [hnode']; rfl⟩

/-- An operation with a key returns once its operator has, and what follows leaves the stores of the
    node as they are. -/
theorem executeOperation_returns {edited : Node}
    (hoperate : operator.operate operation options node = some (edited, response)) :
    ∃ node', executeOperation config operator operation options node = some (node', response) ∧
      node'.nodeState = edited.nodeState ∧
      node'.delayedOperationsBuffer = edited.delayedOperationsBuffer ∧
      node'.memDbStores = edited.memDbStores ∧ node'.clock = edited.clock := by
  obtain ⟨node', hafter⟩ :
      ∃ node', persistAndBroadcast config operator operation options response edited =
        some (node', response) := persistAndBroadcast_returns config hkey response edited
  obtain ⟨-, hkeeps⟩ := persistAndBroadcast_keeps config hafter
  refine ⟨node', ?_, hkeeps⟩
  rw [executeOperation_eq]
  dsimp only
  rw [hoperate]
  exact hafter

end

/-- What the execution of a write leaves, once its operator has returned. -/
theorem executeOperation_write (hop : operator.IsWrite config)
    (hsave : options.dontSaveInOperationLog = false) {edited : Node}
    (hoperate : operator.operate operation options node = some (edited, result))
    (h : executeOperation config operator operation options node = some (node', response)) :
    (response = result ∧ node'.nodeState = edited.nodeState ∧
      node'.delayedOperationsBuffer = edited.delayedOperationsBuffer ∧
      node'.memDbStores = edited.memDbStores ∧ node'.clock = edited.clock) ∧
    node'.operationLog = edited.operationLog ++ (if result.isSuccessful then
        [(options.partitionId, stampedOperation options result operation)] else []) ∧
    ∀ sent ∈ node'.outbox, sent ∈ edited.outbox ∨
      sent.2 = prepareRequest config (stampedOperation options result operation) := by
  rw [executeOperation_eq] at h
  dsimp only at h
  rw [hoperate, bind_some] at h
  exact ⟨persistAndBroadcast_keeps config h, persistAndBroadcast_write config hop hsave h⟩

/-- A write neither changes the state of the node nor touches the buffer. -/
theorem executeOperation_write_keeps (hop : operator.IsWrite config)
    (h : executeOperation config operator operation options node = some (node', response)) :
    node'.nodeState = node.nodeState ∧
      node'.delayedOperationsBuffer = node.delayedOperationsBuffer := by
  rw [executeOperation_eq] at h
  obtain ⟨⟨edited, result⟩, hoperate, hafter⟩ := bind_eq_some_iff.mp h
  obtain ⟨-, hstate, hbuffer, -⟩ := persistAndBroadcast_keeps config hafter
  rw [hstate, hbuffer]
  -- the operator edits a store and the clock
  rcases hop with rfl | rfl
  · simp only [SetOperator, bind_eq_bind, bind_eq_some_iff] at hoperate
    obtain ⟨_, _, _, _, _, _, _, _, hedited⟩ := hoperate
    cases hedited
    exact ⟨rfl, rfl⟩
  · simp only [DeleteOperator, bind_eq_bind, bind_eq_some_iff] at hoperate
    obtain ⟨_, _, _, _, _, _, hedited⟩ := hoperate
    cases hedited
    exact ⟨rfl, rfl⟩

/-! ### Dispatching a write -/

/-- On a `BOOTING` node a write is refused for its partition or goes into the buffer. -/
theorem dispatch_booting (hop : operator.IsWrite config)
    (hregistry : operatorRegistry config others request.operation.operatorNumber =
      some operator) (hreplication : config.useReplication = true)
    (hboot : node.nodeState = .BOOTING) :
    dispatch config others request node =
      (invalidPartition config operator request.operation).bind fun invalid =>
        if invalid then some (node, Response.error INVALID_PARTITION)
        else addToDelayedOperationsBuffer request node := by
  have hexecute : canExecuteRequest config node = false := by
    simp [canExecuteRequest, hreplication, hboot]
  have haccept : canAcceptRequest config node = true := by
    simp [canAcceptRequest, hboot]
  unfold dispatch dispatchNoApplyDelayedOperationsBuffer
  simp [hexecute, hregistry, haccept, hreplication, hop.type, hop.authorized]

/-- A write that a `BOOTING` node accepts is in its buffer. -/
theorem dispatch_booting_success (hwrite : request.IsWrite)
    (hreplication : config.useReplication = true) (hboot : node.nodeState = .BOOTING)
    (h : dispatch config others request node = some (node', response))
    (hsuccess : response.isSuccessful = true) :
    ∃ bytes, RequestSerializer.serialize request = some bytes ∧
      node' = { node with delayedOperationsBuffer := node.delayedOperationsBuffer ++ [bytes] } := by
  obtain ⟨operator, hop, hregistry⟩ := hwrite.operator config others
  rw [dispatch_booting config others hop hregistry hreplication hboot] at h
  obtain ⟨invalid, -, h⟩ := bind_eq_some_iff.mp h
  cases invalid with
  | true =>
    cases h
    exact absurd hsuccess (by decide)
  | false =>
    obtain ⟨bytes, hbytes, hresult⟩ := map_eq_some_iff.mp h
    exact ⟨bytes, hbytes, (Prod.mk.inj hresult).1.symm⟩

theorem canExecuteRequest_running (hrun : node.nodeState = .RUNNING) :
    canExecuteRequest config node = true := by
  simp [canExecuteRequest, hrun]

/-- A node that executes requests refuses one for its sender or its partition, or executes it. -/
theorem dispatchNoApply_executes
    (hregistry : operatorRegistry config others request.operation.operatorNumber =
      some operator) (hexecute : canExecuteRequest config node = true) :
    dispatchNoApplyDelayedOperationsBuffer config others request node =
      if isAuthorizedToExecute operator request.authenticationType then
        (invalidPartition config operator request.operation).bind fun invalid =>
          if invalid then some (node, Response.error INVALID_PARTITION)
          else (partitionOfOperation config operator request.operation).bind fun partitionId =>
            executeOperation config operator request.operation
              (optionsOfRequest operator request partitionId) node
      else some (node, Response.error NOT_AUTHORIZED) := by
  -- such a node accepts the request as well
  have haccept : canAcceptRequest config node = true := by
    simp only [canExecuteRequest, Bool.or_eq_true, beq_iff_eq] at hexecute
    rcases hexecute with hreplication | hrun
    · simp [canAcceptRequest, hreplication]
    · simp [canAcceptRequest, hrun]
  unfold dispatchNoApplyDelayedOperationsBuffer
  cases hauthorized : isAuthorizedToExecute operator request.authenticationType <;>
    simp [hexecute, hregistry, haccept, hauthorized]

/-- On a `RUNNING` node a write is refused for its partition or executed. -/
theorem dispatchNoApply_running (hop : operator.IsWrite config)
    (hregistry : operatorRegistry config others request.operation.operatorNumber =
      some operator) (hrun : node.nodeState = .RUNNING) :
    dispatchNoApplyDelayedOperationsBuffer config others request node =
      (invalidPartition config operator request.operation).bind fun invalid =>
        if invalid then some (node, Response.error INVALID_PARTITION)
        else (partitionOfOperation config operator request.operation).bind fun partitionId =>
          executeOperation config operator request.operation
            (optionsOfRequest operator request partitionId) node := by
  rw [dispatchNoApply_executes config others hregistry
    (canExecuteRequest_running config hrun), if_pos (hop.authorized config _)]

/-- With nothing delayed, the request is all that a node which executes requests has to do. -/
theorem dispatch_executes (hexecute : canExecuteRequest config node = true)
    (hempty : node.delayedOperationsBuffer = []) :
    dispatch config others request node =
      dispatchNoApplyDelayedOperationsBuffer config others request node := by
  have hnode : { node with delayedOperationsBuffer := [] } = node := by
    rw [← hempty]
  unfold dispatch applyDelayedOperationsBuffer
  rw [if_pos hexecute, hempty, hnode]
  rfl

theorem dispatch_running (hrun : node.nodeState = .RUNNING)
    (hempty : node.delayedOperationsBuffer = []) :
    dispatch config others request node =
      dispatchNoApplyDelayedOperationsBuffer config others request node :=
  dispatch_executes config others (canExecuteRequest_running config hrun) hempty

/-- Without partitions, a node that executes requests and has nothing delayed executes a write. -/
theorem dispatch_write (hop : operator.IsWrite config)
    (hregistry : operatorRegistry config others request.operation.operatorNumber =
      some operator) (hpartitions : config.usePartitions = false)
    (hexecute : canExecuteRequest config node = true) (hempty : node.delayedOperationsBuffer = [])
    (hkey : request.operation.getArg 0 = some key) :
    dispatch config others request node =
      executeOperation config operator request.operation (optionsOfRequest operator request 0)
        node := by
  rw [dispatch_executes config others hexecute hempty,
    dispatchNoApply_executes config others hregistry hexecute,
    if_pos (hop.authorized config _)]
  simp [invalidPartition, partitionOfOperation, hpartitions, hop.type, hkey, getPartitionIdByKey]

theorem dispatchNoApply_running_keeps (hwrite : request.IsWrite) (hrun : node.nodeState = .RUNNING)
    (h : dispatchNoApplyDelayedOperationsBuffer config others request node =
      some (node', response)) :
    node'.nodeState = .RUNNING ∧
      node'.delayedOperationsBuffer = node.delayedOperationsBuffer := by
  obtain ⟨operator, hop, hregistry⟩ := hwrite.operator config others
  rw [dispatchNoApply_running config others hop hregistry hrun] at h
  obtain ⟨invalid, -, h⟩ := bind_eq_some_iff.mp h
  cases invalid with
  | true =>
    cases h
    exact ⟨hrun, rfl⟩
  | false =>
    obtain ⟨partitionId, -, h⟩ := bind_eq_some_iff.mp h
    obtain ⟨hstate, hbuffer⟩ := executeOperation_write_keeps config hop h
    exact ⟨hstate.trans hrun, hbuffer⟩

/-- Of a write, only the operation and the authentication type matter. -/
theorem dispatchNoApply_running_congr {request' : Request} (hwrite : request.IsWrite)
    (hoperation : request.operation = request'.operation)
    (htype : request.authenticationType = request'.authenticationType)
    (hrun : node.nodeState = .RUNNING) :
    dispatchNoApplyDelayedOperationsBuffer config others request node =
      dispatchNoApplyDelayedOperationsBuffer config others request' node := by
  obtain ⟨operator, hop, hregistry⟩ := hwrite.operator config others
  rw [dispatchNoApply_running config others hop hregistry hrun,
    dispatchNoApply_running config others hop (by rw [← hoperation]; exact hregistry) hrun,
    hoperation]
  unfold optionsOfRequest
  rw [htype]
  -- the request number is all that is left to differ, and the operators do not read it
  rcases hop with rfl | rfl <;> rfl

end

/-! ### One node -/

/-- Node 1 of a cluster without partitions. -/
def firstNode : Configuration where
  nodeId := 1
  authApiUserKey := [117]
  authNodeKey := [110]
  useReplication := true
  usePartitions := false
  canHoldKey _ := true
  getDistanceOfKey _ := 0
  calculateHash := shortKeyHash

/-- A node with an empty store and its clock at 0. -/
def emptyNode (nodeState : NodeState) (nodeId : UInt16) : Node where
  nodeState := nodeState
  memDbStores partitionId := if partitionId = 0 then some (Map.new 1 (by decide)) else none
  clock := ⟨nodeId, 0⟩
  delayedOperationsBuffer := []
  operationLog := []
  paxosRoundsAcceptatorByKeyHash _ := none
  outbox := []

end MemDb
