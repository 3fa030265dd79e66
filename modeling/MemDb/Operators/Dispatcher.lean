import MemDb.Db.Map
import MemDb.Messages.Request

/-! # The operator dispatcher of a node

    `OperatorDispatcher` with the operators `SET` and `DEL`; the remaining operators of the registry
    are a parameter. A node is the state that the dispatcher and its operators change; requests that
    it broadcasts are put into its outbox. A function is `none` where the source throws, for
    instance at `args->at(1)` of an operation with one argument.
-/

namespace MemDb

/-! ### Responses -/

namespace ErrorCode

def AUTH_ERROR : UInt8 := 0
def UNKNOWN_KEY : UInt8 := 1
def UNKNOWN_OPERATOR : UInt8 := 2
def ALREADY_REPLICATED : UInt8 := 3
def NOT_AUTHORIZED : UInt8 := 4
def INVALID_NODE_STATE : UInt8 := 5
def INVALID_PARTITION : UInt8 := 6
def SYNC_OP_LOG_EOF : UInt8 := 8
def UNFIXABLE_CORRUPTED_OPLOG_SEGMENT : UInt8 := 9
def CAS_FAILED : UInt8 := 10
def INVALID_TYPE : UInt8 := 12

end ErrorCode

structure Response where
  isSuccessful : Bool
  errorCode : UInt8
  timestamp : LamportClock
  requestNumber : UInt32
  responseValue : SimpleString
deriving DecidableEq, Repr

namespace Response

def success : Response := ⟨true, 0, ⟨0, 0⟩, 0, []⟩

def error (errorCode : UInt8) : Response := ⟨false, errorCode, ⟨0, 0⟩, 0, []⟩

/-- What the operators build from the result of an edit: the error code when it failed, the counter
    of the edit when it succeeded, and the number 0 as the value. -/
def ofEdit (result : Option DbEditResult) (errorCodeIfUnsuccessful : UInt8) : Response where
  isSuccessful := result.isSome
  errorCode := if result.isSome then 0 else errorCodeIfUnsuccessful
  timestamp := ⟨0, (result.map (·.timestampOfOperation)).getD 0⟩
  requestNumber := 0
  responseValue := [0, 0, 0, 0]

end Response

/-! ### Nodes -/

inductive NodeState where
  | RUNNING
  | SHUTDOWN
  | BOOTING
deriving DecidableEq, Repr

/-- What the server and the dispatcher read of the configuration and of the cluster, and the hash of
    the store. -/
structure Configuration where
  nodeId : UInt16
  authApiUserKey : List UInt8
  authNodeKey : List UInt8
  useReplication : Bool
  usePartitions : Bool
  canHoldKey : SimpleString → Bool
  getDistanceOfKey : SimpleString → UInt32
  calculateHash : SimpleString → UInt32

/-- What an acceptor has promised for a key. -/
structure AcceptatorPaxosRound where
  promisedNextTimestamp : LamportClock
deriving DecidableEq, Repr

structure Node where
  nodeState : NodeState
  memDbStores : UInt32 → Option Map
  clock : LamportClock
  /-- Serialized requests, the last one added at the end. -/
  delayedOperationsBuffer : List (List UInt8)
  operationLog : List (UInt32 × OperationBody)
  paxosRoundsAcceptatorByKeyHash : UInt32 → Option AcceptatorPaxosRound
  /-- Requests handed to `broadcastAndWait`, each with its partition. -/
  outbox : List (UInt32 × Request)

/-- The node after an edit of one of its stores. -/
def Node.setStore (node : Node) (partitionId : UInt32) (store : Map) (clock : LamportClock) :
    Node :=
  { node with
    memDbStores := fun p => if p = partitionId then some store else node.memDbStores p
    clock := clock }

/-! ### Operators -/

inductive OperatorType where
  | DB_STORE_READ
  | DB_STORE_WRITE
  | NODE_MAINTENANCE
  | DB_STORE_CONDITIONAL_WRITE
deriving DecidableEq, Repr

inductive OperatorProperty where
  | BROADCAST
  | PERSISTENCE
deriving DecidableEq, Repr

structure OperatorDescriptor where
  type : OperatorType
  number : UInt8
  name : String
  authorizedToExecute : List AuthenticationType
  properties : List OperatorProperty
deriving DecidableEq, Repr

structure OperationOptions where
  checkTimestamps : Bool
  dontBroadcastToCluster : Bool
  dontSaveInOperationLog : Bool
  updateClockStrategy : UpdateClockStrategy
  partitionId : UInt32
  requestNumber : UInt32
deriving DecidableEq, Repr

def OperationOptions.fromClient (options : OperationOptions) : Bool := !options.checkTimestamps

structure Operator where
  desc : OperatorDescriptor
  operate : OperationBody → OperationOptions → Node → Option (Node × Response)

def Operator.hasProperty (operator : Operator) (property : OperatorProperty) : Bool :=
  operator.desc.properties.contains property

def OperationBody.getArg (operation : OperationBody) (position : Nat) : Option SimpleString :=
  operation.args.bind fun args => args[position]?

namespace OperatorNumbers

def SET : UInt8 := 1
def GET : UInt8 := 2
def DEL : UInt8 := 3
def SYNC_OPLOG : UInt8 := 5
def NEXT_SYNC_OPLOG_SEGMENT : UInt8 := 7
def CAS : UInt8 := 9
def CAS_PREPARE : UInt8 := 10
def CAS_ACCEPT : UInt8 := 11
def CONTAINS : UInt8 := 17
def UPDATE_COUNTER : UInt8 := 18
def REPLICATE_COUNTER : UInt8 := 19

end OperatorNumbers

section operators
variable (config : Configuration)

/-- `getTimestamp` of `SetOperator` and of `DeleteOperator`. -/
def getTimestamp (operation : OperationBody) (options : OperationOptions) : LamportClock :=
  if options.fromClient then ⟨config.nodeId, operation.timestamp⟩
  else ⟨operation.nodeId, operation.timestamp⟩

def SetOperator : Operator where
  desc :=
    { type := .DB_STORE_WRITE
      number := OperatorNumbers.SET
      name := "SET"
      authorizedToExecute := [.USER, .NODE]
      properties := [.BROADCAST, .PERSISTENCE] }
  operate operation options node := do
    let memDbStore ← node.memDbStores options.partitionId
    let key ← operation.getArg 0
    let value ← operation.getArg 1
    let (store, clock, resultSet) ← memDbStore.putData config.calculateHash key value
      (getTimestamp config operation options) options.updateClockStrategy node.clock
      options.checkTimestamps
    return (node.setStore options.partitionId store clock,
      Response.ofEdit resultSet ErrorCode.ALREADY_REPLICATED)

def DeleteOperator : Operator where
  desc :=
    { type := .DB_STORE_WRITE
      number := OperatorNumbers.DEL
      name := "DELETE"
      authorizedToExecute := [.USER, .NODE]
      properties := [.BROADCAST, .PERSISTENCE] }
  operate operation options node := do
    let dbStore ← node.memDbStores options.partitionId
    let key ← operation.getArg 0
    let (store, clock, resultRemove) ← dbStore.remove config.calculateHash key
      (getTimestamp config operation options) options.updateClockStrategy node.clock
      options.checkTimestamps
    return (node.setStore options.partitionId store clock,
      Response.ofEdit resultRemove ErrorCode.UNKNOWN_KEY)

/-- `OperatorRegistry::get`. -/
def operatorRegistry (others : UInt8 → Option Operator) (operatorNumber : UInt8) :
    Option Operator :=
  if operatorNumber = OperatorNumbers.SET then some (SetOperator config)
  else if operatorNumber = OperatorNumbers.DEL then some (DeleteOperator config)
  else others operatorNumber

end operators

/-! ### Executing an operation -/

section dispatcher
variable (config : Configuration) (others : UInt8 → Option Operator)

/-- `ClusterNodes::prepareRequest`: the sender stamps its own node id on the operation. -/
def prepareRequest (operation : OperationBody) : Request where
  authentication := ⟨config.authNodeKey, true, false⟩
  operation := { operation with nodeId := config.nodeId }
  requestNumber := 0
  authenticationType := .USER

/-- `getPartitionIdByKey` of the cluster. -/
def getPartitionIdByKey (key : SimpleString) : UInt32 :=
  if config.usePartitions then config.getDistanceOfKey key else 0

def addToOperationLog (canBePersisted : Bool) (partitionId : UInt32) (operation : OperationBody)
    (node : Node) : Node :=
  if canBePersisted then
    { node with operationLog := node.operationLog ++ [(partitionId, operation)] }
  else node

def broadcastAndWait (canBroadcast : Bool) (operation : OperationBody) (node : Node) :
    Option Node :=
  if canBroadcast then
    (operation.getArg 0).map fun key =>
      { node with
        outbox := node.outbox ++
          [(getPartitionIdByKey config key, prepareRequest config operation)] }
  else some node

def executeOperation (operatorToExecute : Operator) (operation : OperationBody)
    (options : OperationOptions) (node : Node) : Option (Node × Response) := do
  let (node, result) ← operatorToExecute.operate operation options node
  let canBroadcast := operatorToExecute.hasProperty .BROADCAST && config.useReplication &&
    result.isSuccessful && !options.dontBroadcastToCluster
  let canBePersisted := operatorToExecute.hasProperty .PERSISTENCE && result.isSuccessful &&
    !options.dontSaveInOperationLog
  let operation := if options.fromClient && (canBroadcast || canBePersisted) then
      { operation with timestamp := result.timestamp.counter }
    else operation
  let node ← broadcastAndWait config canBroadcast operation
    (addToOperationLog canBePersisted options.partitionId operation node)
  return (node, result)

/-! ### Dispatching a request -/

def isAuthorizedToExecute (operatorToExecute : Operator)
    (authenticationOfUser : AuthenticationType) : Bool :=
  operatorToExecute.desc.authorizedToExecute.contains authenticationOfUser

def canAcceptRequest (node : Node) : Bool :=
  !config.useReplication || node.nodeState != .SHUTDOWN

def canExecuteRequest (node : Node) : Bool :=
  !config.useReplication || node.nodeState == .RUNNING

/-- The key of a write is one that the node cannot hold. -/
def invalidPartition (operatorToExecute : Operator) (operation : OperationBody) : Option Bool :=
  if config.useReplication && config.usePartitions &&
      operatorToExecute.desc.type == .DB_STORE_WRITE then
    (operation.getArg 0).map fun key => !config.canHoldKey key
  else some false

/-- The partition of an operation on the store. -/
def partitionOfOperation (operatorToExecute : Operator) (operation : OperationBody) :
    Option UInt32 :=
  if operatorToExecute.desc.type == .NODE_MAINTENANCE then some 0
  else (operation.getArg 0).map (getPartitionIdByKey config)

/-- The options of a request: the timestamps of a write from another node are checked, and it
    raises the clock; any other request ticks. -/
def optionsOfRequest (operatorToExecute : Operator) (request : Request) (partitionId : UInt32) :
    OperationOptions :=
  let writeDbRequestFromNode := operatorToExecute.desc.type == .DB_STORE_WRITE &&
    request.authenticationType == .NODE
  { checkTimestamps := writeDbRequestFromNode
    dontBroadcastToCluster := false
    dontSaveInOperationLog := false
    updateClockStrategy := if writeDbRequestFromNode then .SET_MAX else .TICK
    partitionId := partitionId
    requestNumber := request.requestNumber }

/-- `delayedOperationsBuffer.add`. -/
def addToDelayedOperationsBuffer (request : Request) (node : Node) : Option (Node × Response) :=
  (RequestSerializer.serialize request).map fun bytes =>
    ({ node with delayedOperationsBuffer := node.delayedOperationsBuffer ++ [bytes] },
      Response.success)

/-- `dispatch_no_applyDelayedOperationsBuffer` on a node that keeps no hints: `serve` has the call
    of `checkHintedHandoff` before a write of another node. -/
def dispatchNoApplyDelayedOperationsBuffer (request : Request) (node : Node) :
    Option (Node × Response) :=
  match operatorRegistry config others request.operation.operatorNumber with
  | none => some (node, Response.error ErrorCode.UNKNOWN_OPERATOR)
  | some operatorToExecute =>
    let readDbRequest := operatorToExecute.desc.type == .DB_STORE_READ
    let writeDbRequest := operatorToExecute.desc.type == .DB_STORE_WRITE
    if !isAuthorizedToExecute operatorToExecute request.authenticationType then
      some (node, Response.error ErrorCode.NOT_AUTHORIZED)
    else if config.useReplication && (!canAcceptRequest config node ||
        (readDbRequest && !canExecuteRequest config node)) then
      some (node, Response.error ErrorCode.INVALID_NODE_STATE)
    else (invalidPartition config operatorToExecute request.operation).bind fun invalid =>
      if invalid then some (node, Response.error ErrorCode.INVALID_PARTITION)
      else if config.useReplication && writeDbRequest && canAcceptRequest config node &&
          !canExecuteRequest config node then
        addToDelayedOperationsBuffer request node
      else (partitionOfOperation config operatorToExecute request.operation).bind fun partitionId =>
        executeOperation config operatorToExecute request.operation
          (optionsOfRequest operatorToExecute request partitionId) node

/-- The loop of `applyDelayedOperationsBuffer` over what the iterator has left; the request that
    was added last comes first. -/
def applyDelayedOperations : List (List UInt8) → Node → Option Node
  | [], node => some node
  | bytes :: rest, node => do
    let request ← RequestDeserializer.deserialize bytes
    let (node, _) ← dispatchNoApplyDelayedOperationsBuffer config others request node
    applyDelayedOperations rest node

def applyDelayedOperationsBuffer (node : Node) : Option Node :=
  applyDelayedOperations config others node.delayedOperationsBuffer.reverse
    { node with delayedOperationsBuffer := [] }

def dispatch (request : Request) (node : Node) : Option (Node × Response) :=
  if canExecuteRequest config node then
    (applyDelayedOperationsBuffer config others node).bind
      (dispatchNoApplyDelayedOperationsBuffer config others request)
  else dispatchNoApplyDelayedOperationsBuffer config others request node

/-- Requests dispatched one after another. -/
def dispatchAll (requests : List Request) (node : Node) : Option (Node × List Response) :=
  match requests with
  | [] => some (node, [])
  | request :: requests => do
    let (node, response) ← dispatch config others request node
    let (node, responses) ← dispatchAll requests node
    return (node, response :: responses)

end dispatcher

end MemDb
