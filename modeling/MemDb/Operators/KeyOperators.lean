import MemDb.Db.CounterStore
import MemDb.Operators.Cas

/-! # The operators on keys

    The operators besides `SET`, `DEL`, `CAS_PREPARE` and `CAS_ACCEPT` that take a key as their
    first argument: `GET` and `CONTAINS`, the two operators on counters, and `CAS` as one operator
    of the registry. What a call of `CAS` hears from the other nodes is given to the operator, and
    `replicate` of `UpdateCounterOperator`, which runs later in a pool of its own, is left out.
-/

namespace MemDb

open OperatorNumbers ErrorCode

/-- The counter of an entry; `none` where the data is not a counter. -/
def NodeData.asCounter : NodeData → Option Counter
  | .data _ => none
  | .counter c => some c

section operators
variable (config : Configuration)

/-! ### Reads -/

namespace GetOperator

def getTimestampCounter : Option MapEntry → Option LamportClock
  | none => some ⟨0, 0⟩
  | some entry =>
    if entry.type = .COUNTER then
      (entry.data.asCounter.bind Counter.count).map fun count => ⟨0, count.toUInt64⟩
    else entry.data.asData.map (·.timestamp)

def getValue : Option MapEntry → Option SimpleString
  | none => some []
  | some entry =>
    if entry.type = .COUNTER then
      (entry.data.asCounter.bind Counter.count).map fun count => fromNumber 8 count.toUInt64.toNat
    else entry.data.asData.map (·.value)

end GetOperator

def GetOperator : Operator where
  desc :=
    { type := .DB_STORE_READ
      number := GET
      name := "GET"
      authorizedToExecute := [.USER]
      properties := [] }
  operate operation options node := do
    let memDbStore ← node.memDbStores options.partitionId
    let key ← operation.getArg 0
    let result ← memDbStore.get config.calculateHash key
    let timestamp ← GetOperator.getTimestampCounter result
    let value ← GetOperator.getValue result
    return (node,
      { isSuccessful := result.isSome
        errorCode := if result.isSome then 0 else UNKNOWN_KEY
        timestamp := timestamp
        requestNumber := 0
        responseValue := value })

/-- The operator asks the cluster for the partition of its key, whatever its options say. -/
def ContainsOperator : Operator where
  desc :=
    { type := .DB_STORE_READ
      number := CONTAINS
      name := "CONTAINS"
      authorizedToExecute := [.USER]
      properties := [] }
  operate operation _ node := do
    let key ← operation.getArg 0
    let store ← node.memDbStores (getPartitionIdByKey config key)
    let contained ← store.contains config.calculateHash key
    return (node,
      { isSuccessful := contained
        errorCode := if contained then 0 else UNKNOWN_KEY
        timestamp := ⟨0, 0⟩
        requestNumber := 0
        responseValue := [0, 0, 0, 0] })

/-! ### Counters -/

section counters
-- what `getNTotalNodesInPartition` returns
variable (nNodes : UInt32)

def UpdateCounterOperator : Operator where
  desc :=
    { type := .NODE_MAINTENANCE
      number := UPDATE_COUNTER
      name := "UPDATE_COUNTER"
      authorizedToExecute := [.USER]
      properties := [.PERSISTENCE] }
  operate operation options node := do
    let memDbStore ← node.memDbStores options.partitionId
    let key ← operation.getArg 0
    let (store, updateCounterResult) ← memDbStore.updateCounter config.calculateHash key
      config.nodeId nNodes operation.flag1
    return (node.setStore options.partitionId store node.clock,
      if updateCounterResult.isSome then Response.success
      else Response.error INVALID_TYPE)

/-- The request as `ReplicateCounterOperator` reads it; the last argument is read one position too
    early. -/
def OperationBody.replicateCounterRequest (operation : OperationBody) :
    Option ReplicateCounterRequest := do
  let newValue ← operation.getDoubleArgU64 1
  let lastSeenIncrement ← operation.getDoubleArgU64 3
  let lastSeenDecrement ← operation.getDoubleArgU64 4
  return { otherNodeId := operation.nodeId
           isIncrement := operation.flag1
           newValue := newValue.toInt64
           lastSeenSelfIncrement := lastSeenIncrement.toInt64
           lastSeenSelfDecrement := lastSeenDecrement.toInt64 }

/-- The value of the response: what is to be synced of both kinds, and the own node id. -/
def ReplicateCounterResponse.toBuffer (response : ReplicateCounterResponse) (nodeId : UInt16) :
    SimpleString :=
  let nIncrement := if response.needsIncrementSync then response.nIncrementToSync else 0
  let nDecrement := if response.needsDecrementSync then response.nDecrementToSync else 0
  Utils.appendToBuffer 8 nDecrement.toUInt64.toNat
    (Utils.appendToBuffer 8 nIncrement.toUInt64.toNat []) ++ fromNumber 2 nodeId.toNat

/-- A new counter where the lookup of the key has found nothing. -/
def addNewCounter (key : SimpleString) (result : Option MapEntry) (memDbStore : Map) : Option Map :=
  if result.isNone then
    (memDbStore.putCounter config.calculateHash key config.nodeId nNodes).map (·.1)
  else some memDbStore

/-- The entry of the key is looked at first and the counter added where there is none; then the
    request is handed to the counter, outside of the lock of the bucket. -/
def replicateCounter (key : SimpleString) (request : ReplicateCounterRequest) (memDbStore : Map) :
    Option (Map × Option ReplicateCounterResponse) := do
  let result ← memDbStore.get config.calculateHash key
  if result.any fun entry => entry.type != .COUNTER then
    return (memDbStore, none)
  else
    let memDbStore ← addNewCounter config nNodes key result memDbStore
    let (memDbStore, response) ← memDbStore.editCounter config.calculateHash key
      (·.onReplicationCounter request)
    return (memDbStore, some response)

def ReplicateCounterOperator : Operator where
  desc :=
    { type := .DB_STORE_WRITE
      number := REPLICATE_COUNTER
      name := "REPLICATE_COUNTER"
      authorizedToExecute := [.NODE]
      properties := [] }
  operate operation options node := do
    let memDbStore ← node.memDbStores options.partitionId
    let key ← operation.getArg 0
    let request ← operation.replicateCounterRequest
    let (store, response) ← replicateCounter config nNodes key request memDbStore
    return (node.setStore options.partitionId store node.clock,
      response.elim (Response.error INVALID_TYPE) fun response =>
        { isSuccessful := true
          errorCode := 0
          timestamp := ⟨0, 0⟩
          requestNumber := 0
          responseValue := response.toBuffer config.nodeId })

end counters

/-! ### `CAS` as an operator -/

/-- How the waits of a call end: whether there is a quorum of promises, for each pass of the loop,
    and whether there is one of accepts. -/
structure CasQuorums where
  promises : List Bool
  accepts : Bool
deriving DecidableEq, Repr

/-- A broadcast to the partition. -/
def Node.send (node : Node) (partitionId : UInt32) (operation : OperationBody) : Node :=
  { node with outbox := node.outbox ++ [(partitionId, prepareRequest config operation)] }

/-- The loop, up to its first quorum of promises; a call that has none still waits. -/
def sendRetriesPrepares (partitionId : UInt32) (key expectedValue : SimpleString) :
    List Bool → LamportClock → Node →
      Option (Node × Except UInt8 (LamportClock × LamportClock))
  | [], _, _ => none
  | quorum :: quorums, nextTimestamp, node =>
    (readExpectedAt config partitionId key expectedValue node).bind fun
      | .error code => some (node, .error code)
      | .ok prevTimestamp =>
        let nextTimestamp := { nextTimestamp with counter := nextTimestamp.counter + 1 }
        let node :=
          node.send config partitionId (sendPrepare config key prevTimestamp nextTimestamp)
        if quorum then some (node, .ok (prevTimestamp, nextTimestamp))
        else sendRetriesPrepares partitionId key expectedValue quorums nextTimestamp node

def CasOperator (quorums : CasQuorums) : Operator where
  desc :=
    { type := .DB_STORE_CONDITIONAL_WRITE
      number := CAS
      name := "CAS"
      authorizedToExecute := [.USER]
      properties := [] }
  operate operation options node := do
    let key ← operation.getArg 0
    let expectedValue ← operation.getArg 1
    let newValue ← operation.getArg 2
    let (node, resultPrepare) ← sendRetriesPrepares config options.partitionId key expectedValue
      quorums.promises node.clock node
    match resultPrepare with
    | .error code => return (node, Response.error code)
    | .ok (prevTimestamp, nextTimestamp) =>
      let node := node.send config options.partitionId
        (sendAccept config key newValue prevTimestamp nextTimestamp)
      if quorums.accepts then
        saveToLocalDb config options.partitionId key newValue nextTimestamp node
      else return (node, Response.error CAS_FAILED)

/-- The operators of a node besides `SET` and `DEL`. -/
def keyOperators (nNodes : UInt32) (quorums : CasQuorums) (operatorNumber : UInt8) :
    Option Operator :=
  if operatorNumber = GET then some (GetOperator config)
  else if operatorNumber = CONTAINS then some (ContainsOperator config)
  else if operatorNumber = UPDATE_COUNTER then
    some (UpdateCounterOperator config nNodes)
  else if operatorNumber = REPLICATE_COUNTER then
    some (ReplicateCounterOperator config nNodes)
  else if operatorNumber = CAS then some (CasOperator config quorums)
  else casOperators config operatorNumber

end operators

end MemDb
