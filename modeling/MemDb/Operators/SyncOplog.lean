import MemDb.Lib.Run
import MemDb.Operators.Cas
import MemDb.Persistence.OplogIterator

/-! # Synchronising operation logs

    A node that has been away asks another one for the operations it missed: `SYNC_OPLOG` opens a
    session at the sender, which keeps an `OplogIterator` for it, and each `NEXT_SYNC_OPLOG_SEGMENT`
    brings the next block. Sessions are told apart by the request number. The receiver draws it from
    `nextSyncOplogId`, which puts its node id above bit 32, and sends it as a 32-bit request number.
    Two receivers can therefore use the same session, and each gets a part of its blocks. A receiver
    gets all of its blocks when no session is open under its number, and every block can be reached
    and read.
-/

namespace MemDb

open Lib.Run Function ErrorCode

/-! ### Sessions at the sender -/

structure OnGoingSyncOplog where
  iterator : OplogIterator
  totalNFragments : Nat
  nFragmentsSent : Nat
deriving DecidableEq, Repr

/-- `onGoingSyncOplogsById` of the sender. -/
abbrev OnGoingSyncOplogsStore := UInt64 → Option OnGoingSyncOplog

namespace OnGoingSyncOplogsStore

/-- An iterator that is registered already stays. -/
def registerSyncOplogIterator (syncId : UInt64) (segmentIterator : OplogIterator)
    (store : OnGoingSyncOplogsStore) : OnGoingSyncOplogsStore :=
  if (store syncId).isSome then store
  else update store syncId (some ⟨segmentIterator, segmentIterator.totalSize, 0⟩)

def getSenderIteratorById (syncOplogId : UInt64) (store : OnGoingSyncOplogsStore) :
    Option OplogIterator :=
  (store syncOplogId).map (·.iterator)

def removeBySyncId (syncId : UInt64) (store : OnGoingSyncOplogsStore) : OnGoingSyncOplogsStore :=
  update store syncId none

/-- An absent entry is created with no fragments, and erased at once. -/
def markSegmentAsSent (syncId : UInt64) (store : OnGoingSyncOplogsStore) : OnGoingSyncOplogsStore :=
  match store syncId with
  | none => store
  | some onGoing =>
    if onGoing.nFragmentsSent + 1 ≥ onGoing.totalNFragments then store.removeBySyncId syncId
    else update store syncId
      (some { onGoing with nFragmentsSent := onGoing.nFragmentsSent + 1 })

/-- The entry holds a pointer to the iterator, so that it sees the iterator advance. -/
def setIterator (syncId : UInt64) (iterator : OplogIterator) (store : OnGoingSyncOplogsStore) :
    OnGoingSyncOplogsStore :=
  update store syncId ((store syncId).map fun onGoing => { onGoing with iterator := iterator })

/-- The id, and the counter after it. -/
def nextSyncOplogId (selfNodeId : UInt16) (nextSyncOplogIdCounter : UInt32) : UInt64 × UInt32 :=
  (selfNodeId.toUInt64 <<< 32 ||| nextSyncOplogIdCounter.toUInt64, nextSyncOplogIdCounter + 1)

end OnGoingSyncOplogsStore

/-! ### The operators of the sender -/

/-- What a search of a log finds: the descriptors, where they start, the intermediate file, and what
    the memory of a new iterator holds. -/
structure OplogSearchResult where
  descriptors : List OplogIndexSegmentDescriptor
  descriptorInitPtr : UInt64
  intermediate : List UInt8
  uninitialized : UInt32
deriving DecidableEq, Repr

/-- The logs of a node at some moment, each searched from a timestamp on; `none` is a log that the
    node does not have. -/
abbrev OperationLogs := (oplogId : UInt32) → (after : UInt64) → Option OplogSearchResult

/-- `getAfterTimestamp` with `compressed`, for the log of the given id. Its iterator over a log that
    does not exist is no `OplogIterator`: the cast of the operator gives null, and following it ends
    the process. -/
def OperationLogs.getAfterTimestamp (operationLog : OperationLogs) (after : UInt64)
    (operationLogId : UInt32) : Option OplogIterator :=
  (operationLog operationLogId after).map fun found =>
    .new found.descriptors found.descriptorInitPtr found.intermediate false true operationLogId
      found.uninitialized

/-- How the sender reads segments, and whether another node can send a segment of an oplog between
    two timestamps. -/
structure SegmentReader where
  compressor : Compressor
  readBytesByIndexSegmentDescriptor : OplogIndexSegmentDescriptor → Option (List UInt8)
  fixOplogSegment : (oplogId : UInt32) → (min max : UInt64) → Bool

/-- The arguments of both operators. -/
def syncOplogOperation (operatorNumber : UInt8) (nodeId : UInt16) (timestampToSync : UInt64)
    (nodeOplogId : UInt32) : OperationBody where
  args := some (addDoubleArg timestampToSync ++ [fromNumber 4 nodeOplogId.toNat])
  timestamp := 0
  nodeId := nodeId
  operatorNumber := operatorNumber
  flag1 := false
  flag2 := false

/-- The timestamp and the oplog id of an operation. -/
def OperationBody.syncOplogArgs (operation : OperationBody) : Option (UInt64 × UInt32) := do
  let lastTimestampUnsync ← operation.getDoubleArgU64 0
  let nodeOplogIdToSync ← toNumber 4 (← operation.getArg 2)
  return (lastTimestampUnsync, UInt32.ofNat nodeOplogIdToSync)

/-- `SyncOplogOperator::operate`. -/
def SyncOplogOperator (operationLog : OperationLogs) (operation : OperationBody)
    (requestNumber : UInt32) (store : OnGoingSyncOplogsStore) :
    Option (OnGoingSyncOplogsStore × Response) := do
  let (lastTimestampUnsync, nodeOplogIdToSync) ← operation.syncOplogArgs
  let segmentIterator ← operationLog.getAfterTimestamp lastTimestampUnsync nodeOplogIdToSync
  return (store.registerSyncOplogIterator requestNumber.toUInt64 segmentIterator,
    { isSuccessful := true
      errorCode := 0
      timestamp := ⟨0, 0⟩
      requestNumber := requestNumber
      responseValue := fromNumber 8 segmentIterator.totalSize })

namespace NextSegmentOplogOperator
variable (reader : SegmentReader) (operationLog : OperationLogs)

/-- A session that is not there is opened again, with the arguments of the request. -/
def getOplogSegmentIterator (operation : OperationBody) (requestNumber : UInt32)
    (store : OnGoingSyncOplogsStore) : Option (OnGoingSyncOplogsStore × OplogIterator) :=
  match store.getSenderIteratorById requestNumber.toUInt64 with
  | some senderIterator => some (store, senderIterator)
  | none => do
    let (lastTimestampUnsync, nodeOplogIdToSync) ← operation.syncOplogArgs
    let (store, _) ← SyncOplogOperator operationLog
      (syncOplogOperation OperatorNumbers.SYNC_OPLOG 0 lastTimestampUnsync nodeOplogIdToSync)
      requestNumber store
    let senderIterator ← store.getSenderIteratorById requestNumber.toUInt64
    return (store, senderIterator)

/-- The block, its size, and whether it is intact. A segment that another node could send is not
    repaired: `oplogIndexSegment` of the dependencies is null. -/
def getNextOplogSegmentOrTryFix (iterator : OplogIterator) :
    Option (OplogIterator × List UInt8 × UInt32 × Bool) :=
  (iterator.next reader.compressor reader.readBytesByIndexSegmentDescriptor).bind
    fun (iterator, bytesFromOplogIteratorResult) =>
      match bytesFromOplogIteratorResult with
      | some bytes => iterator.getLastUncompressedSize.map fun size => (iterator, bytes, size, true)
      | none => iterator.getLastDescriptor.bind fun corruptedDescriptor =>
        if reader.fixOplogSegment iterator.oplogId corruptedDescriptor.min corruptedDescriptor.max
        then none else some (iterator, [], 0, false)

/-- The response with a block behind its size. -/
def segmentResponse (requestNumber : UInt32) (iterator : OplogIterator)
    (compressedOplog : List UInt8) (uncompressSize : UInt32) (success : Bool) : Response where
  isSuccessful := success
  errorCode := if success then 0 else UNFIXABLE_CORRUPTED_OPLOG_SEGMENT
  timestamp := ⟨0, iterator.lastTimestampOfLastNext.toUInt64⟩
  requestNumber := requestNumber
  responseValue := fromNumber 4 uncompressSize.toNat ++ compressedOplog

def operate (operation : OperationBody) (requestNumber : UInt32) (store : OnGoingSyncOplogsStore) :
    Option (OnGoingSyncOplogsStore × Response) :=
  (getOplogSegmentIterator operationLog operation requestNumber store).bind
    fun (store, oplogSenderIterator) =>
      if !oplogSenderIterator.hasNext then
        some (store.removeBySyncId requestNumber.toUInt64,
          { Response.error SYNC_OP_LOG_EOF with requestNumber := requestNumber })
      else
        (getNextOplogSegmentOrTryFix reader oplogSenderIterator).map
          fun (iterator, compressedOplog, uncompressSize, success) =>
            ((store.markSegmentAsSent requestNumber.toUInt64).setIterator requestNumber.toUInt64
                iterator,
              segmentResponse requestNumber iterator compressedOplog uncompressSize success)

end NextSegmentOplogOperator

/-! ### The receiver -/

/-- The deserializer has shifted the error code already, and it is shifted once more here. -/
def Response.hasErrorCode (response : Response) (errorCodeToCheck : UInt8) : Bool :=
  (response.errorCode >>> 1 &&& errorCodeToCheck) == errorCodeToCheck

structure SyncOplogReceiverIterator where
  timestampToSync : UInt64
  nodeOplogIdToSync : UInt32
  syncId : UInt32
  nSegmentsRemaining : Nat
deriving DecidableEq, Repr

namespace SyncOplogReceiverIterator

def hasNext (receiver : SyncOplogReceiverIterator) : Bool :=
  decide (receiver.nSegmentsRemaining > 0)

/-- `initSyncOplog` with the response of the sender. -/
def initSyncOplog (timestampToSync : UInt64) (nodeOplogIdToSync : UInt32) (response : Response) :
    Option SyncOplogReceiverIterator :=
  (toNumber 8 response.responseValue).map fun nSegmentsRemaining =>
    ⟨timestampToSync, nodeOplogIdToSync, response.requestNumber, nSegmentsRemaining⟩

/-- `none` where the value is shorter than the size in front of a block: what is left of its length
    wraps around. -/
def getOplogFromResponse (compressor : Compressor) (response : Response) : Option (List UInt8) :=
  if response.responseValue.length < 4 then none
  else (toNumber 4 response.responseValue).bind fun originalSize =>
    compressor.uncompressBytes (response.responseValue.drop 4) originalSize

/-- `next` with the response of the sender. -/
def next (compressor : Compressor) (nextResponse : Response)
    (receiver : SyncOplogReceiverIterator) :
    Option (SyncOplogReceiverIterator × Option (List UInt8)) :=
  if !nextResponse.isSuccessful && nextResponse.hasErrorCode SYNC_OP_LOG_EOF then
    some ({ receiver with nSegmentsRemaining := 0 }, some [])
  else if !nextResponse.isSuccessful &&
      nextResponse.hasErrorCode UNFIXABLE_CORRUPTED_OPLOG_SEGMENT then
    some (receiver, none)
  else (getOplogFromResponse compressor nextResponse).map fun oplog =>
    ({ receiver with
        timestampToSync := nextResponse.timestamp.counter
        nSegmentsRemaining := receiver.nSegmentsRemaining - 1 }, some oplog)

end SyncOplogReceiverIterator

end MemDb
