import MemDb.Operators.Sets

/-! # Compare and set

    The operators of the conditional write `CAS`. The node that gets it from a client is the
    proposer: it asks the others to promise a new timestamp (`CAS_PREPARE`), then to accept the new
    value under it (`CAS_ACCEPT`), and stores the value itself at last. `PrepareCasOperator` and
    `AcceptCasOperator` are operators as any other; of `CasOperator`, which waits for responses
    twice, this module has the parts between the waits.
-/

namespace MemDb

open OperationBody Option OperatorNumbers ErrorCode

/-! ### Numbers as arguments -/

/-- `SimpleString::fromNumber` of a number of `sizeof` bytes, the highest first. -/
def fromNumber : (sizeof number : Nat) → SimpleString
  | 0, _ => []
  | remaining + 1, number => UInt8.ofNat (number >>> (remaining * 8)) :: fromNumber remaining number

/-- `SimpleString::to`; `none` where it reads past the end of the string. -/
def toNumber (sizeof : Nat) (arg : SimpleString) : Option Nat :=
  if sizeof ≤ arg.length then some (Utils.parse (arg.take sizeof)) else none

/-- `RequestBuilder::addDoubleArg`: the two halves of a 64-bit number. -/
def addDoubleArg (arg : UInt64) : List SimpleString :=
  [fromNumber 4 (arg.toNat >>> 32), fromNumber 4 (arg.toNat % 2 ^ 32)]

def OperationBody.getDoubleArgU64 (operation : OperationBody) (start : Nat) : Option UInt64 := do
  let part1 ← toNumber 4 (← operation.getArg start)
  let part2 ← toNumber 4 (← operation.getArg (start + 1))
  return UInt64.ofNat (part1 <<< 32 ||| part2)

/-- The three arguments that a timestamp is sent as. -/
def timestampArgs (timestamp : LamportClock) : List SimpleString :=
  fromNumber 2 timestamp.nodeId.toNat :: addDoubleArg timestamp.counter

/-- A timestamp as `getArgs` of both operators reads it. -/
def OperationBody.getTimestampArg (operation : OperationBody) (start : Nat) :
    Option LamportClock := do
  let nodeId ← toNumber 2 (← operation.getArg start)
  let counter ← operation.getDoubleArgU64 (start + 1)
  return ⟨UInt16.ofNat nodeId, counter⟩

theorem fromNumber_eq (sizeof number : Nat) :
    fromNumber sizeof number = Lib.BigEndian.encode sizeof number := by
  induction sizeof with
  | zero => rfl
  | succ remaining ih => rw [fromNumber, ih, Utils.shiftRight_bytes, Lib.BigEndian.encode]

theorem toNumber_fromNumber {sizeof number : Nat} (h : number < 256 ^ sizeof) :
    toNumber sizeof (fromNumber sizeof number) = some number := by
  have hlength : (Lib.BigEndian.encode sizeof number).length = sizeof :=
    Lib.BigEndian.length_encode sizeof number
  unfold toNumber
  rw [fromNumber_eq, if_pos hlength.ge, List.take_of_length_le hlength.le, Utils.parse_eq,
    Lib.BigEndian.decode_encode_of_lt h]

theorem getDoubleArgU64_of_args {operation : OperationBody} {start : Nat} {number : UInt64}
    (hpart1 : operation.getArg start = some (fromNumber 4 (number.toNat >>> 32)))
    (hpart2 : operation.getArg (start + 1) = some (fromNumber 4 (number.toNat % 2 ^ 32))) :
    operation.getDoubleArgU64 start = some number := by
  have hlt : number.toNat < 2 ^ 64 := number.toNat_lt
  have hhigh : number.toNat >>> 32 < 256 ^ 4 := by
    rw [Nat.shiftRight_eq_div_pow]
    omega
  have hlow : number.toNat % 2 ^ 32 < 256 ^ 4 := by omega
  -- the halves do not overlap
  have hparts : (number.toNat >>> 32) <<< 32 ||| number.toNat % 2 ^ 32 = number.toNat := by
    rw [← Nat.shiftLeft_add_eq_or_of_lt (Nat.mod_lt _ (by decide)), Nat.shiftRight_eq_div_pow,
      Nat.shiftLeft_eq]
    omega
  unfold getDoubleArgU64
  rw [hpart1, hpart2]
  simp only [bind_eq_bind, bind_some, toNumber_fromNumber hhigh,
    toNumber_fromNumber hlow, hparts, UInt64.ofNat_toNat]
  rfl

/-- A timestamp is read back as it was sent. -/
theorem getTimestampArg_timestampArgs {operation : OperationBody} {before after : List SimpleString}
    {timestamp : LamportClock}
    (hargs : operation.args = some (before ++ (timestampArgs timestamp ++ after))) :
    operation.getTimestampArg before.length = some timestamp := by
  have harg :
      ∀ k, operation.getArg (before.length + k) = (timestampArgs timestamp ++ after)[k]? := by
    intro k
    unfold getArg
    rw [hargs, bind_some, List.getElem?_append_right (Nat.le_add_right _ _),
      Nat.add_sub_cancel_left]
  have hnodeId : timestamp.nodeId.toNat < 256 ^ 2 := timestamp.nodeId.toNat_lt
  have hcounter : operation.getDoubleArgU64 (before.length + 1) = some timestamp.counter :=
    getDoubleArgU64_of_args (harg 1) (harg 2)
  unfold getTimestampArg
  rw [show operation.getArg before.length = some (fromNumber 2 timestamp.nodeId.toNat) from harg 0,
    hcounter]
  simp [toNumber_fromNumber hnodeId]

/-! ### Acceptors -/

section acceptors
variable (config : Configuration)

/-- The check that `PREPARE` and `ACCEPT` share: a newer value is stored, or a higher timestamp is
    promised. -/
def isOutdated (stored : LamportClock) (paxosRound : Option AcceptatorPaxosRound)
    (prevTimestamp nextTimestamp : LamportClock) : Bool :=
  let moreUpToDateValueIsStored := stored.gt prevTimestamp
  let promisedHigherTimestamp :=
    paxosRound.elim false fun round => round.promisedNextTimestamp.gt nextTimestamp
  moreUpToDateValueIsStored || promisedHigherTimestamp

/-- `registerNewAcceptatorPromise` and `updatePromisedTimestamp`. -/
def Node.promise (node : Node) (keyHash : UInt32) (timestamp : LamportClock) : Node :=
  { node with paxosRoundsAcceptatorByKeyHash :=
      Function.update node.paxosRoundsAcceptatorByKeyHash keyHash (some ⟨timestamp⟩) }

/-- `updateAcceptedTimestamp`; it throws where nothing is promised. -/
def Node.updateAcceptedTimestamp (node : Node) (keyHash : UInt32) (timestamp : LamportClock) :
    Option Node :=
  (node.paxosRoundsAcceptatorByKeyHash keyHash).map fun _ => node.promise keyHash timestamp

/-- The `SET` that both sides write to the operation log. -/
def casLogEntry (key value : SimpleString) (timestamp : LamportClock) : OperationBody where
  args := some [key, value]
  timestamp := timestamp.counter
  nodeId := timestamp.nodeId
  operatorNumber := SET
  flag1 := false
  flag2 := false

def Node.addToLog (node : Node) (partitionId : UInt32) (operation : OperationBody) : Node :=
  { node with operationLog := node.operationLog ++ [(partitionId, operation)] }

/-- The data under a key as the acceptors read it: `none` when the key is absent, which they do not
    check, and an inner `none` when the entry is not a value. -/
def storedData (store : Map) (key : SimpleString) : Option (Option DataAVLNode) := do
  let keyInDb ← (← store.get config.calculateHash key)
  if keyInDb.type != .DATA then return none
  return keyInDb.data.asData

def PrepareCasOperator : Operator where
  desc :=
    { type := .NODE_MAINTENANCE
      number := CAS_PREPARE
      name := "CAS_PREPARE"
      authorizedToExecute := [.NODE]
      properties := [] }
  operate operation options node := do
    let memDbStore ← node.memDbStores options.partitionId
    let key ← operation.getArg 0
    let prevTimestamp ← operation.getTimestampArg 1
    let nextTimestamp ← operation.getTimestampArg 4
    let keyHash := config.calculateHash key
    let paxosRound := node.paxosRoundsAcceptatorByKeyHash keyHash
    match ← storedData config memDbStore key with
    | none => return (node, Response.error INVALID_TYPE)
    | some stored =>
      if isOutdated stored.timestamp paxosRound prevTimestamp nextTimestamp then
        return (node, Response.error CAS_FAILED)
      else
        let raised := paxosRound.elim true fun round => nextTimestamp.gt round.promisedNextTimestamp
        return (if raised then node.promise keyHash nextTimestamp else node, Response.success)

/-- What `ACCEPT` does with a value that is not outdated. -/
def acceptCas (partitionId : UInt32) (key value : SimpleString) (nextTimestamp : LamportClock)
    (memDbStore : Map) (node : Node) : Option (Node × Response) := do
  let (store, clock, result) ← memDbStore.putData config.calculateHash key value nextTimestamp
    .SET_MAX node.clock true
  let node := node.setStore partitionId store clock
  if result.isSome then
    let node ← node.updateAcceptedTimestamp (config.calculateHash key) nextTimestamp
    return (node.addToLog partitionId (casLogEntry key value nextTimestamp), Response.success)
  else return (node, Response.error CAS_FAILED)

def AcceptCasOperator : Operator where
  desc :=
    { type := .NODE_MAINTENANCE
      number := CAS_ACCEPT
      name := "CAS_ACCEPT"
      authorizedToExecute := [.NODE]
      properties := [] }
  operate operation options node := do
    let memDbStore ← node.memDbStores options.partitionId
    let key ← operation.getArg 0
    let value ← operation.getArg 1
    let prevTimestamp ← operation.getTimestampArg 2
    let nextTimestamp ← operation.getTimestampArg 5
    let paxosRound := node.paxosRoundsAcceptatorByKeyHash (config.calculateHash key)
    match ← storedData config memDbStore key with
    | none => return (node, Response.error INVALID_TYPE)
    | some stored =>
      if isOutdated stored.timestamp paxosRound prevTimestamp nextTimestamp then
        return (node, Response.error CAS_FAILED)
      else acceptCas config options.partitionId key value nextTimestamp memDbStore node

/-- The operators of a node besides `SET` and `DEL`. -/
def casOperators (operatorNumber : UInt8) : Option Operator :=
  if operatorNumber = CAS_PREPARE then some (PrepareCasOperator config)
  else if operatorNumber = CAS_ACCEPT then some (AcceptCasOperator config)
  else none

theorem operatorRegistry_prepareCas :
    operatorRegistry config (casOperators config) CAS_PREPARE =
      some (PrepareCasOperator config) := rfl

theorem operatorRegistry_acceptCas :
    operatorRegistry config (casOperators config) CAS_ACCEPT =
      some (AcceptCasOperator config) := rfl

end acceptors

/-! ### The proposer -/

inductive ProposerPaxosState where
  | WAITING_FOR_PROMISE
  | WAITING_FOR_ACCEPT
  | COMITTED
  | FAILED
deriving DecidableEq, Repr

/-- What a call of `CasOperator::operate` proposes: its arguments and its local timestamps. -/
structure CasProposal where
  key : SimpleString
  expectedValue : SimpleString
  newValue : SimpleString
  prevTimestamp : LamportClock
  nextTimestamp : LamportClock
deriving DecidableEq, Repr

/-- A call of `CasOperator::operate`, with the state of its round. -/
structure CasCall extends CasProposal where
  state : ProposerPaxosState
  /-- How often the call has broadcast; it waits for responses to the last broadcast. -/
  broadcasts : Nat
  /-- What the call has returned. -/
  response : Option Response
deriving DecidableEq, Repr

/-- The proposal of the next attempt, which has found the expected value under a timestamp. -/
def CasProposal.next (proposal : CasProposal) (prevTimestamp : LamportClock) : CasProposal :=
  { proposal with
    prevTimestamp
    nextTimestamp :=
      { proposal.nextTimestamp with counter := proposal.nextTimestamp.counter + 1 } }

section proposer
variable (config : Configuration)

/-- The operation that `sendPrepare` broadcasts. -/
def sendPrepare (key : SimpleString) (prevTimestamp nextTimestamp : LamportClock) :
    OperationBody where
  args := some ([key] ++ (timestampArgs prevTimestamp ++
    timestampArgs ⟨config.nodeId, nextTimestamp.counter⟩))
  timestamp := 0
  nodeId := config.nodeId
  operatorNumber := CAS_PREPARE
  flag1 := false
  flag2 := false

/-- The operation that `sendAccept` broadcasts. -/
def sendAccept (key value : SimpleString) (prevTimestamp nextTimestamp : LamportClock) :
    OperationBody where
  args := some ([key, value] ++ (timestampArgs prevTimestamp ++
    timestampArgs ⟨config.nodeId, nextTimestamp.counter⟩))
  timestamp := 0
  nodeId := config.nodeId
  operatorNumber := CAS_ACCEPT
  flag1 := false
  flag2 := false

/-- What each pass of the loop of `sendRetriesPrepares` finds in the store of a partition: the
    timestamp of the expected value, or the code of the error that the call returns. -/
def readExpectedAt (partitionId : UInt32) (key expectedValue : SimpleString) (node : Node) :
    Option (Except UInt8 LamportClock) := do
  let memDbStore ← node.memDbStores partitionId
  match ← memDbStore.get config.calculateHash key with
  | none => return .error CAS_FAILED
  | some storedInDb =>
    if storedInDb.type != .DATA then return .error INVALID_TYPE
    else
      let data ← storedInDb.data.asData
      if data.value != expectedValue then return .error CAS_FAILED
      else return .ok data.timestamp

/-- `saveToLocalDb`, after a quorum of accepts. -/
def saveToLocalDb (partitionId : UInt32) (key newValue : SimpleString)
    (nextTimestamp : LamportClock) (node : Node) : Option (Node × Response) := do
  let memDbStore ← node.memDbStores partitionId
  let (store, clock, result) ← memDbStore.putData config.calculateHash key newValue nextTimestamp
    .SET_MAX node.clock true
  let node := node.setStore partitionId store clock
  if result.isSome then
    return (node.addToLog partitionId (casLogEntry key newValue nextTimestamp), Response.success)
  else return (node, Response.error CAS_FAILED)

/-- `waitForSuccessfulQuorum` when the wait ends. -/
def waitForSuccessfulQuorum (nTotalRequest successfulResponses : Nat) : Bool :=
  let nTotalNodes := nTotalRequest + 1
  let minQuorum := nTotalNodes / 2 + 1
  minQuorum - 1 ≤ successfulResponses

namespace CasCall

/-- The call before the loop; `none` when an argument is missing. -/
def start (operation : OperationBody) (clock : LamportClock) : Option CasCall := do
  let key ← operation.getArg 0
  let expectedValue ← operation.getArg 1
  let newValue ← operation.getArg 2
  return { key, expectedValue, newValue, prevTimestamp := ⟨0, 0⟩, nextTimestamp := clock,
           state := .WAITING_FOR_PROMISE, broadcasts := 0, response := none }

/-- One pass of the loop, up to the wait: the call and what it broadcasts, if it goes on. -/
def prepare (call : CasCall) (node : Node) : Option (CasCall × Option OperationBody) :=
  (readExpectedAt config (getPartitionIdByKey config call.key) call.key call.expectedValue node).map
    fun
    | .error code =>
      ({ call with
          state := if code = CAS_FAILED then .FAILED else call.state
          response := some (Response.error code) }, none)
    | .ok prevTimestamp =>
      let proposal := call.next prevTimestamp
      ({ call with toCasProposal := proposal, state := .WAITING_FOR_PROMISE,
                   broadcasts := call.broadcasts + 1 },
        some (sendPrepare config call.key prevTimestamp proposal.nextTimestamp))

/-- After a quorum of promises: the call waits for responses to `sendAccept`. -/
def accept (call : CasCall) : CasCall × OperationBody :=
  ({ call with state := .WAITING_FOR_ACCEPT, broadcasts := call.broadcasts + 1 },
    sendAccept config call.key call.newValue call.prevTimestamp call.nextTimestamp)

/-- Without a quorum of accepts. -/
def abort (call : CasCall) : CasCall :=
  { call with state := .FAILED, response := some (Response.error CAS_FAILED) }

/-- After a quorum of accepts. -/
def commit (call : CasCall) (node : Node) : Option (CasCall × Node) :=
  (saveToLocalDb config (getPartitionIdByKey config call.key) call.key call.newValue
    call.nextTimestamp node).map fun (node, response) =>
      ({ call with
          state := if response.isSuccessful then .COMITTED else .FAILED
          response := some response }, node)

end CasCall

end proposer

/-! ### Values at a ready node -/

/-- The node stores a value under the hash. -/
def Node.Stores (node : Node) (h : UInt32) (d : DataAVLNode) : Prop :=
  ∃ entry, node.view h = some entry ∧ entry.type = .DATA ∧ entry.data = .data d

/-- The node refuses an `ACCEPT` for the key: what it stores is not a value, or is newer than
    `prevTimestamp`, or the node has promised a timestamp higher than `nextTimestamp`. -/
def Node.Refuses (config : Configuration) (key : SimpleString)
    (prevTimestamp nextTimestamp : LamportClock) (node : Node) : Prop :=
  ∀ d, node.Stores (config.calculateHash key) d → prevTimestamp < d.timestamp ∨
    ∃ round, node.paxosRoundsAcceptatorByKeyHash (config.calculateHash key) = some round ∧
      nextTimestamp < round.promisedNextTimestamp

theorem Node.Stores.data {node : Node} {h : UInt32} {d : DataAVLNode} (hd : node.Stores h d) :
    node.data h = some d := by
  obtain ⟨entry, hentry, -, hdata⟩ := hd
  exact Node.data_of_view hentry hdata

theorem Node.Stores.congr {node node' : Node} {h : UInt32} {d : DataAVLNode} (hd : node.Stores h d)
    (hview : node'.view h = node.view h) : node'.Stores h d := by
  obtain ⟨entry, hentry, htype, hdata⟩ := hd
  exact ⟨entry, hview.trans hentry, htype, hdata⟩

section specs
variable {config : Configuration} {node : Node} {key value : SimpleString} {d : DataAVLNode}
  {node' : Node} {m : Map} {operation : OperationBody} {options : OperationOptions}
  {response : Response} {nextTimestamp prevTimestamp : LamportClock} {call : CasCall}

theorem Node.Stores.put {h : UInt32} {d' : DataAVLNode} (hd : node.Stores h d) (key : SimpleString)
    (hview : node'.view = node.view.put key h d') : node'.Stores h d' := by
  obtain ⟨entry, hentry, htype, -⟩ := hd
  refine ⟨{ entry with data := .data d' }, ?_, htype, rfl⟩
  rw [hview, View.put_self, View.written, hentry]

/-- `PREPARE` changes nothing but promises. -/
theorem operate_prepareCas
    (h : (PrepareCasOperator config).operate operation options node = some (node', response)) :
    ∃ rounds, node' = { node with paxosRoundsAcceptatorByKeyHash := rounds } := by
  simp only [PrepareCasOperator, bind_eq_bind, bind_eq_some_iff] at h
  obtain ⟨_, _, key, _, prevTimestamp, _, nextTimestamp, _, stored, _, hresult⟩ := h
  cases stored with
  | none =>
    cases hresult
    exact ⟨_, rfl⟩
  | some stored =>
    dsimp only at hresult
    split at hresult
    · cases hresult
      exact ⟨_, rfl⟩
    · cases hresult
      split <;> exact ⟨_, rfl⟩

/-- The timestamp that an `ACCEPT` proposes. -/
theorem getTimestampArg_next (hargs : operation.args =
      some ([key, value] ++ (timestampArgs prevTimestamp ++ timestampArgs nextTimestamp))) :
    operation.getTimestampArg 5 = some nextTimestamp := by
  have hargs' : operation.args = some (([key, value] ++ timestampArgs prevTimestamp) ++
      (timestampArgs nextTimestamp ++ [])) := by
    rw [hargs, List.append_assoc, List.append_nil]
  exact getTimestampArg_timestampArgs hargs'

theorem isOutdated_iff {stored : LamportClock} {paxosRound : Option AcceptatorPaxosRound} :
    isOutdated stored paxosRound prevTimestamp nextTimestamp = true ↔ prevTimestamp < stored ∨
      ∃ round, paxosRound = some round ∧ nextTimestamp < round.promisedNextTimestamp := by
  unfold isOutdated
  cases paxosRound <;> simp [LamportClock.gt_iff_lt]

theorem storedData_of_stores (hm : node.memDbStores 0 = some m) (hwf : m.WellFormed)
    (hd : node.Stores (config.calculateHash key) d) : storedData config m key = some (some d) := by
  obtain ⟨entry, hentry, htype, hdata⟩ := hd
  rw [view_of_store hm] at hentry
  simp [storedData, hwf.get, hentry, htype, hdata, NodeData.asData]

/-- What the acceptors read is what the node stores. -/
theorem stores_of_storedData (hm : node.memDbStores 0 = some m) (hwf : m.WellFormed)
    (h : storedData config m key = some (some d)) : node.Stores (config.calculateHash key) d := by
  unfold storedData at h
  rw [hwf.get, bind_eq_bind, bind_some] at h
  obtain ⟨entry, hentry, hresult⟩ := bind_eq_some_iff.mp h
  refine ⟨entry, (congrFun (view_of_store hm) _).trans hentry, ?_⟩
  cases htype : entry.type with
  | COUNTER => simp [htype] at hresult
  | DATA =>
    simp only [htype, bne_self_eq_false, Bool.false_eq_true, if_false] at hresult
    refine ⟨rfl, ?_⟩
    cases hdata : entry.data with
    | data d' =>
      rw [hdata] at hresult
      rw [some.inj (some.inj hresult)]
    | counter c =>
      rw [hdata] at hresult
      cases some.inj hresult

/-- The loop goes on with a value under the key. -/
theorem readExpectedAt_ok {partitionId : UInt32} {expectedValue : SimpleString}
    (hm : node.memDbStores partitionId = some m) (hwf : m.WellFormed)
    (h : readExpectedAt config partitionId key expectedValue node = some (.ok prevTimestamp)) :
    ∃ entry, m.view (config.calculateHash key) = some entry ∧ entry.type = .DATA ∧
      entry.data = .data ⟨expectedValue, prevTimestamp⟩ := by
  unfold readExpectedAt at h
  simp only [hm, hwf.get, bind_eq_bind, bind_some] at h
  cases hentry : m.view (config.calculateHash key) with
  | none =>
    rw [hentry] at h
    cases h
  | some entry =>
    rw [hentry] at h
    dsimp only at h
    -- a counter under the key, or another value, is an answer with an error
    split at h
    · cases h
    · next htype =>
      obtain ⟨data, hdata, hresult⟩ := bind_eq_some_iff.mp h
      split at hresult
      · cases hresult
      · next hvalue =>
        cases hresult
        have hvalue : data.value = expectedValue := by simpa using hvalue
        refine ⟨entry, rfl, by simpa using htype, ?_⟩
        rw [← hvalue]
        cases hkind : entry.data with
        | data d =>
          rw [hkind] at hdata
          cases hdata
          rfl
        | counter c =>
          rw [hkind] at hdata
          cases hdata

/-- A call returns as soon as it has its accepts. -/
theorem commit_returns {call' : CasCall} (h : call.commit config node = some (call', node')) :
    call'.toCasProposal = call.toCasProposal ∧ call'.response ≠ none ∧
      (call'.state = .COMITTED ∨ call'.state = .FAILED) := by
  obtain ⟨⟨saved, response⟩, -, hcall⟩ := map_eq_some_iff.mp h
  cases hcall
  refine ⟨rfl, by simp, ?_⟩
  cases response.isSuccessful
  · exact .inr rfl
  · exact .inl rfl

/-- What a write with its timestamp checked makes of a ready node that stores `d`: the value is
    stored unless `d` is newer, which is an error at the root of a bucket only. -/
structure Node.Writes (config : Configuration) (key value : SimpleString) (timestamp : LamportClock)
    (d : DataAVLNode) (result : Option DbEditResult) (node node' : Node) : Prop where
  ready : node'.Ready
  cases : (d.timestamp ≤ timestamp ∧ result.isSome = true ∧
      node'.view = node.view.put key (config.calculateHash key) ⟨value, timestamp⟩ ∧
      node'.clock = (node.clock.update .SET_MAX timestamp.counter).1) ∨
    (timestamp < d.timestamp ∧ result.isNone = node.atRoot (config.calculateHash key) ∧
      node'.view = node.view ∧ node'.clock = node.clock)

theorem Node.Writes.nodeId {timestamp : LamportClock} {result : Option DbEditResult}
    (h : node.Writes config key value timestamp d result node') :
    node'.clock.nodeId = node.clock.nodeId := by
  rcases h.cases with ⟨-, -, -, hclock⟩ | ⟨-, -, -, hclock⟩
  · rw [hclock]
    exact LamportClock.update_nodeId ..
  · rw [hclock]

section
variable (hready : node.Ready)
include hready

theorem Node.Ready.putData_writes (hm : node.memDbStores 0 = some m) (hwf : m.WellFormed)
    (hd : node.Stores (config.calculateHash key) d) (value : SimpleString)
    (timestamp : LamportClock) :
    ∃ m' clock result, m.putData config.calculateHash key value timestamp .SET_MAX node.clock true =
        some (m', clock, result) ∧
      ∀ rounds log, node.Writes config key value timestamp d result { node.setStore 0 m' clock with
          paxosRoundsAcceptatorByKeyHash := rounds, operationLog := log } := by
  obtain ⟨entry, hentry, -, hdata⟩ := hd
  rw [view_of_store hm] at hentry
  obtain ⟨m', clock, result, hput, hwf', -, hcases⟩ :=
    m.putData_spec hwf value node.clock timestamp .SET_MAX true
  refine ⟨m', clock, result, hput, fun rounds log => ?_⟩
  have hstore : (node.setStore 0 m' clock).memDbStores 0 = some m' := by
    simp [Node.setStore]
  refine ⟨⟨hready.running, hready.buffer, hready.outbox, m', hstore, hwf'⟩, ?_⟩
  rw [view_of_store hm, atRoot_of_store hm]
  rcases hcases with ⟨hacc, hclock, rfl, hview⟩ | ⟨hrej, hclock, rfl, hview⟩
  · obtain ⟨d', hd', hle⟩ := accepts_eq_true_iff.mp hacc entry hentry
    cases hdata.symm.trans hd'
    exact .inl ⟨hle, rfl, (view_of_store hstore).trans hview, hclock⟩
  · obtain ⟨entry', hentry', hnewer⟩ := accepts_eq_false_iff.mp hrej
    cases hentry.symm.trans hentry'
    refine .inr ⟨hnewer d hdata, ?_, (view_of_store hstore).trans hview, hclock⟩
    split
    · next hroot => exact (decide_eq_true hroot).symm
    · next hroot => exact (decide_eq_false hroot).symm

/-- `ACCEPT` as it is sent, at any node: it changes nothing where the node refuses it, and writes
    the value elsewhere. -/
theorem operate_acceptCas_cases (hpartition : options.partitionId = 0) (hargs : operation.args =
      some ([key, value] ++ (timestampArgs prevTimestamp ++ timestampArgs nextTimestamp)))
    (h : (AcceptCasOperator config).operate operation options node = some (node', response)) :
    (node' = node ∧ response.isSuccessful = false ∧
        node.Refuses config key prevTimestamp nextTimestamp) ∨
      ¬ node.Refuses config key prevTimestamp nextTimestamp ∧
        ∃ d result, node.Stores (config.calculateHash key) d ∧ d.timestamp ≤ prevTimestamp ∧
          node.Writes config key value nextTimestamp d result node' ∧
          response.isSuccessful = result.isSome := by
  obtain ⟨m, hm, hwf⟩ := hready.store
  have hkey : operation.getArg 0 = some key := by
    simp [getArg, hargs]
  have hvalue : operation.getArg 1 = some value := by
    simp [getArg, hargs]
  have hprev : operation.getTimestampArg 2 = some prevTimestamp :=
    getTimestampArg_timestampArgs hargs
  have hnext := getTimestampArg_next hargs
  simp only [AcceptCasOperator, hpartition, hm, hkey, hvalue, hprev, hnext, bind_eq_bind,
    bind_some, bind_eq_some_iff] at h
  obtain ⟨stored, hstored, h⟩ := h
  -- a value that is missing or outdated is refused; one that is not is written
  cases stored with
  | none =>
    cases h
    refine .inl ⟨rfl, rfl, ?_⟩
    intro d hd
    cases hstored.symm.trans (storedData_of_stores hm hwf hd)
  | some d =>
    have hd := stores_of_storedData hm hwf hstored
    dsimp only at h
    split at h
    · next houtdated =>
      cases h
      refine .inl ⟨rfl, rfl, ?_⟩
      intro stored hd'
      cases hd.data.symm.trans hd'.data
      exact isOutdated_iff.mp houtdated
    · next houtdated =>
      rw [isOutdated_iff] at houtdated
      obtain ⟨m', clock, result, hput, hwrites⟩ :=
        hready.putData_writes hm hwf hd value nextTimestamp
      refine .inr ⟨fun hrefuses => houtdated (hrefuses d hd), d, result, hd,
        not_lt.mp fun hnewer => houtdated (.inl hnewer), ?_⟩
      simp only [acceptCas, hput, bind_eq_bind, bind_some] at h
      -- `putData` compares with the stored version again and may still refuse
      split at h
      · next hsome =>
        obtain ⟨accepted, haccepted, hresult⟩ := bind_eq_some_iff.mp h
        cases hresult
        obtain ⟨round, -, rfl⟩ := map_eq_some_iff.mp haccepted
        exact ⟨hwrites _ _, hsome.symm⟩
      · next hnone =>
        cases h
        exact ⟨hwrites _ _, (Bool.eq_false_iff.mpr hnone).symm⟩

section
variable (hpartitions : config.usePartitions = false)
include hpartitions

/-- The expected value that a call has read is stored. -/
theorem stores_of_readExpected {expectedValue : SimpleString}
    (h : readExpectedAt config (getPartitionIdByKey config key) key expectedValue node =
      some (.ok prevTimestamp)) :
    node.Stores (config.calculateHash key) ⟨expectedValue, prevTimestamp⟩ := by
  obtain ⟨m, hm, hwf⟩ := hready.store
  rw [getPartitionIdByKey_zero hpartitions] at h
  rw [Node.Stores, view_of_store hm]
  exact readExpectedAt_ok hm hwf h

/-- What a pass of the loop makes of a call, and what it broadcasts: the call ends with an error, or
    it proposes anew, for the expected value that the node stores. -/
inductive CasCall.Renewed (config : Configuration) (node : Node) (before : CasCall) :
    CasCall → Option OperationBody → Prop where
  | fails {code : UInt8} {state : ProposerPaxosState}
      (hstate : state = .FAILED ∨ state = before.state) :
      Renewed config node before { before with state, response := some (Response.error code) } none
  | proposes {prevTimestamp : LamportClock}
      (hstored : node.Stores (config.calculateHash before.key)
        ⟨before.expectedValue, prevTimestamp⟩) :
      Renewed config node before
        { before with toCasProposal := before.next prevTimestamp, state := .WAITING_FOR_PROMISE,
                      broadcasts := before.broadcasts + 1 }
        (some (sendPrepare config before.key prevTimestamp
          (before.next prevTimestamp).nextTimestamp))

theorem renewed_of_prepare {call' : CasCall} {sent : Option OperationBody}
    (h : call.prepare config node = some (call', sent)) :
    call.Renewed config node call' sent := by
  obtain ⟨found, hread, hresult⟩ := map_eq_some_iff.mp h
  cases found with
  | error code =>
    cases hresult
    refine .fails ?_
    split
    · exact .inl rfl
    · exact .inr rfl
  | ok prevTimestamp =>
    cases hresult
    exact .proposes (stores_of_readExpected hready hpartitions hread)

/-- The end of a call: it writes its value, and fails where that is an error. -/
theorem commit_cases {call' : CasCall} (hd : node.Stores (config.calculateHash call.key) d)
    (h : call.commit config node = some (call', node')) :
    ∃ result, node.Writes config call.key call.newValue call.nextTimestamp d result node' ∧
      call' = if result.isSome then
          { call with state := .COMITTED, response := some Response.success }
        else call.abort := by
  obtain ⟨m, hm, hwf⟩ := hready.store
  obtain ⟨m', clock, result, hput, hwrites⟩ :=
    hready.putData_writes hm hwf hd call.newValue call.nextTimestamp
  refine ⟨result, ?_⟩
  simp only [CasCall.commit, saveToLocalDb, getPartitionIdByKey_zero hpartitions, hm, hput,
    bind_eq_bind, bind_some] at h
  cases result <;> cases h <;> exact ⟨hwrites _ _, rfl⟩

end

end

/-! ### Dispatching to acceptors -/

/-- On a ready node an operator that neither writes nor broadcasts is just executed. -/
theorem dispatch_maintenance {others : UInt8 → Option Operator} {operator : Operator}
    (request : Request) (hready : node.Ready)
    (hregistry : operatorRegistry config others request.operation.operatorNumber =
      some operator) (htype : operator.desc.type = .NODE_MAINTENANCE)
    (hproperties : operator.desc.properties = [])
    (hauthorized : isAuthorizedToExecute operator request.authenticationType = true) :
    dispatch config others request node =
      operator.operate request.operation (optionsOfRequest operator request 0) node := by
  have hexecute : canExecuteRequest config node = true := by
    simp [canExecuteRequest, hready.running]
  have haccept : canAcceptRequest config node = true := by
    simp [canAcceptRequest, hready.running]
  have hproperty : ∀ property, operator.hasProperty property = false := by
    intro property
    simp [Operator.hasProperty, hproperties]
  rw [dispatch_running config others hready.running hready.buffer]
  unfold dispatchNoApplyDelayedOperationsBuffer
  simp [hregistry, hauthorized, hexecute, haccept, htype, invalidPartition, partitionOfOperation,
    executeOperation, hproperty, addToOperationLog, broadcastAndWait]

end specs

end MemDb
