import MemDb.Operators.Replay
import MemDb.Operators.Cas
import MemDb.Persistence.OperationLogSerializer

/-! # Handing over a partition

    When the ring changes, a node sends the entries of a partition to the node that takes it over:
    `MoveOpLogRequestCreator` turns each entry into a `SET` and puts them into one `MOVE_OPLOG`,
    whose operator executes them on the partition. What arrives is what the operation log keeps of
    an entry: a key, a value and a counter. The id of the node that stamped the entry comes back as
    1, and of a counter nothing is sent at all.
-/

namespace MemDb

open List Option OperatorNumbers UInt32

/-! ### Creating the request -/

/-- The ids are of type `int` in the source; all that is used of them is their 32 bits. -/
structure CreateMoveOplogReqParams where
  oplog : List MapEntry
  applyNewOplog : Bool
  clearOldOplog : Bool
  oldOplogId : UInt32
  newOplogId : UInt32

def OperatorNumbers.MOVE_OPLOG : UInt8 := 6

namespace MoveOpLogRequestCreator

/-- `convertMapEntryIntoOperation`; `none` where the data is cast to a type that it does not
    have. -/
def convertMapEntryIntoOperation (entry : MapEntry) : Option OperationBody :=
  match entry.type with
  | .DATA => entry.data.asData.map fun dataEntry =>
      ⟨some [entry.key, dataEntry.value], dataEntry.timestamp.counter, 0, SET, false,
        false⟩
  | .COUNTER => some ⟨some [], 0, 0, SET, false, false⟩

def create (nodeAuthKey : List UInt8) (selfNodeId : UInt16) (params : CreateMoveOplogReqParams) :
    Option Request := do
  let createOperations ← params.oplog.mapM convertMapEntryIntoOperation
  let serialized ← OperationLogSerializer.serializeAll createOperations
  return {
    authentication := ⟨nodeAuthKey, true, false⟩
    operation := ⟨some [fromNumber 4 params.newOplogId.toNat, fromNumber 4 params.oldOplogId.toNat,
      serialized], 0, selfNodeId, MOVE_OPLOG, params.applyNewOplog,
      params.clearOldOplog⟩
    requestNumber := 0
    authenticationType := .USER }

end MoveOpLogRequestCreator

/-! ### The operator -/

def OperationBody.getArgOr (operation : OperationBody) (position : Nat) (other : SimpleString) :
    Option SimpleString :=
  operation.args.map fun args => args[position]?.getD other

/-- `MultipleOperationLog::hasOplogFile`: the comparison is the wrong way round, so that it is false
    or asks for a log beyond the last one. -/
def hasOplogFile (numberOplogs oplogId : UInt32) : Option Bool :=
  if numberOplogs < oplogId then none else some false

/-- `clearOperationLog`; the log and the store of partition 0 stay. -/
def clearOperationLog (operationLogId : UInt32) (node : Node) : Node :=
  if 0 < operationLogId then
    { node with
      operationLog := node.operationLog.filter fun logged => logged.1 ≠ operationLogId
      memDbStores := fun p => if p = operationLogId then none else node.memDbStores p }
  else node

/-- The options under which the operations of a `MOVE_OPLOG` are executed. The strategy is not given
    and starts as `NONE`. -/
def moveOplogOptions (newOplogId : UInt32) : OperationOptions where
  checkTimestamps := true
  dontBroadcastToCluster := false
  dontSaveInOperationLog := false
  updateClockStrategy := .NONE
  partitionId := newOplogId
  requestNumber := 0

section operator
variable (config : Configuration) (others : UInt8 → Option Operator)
  (nodesPerPartition numberOplogs : UInt32)

/-- The end of `operate`: the old log is cleared, the new one gets the operations once more, and the
    node runs. -/
def finishMove (clearOldOplog : Bool) (newOplogId oldOplogId : UInt32) (oplog : List OperationBody)
    (node : Node) : Node :=
  let node := if clearOldOplog then clearOperationLog oldOplogId node else node
  { node with
    operationLog := node.operationLog ++ oplog.map fun operation => (newOplogId, operation)
    nodeState := .RUNNING }

/-- The part of `operate` behind the deserializer. -/
def moveOplog (applyNewOplog clearOldOplog : Bool) (newOplogId oldOplogId : UInt32)
    (oplog : List OperationBody) (node : Node) : Option (Node × Response) := do
  let applies ← if applyNewOplog then some true else (hasOplogFile numberOplogs newOplogId).map not
  let node ← if applies then
      operatorsDispatcher config others (moveOplogOptions newOplogId) oplog node
    else some node
  return (finishMove clearOldOplog newOplogId oldOplogId oplog node, Response.success)

def MovePartitionOplogOperator : Operator where
  desc :=
    { type := .NODE_MAINTENANCE
      number := MOVE_OPLOG
      name := "MOVE_PARTITION_OPLOG"
      authorizedToExecute := [.NODE]
      properties := [] }
  operate operation _ node := do
    let newOplogId ← toNumber 4 (← operation.getArg 0)
    let oldOplogId ← toNumber 4 (← operation.getArg 1)
    if nodesPerPartition.toNat ≤ newOplogId then
      some (clearOperationLog (UInt32.ofNat oldOplogId) node, Response.success)
    else do
      let oplogRaw ← operation.getArgOr 2 []
      let oplog ← OperationLogDeserializer.deserializeAll oplogRaw
      moveOplog config others numberOplogs operation.flag1 operation.flag2
        (UInt32.ofNat newOplogId) (UInt32.ofNat oldOplogId) oplog node

end operator

/-! ### What a hand-over is to do -/

/-- The partition holds the entries and nothing else. -/
def Node.HoldsExactly (node : Node) (partitionId : UInt32) (entries : List MapEntry) : Prop :=
  ∃ store, node.memDbStores partitionId = some store ∧
    ∀ h entry, store.view h = some entry ↔ entry ∈ entries ∧ entry.keyHash = h

/-- The request can be made and executed, and the partition then holds the entries that it was made
    from. -/
def HandsOver (config : Configuration) (others : UInt8 → Option Operator)
    (nodesPerPartition numberOplogs : UInt32) (nodeAuthKey : List UInt8) (selfNodeId : UInt16)
    (params : CreateMoveOplogReqParams) (options : OperationOptions) (node : Node) : Prop :=
  ∃ request node' response,
    MoveOpLogRequestCreator.create nodeAuthKey selfNodeId params = some request ∧
    (MovePartitionOplogOperator config others nodesPerPartition numberOplogs).operate
      request.operation options node = some (node', response) ∧
    node'.HoldsExactly params.newOplogId params.oplog

/-! ### Entries that can be sent -/

open OperationLogSerializer OperationLogDeserializer RequestDeserializer MoveOpLogRequestCreator

/-- The value of an entry and its timestamp. -/
def movedData (entry : MapEntry) : DataAVLNode := entry.data.asData.getD ⟨[], ⟨0, 0⟩⟩

/-- The operation that an entry with a value is sent as. -/
def movedOperation (entry : MapEntry) : OperationBody :=
  ⟨some [entry.key, (movedData entry).value], (movedData entry).timestamp.counter, 0,
    SET, false, false⟩

/-- What is written at the other node for an entry with a value. -/
def movedWrite (entry : MapEntry) : SimpleString × DataAVLNode :=
  (entry.key, ⟨(movedData entry).value, ⟨1, readTimestamp (movedData entry).timestamp.counter⟩⟩)

/-- An entry that arrives as a `SET` with a key and a value. -/
structure Sendable (entry : MapEntry) : Prop where
  type : entry.type = .DATA
  data : entry.data = .data (movedData entry)
  key : entry.key ≠ []
  value : (movedData entry).value ≠ []

variable {entry : MapEntry} {operation : OperationBody}

theorem movedData_of_data {d : DataAVLNode} (hd : entry.data = .data d) :
    movedData entry = d := by
  simp [movedData, hd, NodeData.asData]

theorem data_of_asData {d : DataAVLNode} (hd : entry.data.asData = some d) :
    entry.data = .data d := by
  cases hdata : entry.data with
  | data d' =>
    rw [hdata] at hd
    rw [some.inj hd]
  | counter c =>
    rw [hdata] at hd
    cases hd

theorem Sendable.convert (h : Sendable entry) :
    convertMapEntryIntoOperation entry = some (movedOperation entry) := by
  unfold convertMapEntryIntoOperation
  rw [h.type, h.data]
  rfl

theorem mapM_of_sendable {entries : List MapEntry} (h : ∀ entry ∈ entries, Sendable entry) :
    entries.mapM convertMapEntryIntoOperation = some (entries.map movedOperation) := by
  induction entries with
  | nil => rfl
  | cons entry entries ih =>
    rw [mapM_cons, (h entry mem_cons_self).convert,
      ih (fun e he => h e (mem_cons_of_mem _ he))]
    rfl

/-- The operations that entries are sent as. -/
theorem convert_cases (h : convertMapEntryIntoOperation entry = some operation) :
    operation.operatorNumber = SET ∧
      ((entry.type = .DATA ∧ entry.data = .data (movedData entry) ∧
        operation.args = some [entry.key, (movedData entry).value]) ∨
          operation.args = some []) := by
  unfold convertMapEntryIntoOperation at h
  cases htype : entry.type with
  | DATA =>
    rw [htype] at h
    obtain ⟨d, hd, rfl⟩ := map_eq_some_iff.mp h
    have hdata := data_of_asData hd
    rw [movedData_of_data hdata]
    exact ⟨rfl, .inl ⟨rfl, hdata, rfl⟩⟩
  | COUNTER =>
    rw [htype] at h
    cases h
    exact ⟨rfl, .inr rfl⟩

/-- An operation that has both arguments when it is read back comes from an entry that can be
    sent. -/
theorem sendable_of_readBack (h : convertMapEntryIntoOperation entry = some operation)
    {key value : SimpleString} {rest : List SimpleString}
    (hargs : (readBack operation).args = some (key :: value :: rest)) :
    Sendable entry := by
  have htake := some.inj hargs
  obtain ⟨-, ⟨htype, hdata, hoperation⟩ | hoperation⟩ := convert_cases h
  · rw [hoperation] at htake
    by_cases hkey : entry.key = []
    · simp [hkey] at htake
    · by_cases hvalue : (movedData entry).value = []
      · simp [hkey, hvalue] at htake
      · exact ⟨htype, hdata, hkey, hvalue⟩
  · rw [hoperation] at htake
    cases htake

/-- The size of a key and a value whose record fits into a byte. -/
def SmallEntry (entry : MapEntry) : Prop :=
  ∀ d, entry.data = .data d → entry.key.length + d.value.length ≤ 234

theorem SmallEntry.record_lt (hsmall : SmallEntry entry)
    (h : convertMapEntryIntoOperation entry = some operation) :
    (recordBytes operation).length < 256 := by
  rw [length_recordBytes]
  obtain ⟨-, ⟨-, hdata, hargs⟩ | hargs⟩ := convert_cases h
  · have hsize := hsmall _ hdata
    simp only [hargs, getD_some, flatMap_cons, flatMap_nil, length_append,
      RequestSerializer.argBytes, Lib.BigEndian.length_encode, length_nil]
    omega
  · simp [hargs]

theorem Sendable.fits (h : Sendable entry) (hsmall : SmallEntry entry) :
    Fits (movedOperation entry) where
  operatorNumber := by
    show SET.toNat < 64
    decide
  args := by
    intro arg harg
    obtain rfl | hrest := mem_cons.mp harg
    · exact h.key
    · rw [mem_singleton.mp hrest]
      exact h.value
  size := hsmall.record_lt h.convert

/-! ### Executing the operations -/

section execute
variable (config : Configuration) (others : UInt8 → Option Operator) {partitionId : UInt32}

theorem Sendable.isSet {entry : MapEntry} (h : Sendable entry) :
    (readBack (movedOperation entry)).IsSet entry.key (movedData entry).value := by
  refine ⟨rfl, [], ?_⟩
  simp [readBack, readOperation, movedOperation, h.key, h.value]

/-- No value refuses a write whose strategy is `NONE`. -/
theorem accepts_none {m : Map} (hdata : m.DataOnly) (h : UInt32) (timestamp : LamportClock) :
    m.view.accepts h timestamp .NONE true = true := by
  unfold View.accepts
  cases hentry : m.view h with
  | none => rfl
  | some entry =>
    obtain ⟨d, hd⟩ := hdata h entry hentry
    simp [hd, AVLTree.refuses]

variable {node : Node} {entries : List MapEntry} {decoded operations : List OperationBody}

/-- The entries of a partition are written one after another, in the order of the list. -/
theorem operatorsDispatcher_moved (hsend : ∀ entry ∈ entries, Sendable entry) {m : Map}
    (hm : node.memDbStores partitionId = some m) (hwf : m.WellFormed) (hdata : m.DataOnly) :
    ∃ node' m', operatorsDispatcher config others (moveOplogOptions partitionId)
        ((entries.map movedOperation).map readBack) node = some node' ∧
      node'.memDbStores partitionId = some m' ∧
      m'.view = m.view.putAll config.calculateHash (entries.map movedWrite) := by
  induction entries generalizing node m with
  | nil => exact ⟨node, m, rfl, hm, rfl⟩
  | cons entry entries ih =>
    have hfirst := hsend entry mem_cons_self
    have haccepts := accepts_none hdata (config.calculateHash entry.key)
      (readBack (movedOperation entry)).stamp
    obtain ⟨m₁, clock₁, result₁, hput, hwf₁, -, ⟨-, -, -, hview⟩ | ⟨hrefused, -⟩⟩ :=
      m.putData_spec hwf (movedData entry).value node.clock _ _ _
    swap
    · cases haccepts.symm.trans hrefused
    obtain ⟨node₁, hexecute, -, -, hstores, -⟩ := operatorsDispatcher_set config others
      (moveOplogOptions partitionId) hfirst.isSet rfl hm hput
      ((entries.map movedOperation).map readBack)
    have hm₁ : node₁.memDbStores partitionId = some m₁ := by
      rw [hstores]
      exact if_pos rfl
    obtain ⟨node', m', hrest, hm', hview'⟩ := ih (fun e he => hsend e (mem_cons_of_mem _ he))
      hm₁ hwf₁ (hdata.put hview)
    refine ⟨node', m', ?_, hm', ?_⟩
    · rw [map_cons, map_cons, hexecute, hrest]
    · rw [hview', hview]
      rfl

/-- The operations that have been executed come from entries that can be sent: the first one that
    does not would have stopped the node. -/
theorem sendable_of_executed {front : List MapEntry} (hfront : ∀ entry ∈ front, Sendable entry)
    {entry : MapEntry} {back : List MapEntry} (hsmall : ∀ e ∈ front ++ entry :: back, SmallEntry e)
    (hoperations : (front ++ entry :: back).mapM convertMapEntryIntoOperation = some operations)
    (hlen : (operations.flatMap recordBytes).length < 2 ^ 31)
    (hdecoded : deserializeAll (operations.flatMap recordBytes) = some decoded) {node' : Node}
    (hexecute : operatorsDispatcher config others (moveOplogOptions partitionId) decoded
      node = some node') : Sendable entry := by
  -- the operations of the front, of the entry and of the back
  rw [mapM_append, mapM_of_sendable hfront, mapM_cons] at hoperations
  simp only [Option.bind_eq_bind, Option.bind_some, Option.bind_eq_some_iff, Option.pure_def,
    Option.some.injEq] at hoperations
  obtain ⟨_, ⟨operation, hoperation, following, -, rfl⟩, rfl⟩ := hoperations
  have hset := (convert_cases hoperation).1
  rw [flatMap_append, flatMap_cons] at hlen hdecoded
  simp only [length_append] at hlen
  have hfits : ∀ o ∈ front.map movedOperation, Fits o := by
    intro o ho
    obtain ⟨e, he, rfl⟩ := mem_map.mp ho
    exact (hfront e he).fits (hsmall e (mem_append_left _ he))
  obtain ⟨rest, rfl⟩ := deserializeAll_split hfits (by rw [hset]; decide) _ (by omega) hdecoded
  rw [operatorsDispatcher_append] at hexecute
  obtain ⟨middle, -, hexecute⟩ := bind_eq_some_iff.mp hexecute
  obtain ⟨key, value, arguments, hargs⟩ := args_of_operatorsDispatcher_set config others
    (moveOplogOptions partitionId) (show (readBack operation).operatorNumber = _ from hset) hexecute
  exact sendable_of_readBack hoperation hargs

theorem sendable_of_all_executed (hsmall : ∀ e ∈ entries, SmallEntry e)
    (hoperations : entries.mapM convertMapEntryIntoOperation = some operations)
    (hlen : (operations.flatMap recordBytes).length < 2 ^ 31)
    (hdecoded : deserializeAll (operations.flatMap recordBytes) = some decoded) {node' : Node}
    (hexecute : operatorsDispatcher config others (moveOplogOptions partitionId) decoded
      node = some node') : ∀ entry ∈ entries, Sendable entry := by
  -- by induction on what is behind a front of entries that can be sent
  have hback : ∀ back front, front ++ back = entries → (∀ entry ∈ front, Sendable entry) →
      ∀ entry ∈ back, Sendable entry := by
    intro back
    induction back with
    | nil =>
      intro _ _ _ entry hentry
      cases hentry
    | cons first back ih =>
      intro front hentries hfront
      subst hentries
      have hfirst := sendable_of_executed config others hfront hsmall hoperations hlen
        hdecoded hexecute
      intro entry hentry
      obtain rfl | hrest := mem_cons.mp hentry
      · exact hfirst
      · apply ih (front ++ [first]) (by simp)
        · intro e he
          obtain he | he := mem_append.mp he
          · exact hfront e he
          · rw [mem_singleton.mp he]
            exact hfirst
        · exact hrest
  exact hback entries [] rfl (fun e he => absurd he not_mem_nil)

end execute

/-! ### What arrives -/

/-- The entries that arrive as they were: values under the hash of their key, stamped by node 1 with
    a counter that survives the log. -/
structure Carried (calculateHash : SimpleString → UInt32) (entry : MapEntry) : Prop where
  sendable : Sendable entry
  nodeId : (movedData entry).timestamp.nodeId = 1
  counter : readTimestamp (movedData entry).timestamp.counter = (movedData entry).timestamp.counter
  keyHash : entry.keyHash = calculateHash entry.key

section arrive
variable {calculateHash : SimpleString → UInt32} {entries : List MapEntry}

/-- Each entry of the new partition has been written by one of the entries with its hash, and got
    its key from one. -/
theorem writtenBy_moved {V : View} (hV : ∀ h, V h = none) {h : UInt32} {entry : MapEntry}
    (hentry : V.putAll calculateHash (entries.map movedWrite) h = some entry) :
    entry.keyHash = h ∧ entry.type = .DATA ∧
      (∃ e ∈ entries, e.key = entry.key ∧ calculateHash e.key = h) ∧
      ∃ e ∈ entries, calculateHash e.key = h ∧ entry.data = .data (movedWrite e).2 := by
  have hwritten := View.putAll_writtenBy (List.Subset.refl (entries.map movedWrite))
    (fun h entry hentry => by rw [hV h] at hentry; cases hentry) h entry hentry
  obtain ⟨hkeyHash, htype, ⟨write, hwrite, hkey, hhash⟩, ⟨write', hwrite', hhash', hdata⟩⟩ :=
    hwritten
  obtain ⟨e, he, rfl⟩ := mem_map.mp hwrite
  obtain ⟨e', he', rfl⟩ := mem_map.mp hwrite'
  exact ⟨hkeyHash, htype, ⟨e, he, hkey, hhash⟩, ⟨e', he', hhash', hdata⟩⟩

theorem Carried.movedWrite_eq {entry : MapEntry} (h : Carried calculateHash entry) :
    movedWrite entry = (entry.key, movedData entry) := by
  have hnode := h.nodeId
  have hcounter := h.counter
  unfold movedWrite
  rw [hcounter, ← hnode]

/-- The partition holds exactly the entries, where all of them could be sent, if and only if each
    one is carried and no two of them have one hash. -/
theorem putAll_moved_iff {V : View} (hV : ∀ h, V h = none)
    (hsend : ∀ entry ∈ entries, Sendable entry) :
    (∀ h entry, V.putAll calculateHash (entries.map movedWrite) h = some entry ↔
      entry ∈ entries ∧ entry.keyHash = h) ↔
    (∀ entry ∈ entries, Carried calculateHash entry) ∧
      ∀ e ∈ entries, ∀ e' ∈ entries, e.keyHash = e'.keyHash → e = e' := by
  constructor
  · intro hexact
    have hsame : ∀ e ∈ entries, ∀ e' ∈ entries, e.keyHash = e'.keyHash → e = e' := by
      intro e he e' he' hhash
      have hfound := (hexact e.keyHash e).mpr ⟨he, rfl⟩
      exact some.inj (hfound.symm.trans ((hexact e.keyHash e').mpr ⟨he', hhash.symm⟩))
    have hhash : ∀ e ∈ entries, e.keyHash = calculateHash e.key := by
      intro e he
      obtain ⟨-, -, ⟨first, -, hkey, hhash⟩, -⟩ :=
        writtenBy_moved hV ((hexact e.keyHash e).mpr ⟨he, rfl⟩)
      rw [← hhash, hkey]
    refine ⟨?_, hsame⟩
    intro entry hentry
    obtain ⟨-, -, -, last, hlast, hlastHash, hdata⟩ :=
      writtenBy_moved hV ((hexact entry.keyHash entry).mpr ⟨hentry, rfl⟩)
    -- the entry was written by itself
    obtain rfl := hsame last hlast entry hentry ((hhash last hlast).trans hlastHash)
    rw [(hsend last hlast).data] at hdata
    have hmoved := NodeData.data.inj hdata
    exact ⟨hsend last hlast, congrArg (·.timestamp.nodeId) hmoved,
      (congrArg (·.timestamp.counter) hmoved).symm, hhash last hlast⟩
  · rintro ⟨hcarried, hsame⟩
    have hfound : ∀ h entry, V.putAll calculateHash (entries.map movedWrite) h = some entry →
        entry ∈ entries ∧ entry.keyHash = h := by
      intro h entry hentry
      obtain ⟨hkeyHash, htype, ⟨first, hfirst, hkey, hfirstHash⟩, last, hlast, hlastHash, hdata⟩ :=
        writtenBy_moved hV hentry
      have hfirstKey := (hcarried first hfirst).keyHash.trans hfirstHash
      -- the first and the last write are those of one entry
      obtain rfl := hsame first hfirst last hlast
        (hfirstKey.trans ((hcarried last hlast).keyHash.trans hlastHash).symm)
      have hentry : entry = first := by
        rw [(hcarried first hfirst).movedWrite_eq, ← (hcarried first hfirst).sendable.data] at hdata
        cases entry
        cases first
        simp only [MapEntry.mk.injEq]
        exact ⟨hkey.symm, hkeyHash.trans hfirstKey.symm,
          htype.trans (hcarried _ hfirst).sendable.type.symm, hdata⟩
      rw [hentry]
      exact ⟨hfirst, hfirstKey⟩
    intro h entry
    refine ⟨hfound h entry, ?_⟩
    rintro ⟨hentry, rfl⟩
    have hsome : (V.putAll calculateHash (entries.map movedWrite) entry.keyHash).isSome :=
      View.putAll_isSome (.inr ⟨movedWrite entry, mem_map_of_mem hentry,
        (hcarried entry hentry).keyHash.symm⟩)
    obtain ⟨found, hget⟩ := isSome_iff_exists.mp hsome
    obtain ⟨hmem, hhash⟩ := hfound _ found hget
    rw [hget, hsame found hmem entry hentry hhash]

end arrive

/-! ### Handing over -/

/-- Clearing the old log removes the partition that the entries were sent to. -/
def CreateMoveOplogReqParams.ClearsTarget (params : CreateMoveOplogReqParams) : Prop :=
  params.clearOldOplog = true ∧ 0 < params.oldOplogId ∧ params.newOplogId = params.oldOplogId

section handover
variable {config : Configuration} {others : UInt8 → Option Operator}
  {nodesPerPartition numberOplogs : UInt32} {nodeAuthKey : List UInt8} {selfNodeId : UInt16}
  {params : CreateMoveOplogReqParams} {options : OperationOptions} {node : Node} {m : Map}

theorem create_eq_some_iff (nodeAuthKey : List UInt8) (selfNodeId : UInt16)
    (params : CreateMoveOplogReqParams) (request : Request) :
    create nodeAuthKey selfNodeId params = some request ↔
      ∃ operations log, params.oplog.mapM convertMapEntryIntoOperation = some operations ∧
        serializeAll operations = some log ∧
        request = ⟨⟨nodeAuthKey, true, false⟩, ⟨some [fromNumber 4 params.newOplogId.toNat,
          fromNumber 4 params.oldOplogId.toNat, log], 0, selfNodeId, MOVE_OPLOG,
          params.applyNewOplog, params.clearOldOplog⟩, 0, .USER⟩ := by
  unfold create
  simp only [Option.bind_eq_bind, Option.bind_eq_some_iff, Option.pure_def, Option.some.injEq]
  constructor
  · rintro ⟨operations, hoperations, log, hlog, rfl⟩
    exact ⟨operations, log, hoperations, hlog, rfl⟩
  · rintro ⟨operations, log, hoperations, hlog, rfl⟩
    exact ⟨operations, hoperations, log, hlog, rfl⟩

/-- The operator reads the ids and the log that the request was made with. -/
theorem operate_created (hnew : params.newOplogId < nodesPerPartition) (log : List UInt8) :
    (MovePartitionOplogOperator config others nodesPerPartition numberOplogs).operate
        ⟨some [fromNumber 4 params.newOplogId.toNat, fromNumber 4 params.oldOplogId.toNat, log], 0,
          selfNodeId, MOVE_OPLOG, params.applyNewOplog, params.clearOldOplog⟩
        options node =
      (deserializeAll log).bind fun oplog => moveOplog config others numberOplogs
        params.applyNewOplog params.clearOldOplog params.newOplogId params.oldOplogId oplog
          node := by
  have hnewNumber : toNumber 4 (fromNumber 4 params.newOplogId.toNat) =
      some params.newOplogId.toNat := toNumber_fromNumber params.newOplogId.toNat_lt
  have holdNumber : toNumber 4 (fromNumber 4 params.oldOplogId.toNat) =
      some params.oldOplogId.toNat := toNumber_fromNumber params.oldOplogId.toNat_lt
  have hheld : ¬ nodesPerPartition.toNat ≤ params.newOplogId.toNat :=
    Nat.not_le.mpr (lt_iff_toNat_lt.mp hnew)
  simp [MovePartitionOplogOperator, OperationBody.getArg, OperationBody.getArgOr, hnewNumber,
    holdNumber, hheld]

theorem moveOplog_apply (happly : params.applyNewOplog = true) (oplog : List OperationBody) :
    moveOplog config others numberOplogs params.applyNewOplog params.clearOldOplog
        params.newOplogId params.oldOplogId oplog node =
      (operatorsDispatcher config others (moveOplogOptions params.newOplogId) oplog
        node).map fun executed => (finishMove params.clearOldOplog params.newOplogId
          params.oldOplogId oplog executed, Response.success) := by
  unfold moveOplog
  rw [happly]
  cases operatorsDispatcher config others (moveOplogOptions params.newOplogId) oplog node <;>
    rfl

/-- The target is as the operations have left it, unless it is cleared. -/
theorem memDbStores_finishMove (params : CreateMoveOplogReqParams) (oplog : List OperationBody)
    (executed : Node) :
    (params.ClearsTarget ∧
      (finishMove params.clearOldOplog params.newOplogId params.oldOplogId oplog
        executed).memDbStores params.newOplogId = none) ∨
    (¬ params.ClearsTarget ∧
      (finishMove params.clearOldOplog params.newOplogId params.oldOplogId oplog
        executed).memDbStores params.newOplogId = executed.memDbStores params.newOplogId) := by
  unfold CreateMoveOplogReqParams.ClearsTarget finishMove clearOperationLog
  cases params.clearOldOplog with
  | false => simp
  | true =>
    by_cases hpos : 0 < params.oldOplogId
    · by_cases htarget : params.newOplogId = params.oldOplogId <;> simp [hpos, htarget]
    · simp [hpos]

theorem exists_of_mem_mapM {α β : Type} {f : α → Option β} {xs : List α} {ys : List β}
    (h : xs.mapM f = some ys) {y : β} (hy : y ∈ ys) : ∃ x ∈ xs, f x = some y := by
  induction xs generalizing ys with
  | nil =>
    cases h
    cases hy
  | cons x xs ih =>
    rw [mapM_cons] at h
    simp only [Option.bind_eq_bind, Option.bind_eq_some_iff, Option.pure_def,
      Option.some.injEq] at h
    obtain ⟨first, hfirst, rest, hrest, rfl⟩ := h
    obtain rfl | hmem := mem_cons.mp hy
    · exact ⟨x, mem_cons_self, hfirst⟩
    · obtain ⟨x', hx', hfx'⟩ := ih hrest hmem
      exact ⟨x', mem_cons_of_mem _ hx', hfx'⟩

/-- The hypotheses of a hand-over: the node holds the target partition, which is empty, and the log
    fits into the sizes that the deserializer can step over. -/
structure Prepared (nodesPerPartition : UInt32) (params : CreateMoveOplogReqParams) (node : Node)
    (m : Map) : Prop where
  applies : params.applyNewOplog = true
  holds : params.newOplogId < nodesPerPartition
  store : node.memDbStores params.newOplogId = some m
  wellFormed : m.WellFormed
  empty : ∀ h, m.view h = none
  small : ∀ entry ∈ params.oplog, SmallEntry entry
  size : ∀ operations log, params.oplog.mapM convertMapEntryIntoOperation = some operations →
    serializeAll operations = some log → log.length < 2 ^ 31

section
variable (hprepared : Prepared nodesPerPartition params node m)
include hprepared

theorem Prepared.serializeAll_eq {operations : List OperationBody}
    (hoperations : params.oplog.mapM convertMapEntryIntoOperation = some operations) :
    serializeAll operations = some (operations.flatMap recordBytes) ∧
      (operations.flatMap recordBytes).length < 2 ^ 31 := by
  have hlog : serializeAll operations = some (operations.flatMap recordBytes) := by
    apply serializeAll_of_lt
    intro operation hoperation
    obtain ⟨entry, hentry, hconvert⟩ := exists_of_mem_mapM hoperations hoperation
    exact length_lt_of_recordBytes ((hprepared.small entry hentry).record_lt hconvert)
  exact ⟨hlog, hprepared.size operations _ hoperations hlog⟩

theorem Prepared.dataOnly : m.DataOnly := by
  intro h entry hentry
  rw [hprepared.empty h] at hentry
  cases hentry

/-- What the operator leaves of entries that can be sent. -/
theorem Prepared.execute (hsend : ∀ entry ∈ params.oplog, Sendable entry) :
    ∃ executed m', (deserializeAll ((params.oplog.map movedOperation).flatMap recordBytes)) =
        some ((params.oplog.map movedOperation).map readBack) ∧
      operatorsDispatcher config others (moveOplogOptions params.newOplogId)
        ((params.oplog.map movedOperation).map readBack) node = some executed ∧
      executed.memDbStores params.newOplogId = some m' ∧
      m'.view = m.view.putAll config.calculateHash (params.oplog.map movedWrite) := by
  have hfits : ∀ operation ∈ params.oplog.map movedOperation, Fits operation := by
    intro operation hoperation
    obtain ⟨entry, hentry, rfl⟩ := mem_map.mp hoperation
    exact (hsend entry hentry).fits (hprepared.small entry hentry)
  have hsize := (hprepared.serializeAll_eq (mapM_of_sendable hsend)).2
  obtain ⟨executed, m', hexecute, hstore, hview⟩ := operatorsDispatcher_moved config others
    hsend hprepared.store hprepared.wellFormed hprepared.dataOnly
  exact ⟨executed, m', deserializeAll_flatMap hfits hsize, hexecute, hstore, hview⟩

/-- What a partition that has been handed over tells of its entries. -/
theorem Prepared.carried_of_handsOver
    (h : HandsOver config others nodesPerPartition numberOplogs nodeAuthKey selfNodeId params
      options node) :
    (∀ entry ∈ params.oplog, Carried config.calculateHash entry) ∧
      (∀ e ∈ params.oplog, ∀ e' ∈ params.oplog, e.keyHash = e'.keyHash → e = e') ∧
      ¬ params.ClearsTarget := by
  obtain ⟨request, node', response, hcreate, hoperate, store, hstore, hexact⟩ := h
  obtain ⟨operations, log, hoperations, hlog, rfl⟩ := (create_eq_some_iff _ _ _ _).mp hcreate
  obtain ⟨hserialize, hsize⟩ := hprepared.serializeAll_eq hoperations
  cases hserialize.symm.trans hlog
  rw [operate_created hprepared.holds] at hoperate
  obtain ⟨decoded, hdecoded, hmove⟩ := bind_eq_some_iff.mp hoperate
  rw [moveOplog_apply hprepared.applies] at hmove
  obtain ⟨executed, hexecute, hfinish⟩ := map_eq_some_iff.mp hmove
  cases hfinish
  -- all operations have been executed, so that all of them had a key and a value
  have hsend := sendable_of_all_executed config others hprepared.small hoperations hsize
    hdecoded hexecute
  cases (mapM_of_sendable hsend).symm.trans hoperations
  obtain ⟨executed', m', hdecoded', hexecute', hm', hview⟩ := hprepared.execute hsend
  cases hdecoded'.symm.trans hdecoded
  obtain rfl := some.inj (hexecute'.symm.trans hexecute)
  obtain ⟨hclears, hnone⟩ | ⟨hclears, hkept⟩ := memDbStores_finishMove params
    ((params.oplog.map movedOperation).map readBack) executed'
  · rw [hnone] at hstore
    cases hstore
  · rw [hkept, hm'] at hstore
    cases hstore
    rw [hview] at hexact
    obtain ⟨hcarried, hsame⟩ := (putAll_moved_iff hprepared.empty hsend).mp hexact
    exact ⟨hcarried, hsame, hclears⟩

/-- Entries that can be sent are written to the target. -/
theorem Prepared.moves (hsend : ∀ entry ∈ params.oplog, Sendable entry)
    (hclears : ¬ params.ClearsTarget) :
    ∃ request node' m', create nodeAuthKey selfNodeId params = some request ∧
      (MovePartitionOplogOperator config others nodesPerPartition numberOplogs).operate
        request.operation options node = some (node', Response.success) ∧
      node'.memDbStores params.newOplogId = some m' ∧
      m'.view = m.view.putAll config.calculateHash (params.oplog.map movedWrite) := by
  have hoperations := mapM_of_sendable hsend
  have hserialize := (hprepared.serializeAll_eq hoperations).1
  have hcreate := (create_eq_some_iff nodeAuthKey selfNodeId params _).mpr
    ⟨_, _, hoperations, hserialize, rfl⟩
  obtain ⟨executed, m', hdecoded, hexecute, hm', hview⟩ := hprepared.execute hsend
  refine ⟨_, finishMove params.clearOldOplog params.newOplogId params.oldOplogId
    ((params.oplog.map movedOperation).map readBack) executed, m', hcreate, ?_, ?_, hview⟩
  · rw [operate_created hprepared.holds, hdecoded, bind_some, moveOplog_apply
      hprepared.applies, hexecute, map_some]
  · obtain ⟨hclears', -⟩ | ⟨-, hkept⟩ := memDbStores_finishMove params
      ((params.oplog.map movedOperation).map readBack) executed
    · exact absurd hclears' hclears
    · rw [hkept, hm']

theorem Prepared.handsOver_of_carried
    (hcarried : ∀ entry ∈ params.oplog, Carried config.calculateHash entry)
    (hsame : ∀ e ∈ params.oplog, ∀ e' ∈ params.oplog, e.keyHash = e'.keyHash → e = e')
    (hclears : ¬ params.ClearsTarget) :
    HandsOver config others nodesPerPartition numberOplogs nodeAuthKey selfNodeId params
      options node := by
  have hsend : ∀ entry ∈ params.oplog, Sendable entry :=
    fun entry hentry => (hcarried entry hentry).sendable
  obtain ⟨request, node', m', hcreate, hoperate, hm', hview⟩ := hprepared.moves hsend hclears
  refine ⟨request, node', Response.success, hcreate, hoperate, m', hm', ?_⟩
  rw [hview]
  exact (putAll_moved_iff hprepared.empty hsend).mpr ⟨hcarried, hsame⟩

end

/-- A partition is handed over as it was if and only if all its entries are values that were stamped
    by node 1 with a counter that survives the log, with neither key nor value empty, and the
    request does not clear what it has just written. -/
theorem handsOver_iff (hprepared : Prepared nodesPerPartition params node m) :
    HandsOver config others nodesPerPartition numberOplogs nodeAuthKey selfNodeId params
        options node ↔
      (∀ entry ∈ params.oplog, Carried config.calculateHash entry) ∧
        (∀ e ∈ params.oplog, ∀ e' ∈ params.oplog, e.keyHash = e'.keyHash → e = e') ∧
        ¬ params.ClearsTarget := by
  constructor
  · exact hprepared.carried_of_handsOver
  · rintro ⟨hcarried, hsame, hclears⟩
    exact hprepared.handsOver_of_carried hcarried hsame hclears

end handover

/-! ### Two nodes -/

/-- The entries sent to partition 0, which is never cleared. -/
def sentToFirst (oplog : List MapEntry) : CreateMoveOplogReqParams where
  oplog := oplog
  applyNewOplog := true
  clearOldOplog := true
  oldOplogId := 0
  newOplogId := 0

theorem not_clearsTarget_sentToFirst (oplog : List MapEntry) :
    ¬ (sentToFirst oplog).ClearsTarget := by
  intro hclears
  exact absurd hclears.2.1 (by show ¬ (0 : UInt32) < 0; decide)

/-- The value `v` under the key `k`, stamped by a node. -/
def stampedEntry (nodeId : UInt16) : MapEntry :=
  ⟨[107], shortKeyHash [107], .DATA, .data ⟨[118], ⟨nodeId, 5⟩⟩⟩

/-- A counter under the key `k` that has never been changed. -/
def counterEntry : MapEntry :=
  ⟨[107], shortKeyHash [107], .COUNTER, .counter (Counter.new 1 2)⟩

/-- Two values that node 1 has stamped. -/
def twoEntries : List MapEntry :=
  [stampedEntry 1, { stampedEntry 1 with key := [108], keyHash := shortKeyHash [108] }]

theorem prepared_sentToFirst {oplog : List MapEntry}
    (hoplog : oplog = twoEntries ∨ oplog = [stampedEntry 2] ∨ oplog = [counterEntry]) :
    ∃ m, Prepared 2 (sentToFirst oplog) (emptyNode .RUNNING 2) m := by
  have hholds : (0 : UInt32) < 2 := by decide
  refine ⟨_, rfl, hholds, rfl, Map.wellFormed_new 1 _, Map.view_new 1 _, ?_, ?_⟩
  · intro entry hentry d hd
    obtain rfl | rfl | rfl := hoplog
    · obtain rfl | hentry := mem_cons.mp hentry
      · obtain rfl := NodeData.data.inj hd
        decide
      · obtain rfl := mem_singleton.mp hentry
        obtain rfl := NodeData.data.inj hd
        decide
    · obtain rfl := mem_singleton.mp hentry
      obtain rfl := NodeData.data.inj hd
      decide
    · obtain rfl := mem_singleton.mp hentry
      cases hd
  · intro operations log hoperations hlog
    obtain rfl | rfl | rfl := hoplog <;>
    · cases hoperations
      cases hlog
      decide

theorem handsOver_stamped_by_first :
    HandsOver firstNode (fun _ => none) 2 2 [110] 1 (sentToFirst twoEntries) (moveOplogOptions 0)
      (emptyNode .RUNNING 2) := by
  obtain ⟨m, hprepared⟩ := prepared_sentToFirst (.inl rfl)
  apply (handsOver_iff hprepared).mpr
  refine ⟨?_, by decide, not_clearsTarget_sentToFirst _⟩
  intro entry hentry
  obtain rfl | hentry := mem_cons.mp hentry
  · exact ⟨⟨rfl, rfl, by decide, by decide⟩, rfl, by decide, rfl⟩
  · obtain rfl := mem_singleton.mp hentry
    exact ⟨⟨rfl, rfl, by decide, by decide⟩, rfl, by decide, rfl⟩

/-- A value that node 2 stamped arrives with the stamp of node 1, and a counter does not arrive at
    all. -/
theorem stamp_and_counter_lost :
    (∃ request node' response,
      create [110] 1 (sentToFirst [stampedEntry 2]) = some request ∧
      (MovePartitionOplogOperator firstNode (fun _ => none) 2 2).operate request.operation
        (moveOplogOptions 0) (emptyNode .RUNNING 2) = some (node', response) ∧
      (node'.memDbStores 0).bind (fun store => store.view (shortKeyHash [107])) =
        some (stampedEntry 1)) ∧
    ¬ HandsOver firstNode (fun _ => none) 2 2 [110] 1 (sentToFirst [counterEntry])
      (moveOplogOptions 0) (emptyNode .RUNNING 2) := by
  constructor
  · obtain ⟨m, hprepared⟩ := prepared_sentToFirst (.inr (.inl rfl))
    have hsend : ∀ entry ∈ [stampedEntry 2], Sendable entry := by
      intro entry hentry
      obtain rfl := mem_singleton.mp hentry
      exact ⟨rfl, rfl, by decide, by decide⟩
    obtain ⟨request, node', m', hcreate, hoperate, hm', hview⟩ :=
      hprepared.moves hsend (not_clearsTarget_sentToFirst _)
    refine ⟨request, node', Response.success, hcreate, hoperate, ?_⟩
    show (node'.memDbStores (sentToFirst [stampedEntry 2]).newOplogId).bind _ = _
    rw [hm', bind_some, hview]
    show m.view.put _ (shortKeyHash [107]) _ (shortKeyHash [107]) = _
    rw [View.put_self, View.written, hprepared.empty]
    decide
  · intro hhands
    obtain ⟨m, hprepared⟩ := prepared_sentToFirst (.inr (.inr rfl))
    have hcarried := (hprepared.carried_of_handsOver hhands).1 counterEntry mem_cons_self
    cases hcarried.sendable.type

end MemDb
