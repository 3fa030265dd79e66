import MemDb.Operators.ClockDiscipline
import MemDb.Operators.Restore

/-! # Durability

    A node executes requests for `SET` and `DEL`, of clients and of other nodes, and the flusher
    writes what has succeeded to the log on disk, in any order. After a restart the log is executed
    again.

    As long as the node stores nothing but writes that are stamped with node id 1, its store is
    under every hash the register of its own log, in the order of execution: the `SET` of a client
    has a counter above all that is stored, and what is refused changes nothing, logged or not. What
    comes back after the restart is the register of the same operations in the order of the file.
-/

namespace MemDb

open Lib Lib.Run Option OperatorNumbers List ErrorCode

/-! ### Requests -/

/-- The timestamp under which a request is executed, and with which it comes back. -/
def requestStamp (config : Configuration) (request : Request) (clock : LamportClock) :
    LamportClock :=
  match request.authenticationType with
  | .NODE => request.operation.stamp
  | .USER => ⟨config.nodeId, (clock.update .TICK request.operation.timestamp).1.counter⟩

/-- A `SET` or `DEL` that comes back from the log as it is executed: it is stamped with node id 1,
    its record fits, and its counter stays below `2 ^ 31`. -/
structure Recordable (config : Configuration) (request : Request) (node : Node) : Prop where
  edit : request.operation.edit.isSome
  fits : OperationLogDeserializer.Fits request.operation
  nodeId : (requestStamp config request node.clock).nodeId = 1
  clock : node.clock.counter.toNat + 1 < 2 ^ 31
  timestamp : request.operation.timestamp.toNat + 1 < 2 ^ 31

section requests
variable {config : Configuration} {request : Request} {operator : Operator}

/-- The options of a write of a client. -/
theorem optionsOfRequest_user (huser : request.authenticationType = .USER) (partitionId : UInt32) :
    optionsOfRequest operator request partitionId =
      ⟨false, false, false, .TICK, partitionId, request.requestNumber⟩ := by
  simp [optionsOfRequest, huser]

/-- The options of a write of a node. -/
theorem optionsOfRequest_node (hop : operator.IsWrite config)
    (hnode : request.authenticationType = .NODE) (partitionId : UInt32) :
    optionsOfRequest operator request partitionId =
      ⟨true, false, false, .SET_MAX, partitionId, request.requestNumber⟩ := by
  simp [optionsOfRequest, hnode, hop.type]

/-- What the execution of a request depends on: the options and the timestamp that the operators
    use, and the stamp. -/
structure Stamps (config : Configuration) (request : Request) (clock : LamportClock)
    (options : OperationOptions) (stamp : LamportClock) : Prop where
  save : options.dontSaveInOperationLog = false
  partitionId : options.partitionId = 0
  stamped : AVLTree.stamped clock (getTimestamp config request.operation options)
    options.updateClockStrategy options.checkTimestamps = stamp
  forward : clock.counter.toNat ≤ (clock.update options.updateClockStrategy
    (getTimestamp config request.operation options).counter).1.counter.toNat
  covered : stamp.counter.toNat ≤ (clock.update options.updateClockStrategy
    (getTimestamp config request.operation options).counter).1.counter.toNat
  logged : options.fromClient = true → (clock.update options.updateClockStrategy
    (getTimestamp config request.operation options).counter).2 = stamp.counter
  above : options.fromClient = true → clock.counter.toNat < stamp.counter.toNat
  kept : options.fromClient = false → request.operation.timestamp = stamp.counter
  counter : stamp.counter.toNat < 2 ^ 31
  refuses : ∀ {calculateHash : SimpleString → UInt32} {m : Map} {key : SimpleString},
    (∀ h p, m.register h = some p → p.1.counter.toNat ≤ clock.counter.toNat) →
    m.RefusesNewer calculateHash key (getTimestamp config request.operation options) stamp
      options.updateClockStrategy options.checkTimestamps

variable {node : Node}

section
variable (h : Recordable config request node)
include h

/-- A client's request is stamped with the next counter of the clock. -/
theorem Recordable.stamps_user (htype : request.authenticationType = .USER) :
    Stamps config request node.clock (optionsOfRequest operator request 0)
      (requestStamp config request node.clock) := by
  have hclock := h.clock
  have htimestamp := h.timestamp
  rw [optionsOfRequest_user htype]
  have htick := LamportClock.toNat_update_TICK (show node.clock.counter.toNat + 1 < 2 ^ 64 by omega)
    (show request.operation.timestamp.toNat + 1 < 2 ^ 64 by omega)
  have hstamp : requestStamp config request node.clock = ⟨config.nodeId,
      (node.clock.update .TICK request.operation.timestamp).1.counter⟩ := by
    simp [requestStamp, htype]
  have htimestamp' : getTimestamp config request.operation
      ⟨false, false, false, .TICK, 0, request.requestNumber⟩ =
        ⟨config.nodeId, request.operation.timestamp⟩ := rfl
  rw [hstamp]
  exact
    { save := rfl
      partitionId := rfl
      stamped := rfl
      forward := by
        dsimp only
        rw [htimestamp', htick]
        omega
      covered := le_rfl
      logged := fun _ => rfl
      above := by
        intro _
        dsimp only
        rw [htick]
        omega
      kept := by
        intro hfalse
        cases hfalse
      counter := by
        dsimp only
        rw [htick]
        omega
      refuses := by
        -- the new counter is above every version that is stored
        intro calculateHash m key hcovers d hd
        have hle := hcovers _ _ hd
        have hlt : d.timestamp < ⟨config.nodeId,
            (node.clock.update .TICK request.operation.timestamp).1.counter⟩ := by
          apply LamportClock.lt_iff.mpr
          left
          dsimp only at hle ⊢
          rw [htick]
          omega
        rw [decide_eq_false (lt_asymm hlt)]
        simp [AVLTree.refuses] }

/-- A node's request keeps its stamp. -/
theorem Recordable.stamps_node (hop : operator.IsWrite config)
    (htype : request.authenticationType = .NODE) :
    Stamps config request node.clock (optionsOfRequest operator request 0)
      (requestStamp config request node.clock) := by
  have htimestamp := h.timestamp
  rw [optionsOfRequest_node hop htype]
  have hstamp : requestStamp config request node.clock = request.operation.stamp := by
    simp [requestStamp, htype]
  have hmax := LamportClock.toNat_update_SET_MAX node.clock request.operation.timestamp
  have htimestamp' : getTimestamp config request.operation
      ⟨true, false, false, .SET_MAX, 0, request.requestNumber⟩ = request.operation.stamp := rfl
  rw [hstamp]
  exact
    { save := rfl
      partitionId := rfl
      stamped := rfl
      forward := by
        rw [htimestamp']
        show _ ≤ (node.clock.update .SET_MAX request.operation.timestamp).1.counter.toNat
        omega
      covered := by
        rw [htimestamp']
        show request.operation.timestamp.toNat ≤
          (node.clock.update .SET_MAX request.operation.timestamp).1.counter.toNat
        omega
      logged := by
        intro hfalse
        cases hfalse
      above := by
        intro hfalse
        cases hfalse
      kept := fun _ => rfl
      counter := by
        show request.operation.timestamp.toNat < 2 ^ 31
        omega
      refuses := by
        intro calculateHash m key _
        exact m.refusesNewer_node key request.operation.stamp }

theorem Recordable.stamps (hop : operator.IsWrite config) :
    Stamps config request node.clock (optionsOfRequest operator request 0)
      (requestStamp config request node.clock) := by
  cases htype : request.authenticationType with
  | USER => exact h.stamps_user htype
  | NODE => exact h.stamps_node hop htype

end

/-- What is logged of a request that succeeds: the operation with the counter of its stamp. -/
theorem Stamps.stampedOperation_eq {clock stamp : LamportClock} {options : OperationOptions}
    (h : Stamps config request clock options stamp) {response : Response}
    (hcounter : options.fromClient = true → response.timestamp.counter = stamp.counter) :
    stampedOperation options response request.operation =
      { request.operation with timestamp := stamp.counter } := by
  unfold stampedOperation
  split
  · next hclient => rw [hcounter hclient]
  · next hnode => rw [← h.kept (Bool.eq_false_iff.mpr hnode)]

end requests

/-! ### The log of a node -/

/-- The operations in the log of the node, in the order of their execution. -/
def Node.loggedOperations (node : Node) : List OperationBody := node.operationLog.map (·.2)

/-- The hash of the key is one of those given, and no other one of them shares the bucket of a
    deletion. -/
def OperationBody.AloneIn (config : Configuration) (bucketIndex : UInt32 → Nat)
    (hashes : Set UInt32) (operation : OperationBody) : Prop :=
  ∀ key, operation.getArg 0 = some key → config.calculateHash key ∈ hashes ∧
    (operation.operatorNumber = DEL → ∀ h ∈ hashes,
      bucketIndex h = bucketIndex (config.calculateHash key) → h = config.calculateHash key)

/-- The operation comes back, and can be executed on a store with the other hashes. -/
structure OperationBody.Replays (config : Configuration) (bucketIndex : UInt32 → Nat)
    (hashes : Set UInt32) (operation : OperationBody) : Prop where
  recoverable : operation.Recoverable
  alone : operation.AloneIn config bucketIndex hashes

section replays
variable {config : Configuration} {bucketIndex : UInt32 → Nat} {hashes : Set UInt32}
  {operations : List OperationBody}
  (hoperations : ∀ operation ∈ operations, operation.Replays config bucketIndex hashes)

include hoperations

section
variable {edit : SimpleString × KeyOperation} (hedit : edit ∈ loggedEdits operations)
include hedit

theorem exists_of_mem_loggedEdits :
    ∃ operation ∈ operations, operation.getArg 0 = some edit.1 ∧
      ∀ timestamp, edit.2 = .DEL timestamp → operation.operatorNumber = DEL := by
  obtain ⟨read, hread, hedit⟩ := mem_filterMap.mp hedit
  obtain ⟨operation, hoperation, rfl⟩ := mem_map.mp hread
  rw [(hoperations operation hoperation).recoverable.readBack_eq] at hedit
  refine ⟨operation, hoperation, ?_⟩
  rcases OperationBody.edit_cases hedit with ⟨key, value, ⟨-, rest, hargs⟩, rfl⟩ |
    ⟨key, ⟨hnumber, rest, hargs⟩, rfl⟩
  · refine ⟨by simp [OperationBody.getArg, show operation.args = _ from hargs], ?_⟩
    intro timestamp hdel
    cases hdel
  · exact ⟨by simp [OperationBody.getArg, show operation.args = _ from hargs], fun _ _ => hnumber⟩

theorem hash_mem_of_mem_loggedEdits : config.calculateHash edit.1 ∈ hashes := by
  obtain ⟨operation, hoperation, hkey, -⟩ := exists_of_mem_loggedEdits hoperations hedit
  exact ((hoperations operation hoperation).alone _ hkey).1

end

/-- The deletions of the log do not meet other hashes. -/
theorem alone_of_mem_loggedEdits {key : SimpleString} {timestamp : LamportClock}
    (hedit : (key, .DEL timestamp) ∈ loggedEdits operations) {h : UInt32} (hh : h ∈ hashes)
    (hindex : bucketIndex h = bucketIndex (config.calculateHash key)) :
    h = config.calculateHash key := by
  obtain ⟨operation, hoperation, hkey, hdel⟩ := exists_of_mem_loggedEdits hoperations hedit
  exact ((hoperations operation hoperation).alone _ hkey).2 (hdel timestamp rfl) h hh hindex

end replays

theorem loggedEdits_append (operations operations' : List OperationBody) :
    loggedEdits (operations ++ operations') =
      loggedEdits operations ++ loggedEdits operations' := by
  simp [loggedEdits]

theorem KeyOperation.onHash_append (calculateHash : SimpleString → UInt32) (h : UInt32)
    (edits edits' : List (SimpleString × KeyOperation)) :
    onHash calculateHash h (edits ++ edits') =
      onHash calculateHash h edits ++ onHash calculateHash h edits' := by
  simp [onHash]

/-! ### One request -/

/-- A node that executes requests, and whose store is under every hash the register of its log. -/
structure Node.Recorded (config : Configuration) (bucketIndex : UInt32 → Nat)
    (hashes : Set UInt32) (node : Node) (m : Map) : Prop where
  executes : canExecuteRequest config node = true
  buffer : node.delayedOperationsBuffer = []
  store : node.memDbStores 0 = some m
  wellFormed : m.WellFormed
  dataOnly : m.DataOnly
  buckets : m.bucketIndex = bucketIndex
  covers : ∀ h p, m.register h = some p → p.1.counter.toNat ≤ node.clock.counter.toNat
  register : ∀ h, m.register h = Register.run none
    (KeyOperation.onHash config.calculateHash h (loggedEdits node.loggedOperations))
  logged : ∀ operation ∈ node.loggedOperations, operation.Replays config bucketIndex hashes

section step
variable {config : Configuration} {bucketIndex : UInt32 → Nat} {hashes : Set UInt32}
  {node next : Node} {m m' : Map} {clock : LamportClock} {request : Request} {response : Response}

/-- Only hashes of the log are stored. -/
theorem Node.Recorded.hash_mem (hnode : node.Recorded config bucketIndex hashes m) {h : UInt32}
    (hview : m.view h ≠ none) : h ∈ hashes := by
  obtain ⟨entry, hentry⟩ := ne_none_iff_exists'.mp hview
  obtain ⟨d, -, hregister⟩ := hnode.dataOnly.register_eq hentry
  rw [hnode.register] at hregister
  obtain ⟨edit, hedit, rfl, -⟩ := KeyOperation.mem_onHash.mp (Register.run_stamp_mem hregister)
  exact hash_mem_of_mem_loggedEdits hnode.logged hedit

/-- The node after an edit that is logged when it succeeds. -/
theorem Node.Recorded.record (hnode : node.Recorded config bucketIndex hashes m)
    {edit : SimpleString × KeyOperation} {operation : OperationBody} {succeeds : Bool}
    (hrecords : Map.Records config.calculateHash edit succeeds m m' node.clock clock)
    (hoperation : operation.Replays config bucketIndex hashes)
    (hedit : (OperationLogDeserializer.readBack operation).edit = some edit)
    (hstate : next.nodeState = node.nodeState)
    (hbuffer : next.delayedOperationsBuffer = node.delayedOperationsBuffer)
    (hstores : next.memDbStores = (node.setStore 0 m' clock).memDbStores)
    (hclock : next.clock = clock)
    (hlog : next.operationLog = node.operationLog ++ if succeeds then [(0, operation)] else []) :
    next.Recorded config bucketIndex hashes m' := by
  have hlogged : next.loggedOperations =
      node.loggedOperations ++ if succeeds then [operation] else [] := by
    rw [Node.loggedOperations, hlog, map_append, Node.loggedOperations]
    cases succeeds <;> rfl
  constructor
  · rw [← hnode.executes, canExecuteRequest, canExecuteRequest, hstate]
  · rw [hbuffer, hnode.buffer]
  · rw [hstores]
    simp [Node.setStore]
  · exact hrecords.wellFormed
  · exact hrecords.dataOnly
  · rw [← hnode.buckets]
    funext h
    rw [Map.bucketIndex, Map.bucketIndex, hrecords.numberBuckets]
  · -- every stored version is an old one or that of the operation
    intro h p hp
    rw [hclock]
    rcases hrecords.covered h p hp with hbefore | hnew
    · exact (hnode.covers h p hbefore).trans hrecords.forward
    · exact hnew
  · intro h
    -- the log has the operation exactly when it changed the register
    rw [hrecords.register, hnode.register, ← Register.run_append, hlogged, loggedEdits_append,
      KeyOperation.onHash_append]
    cases succeeds with
    | false => rfl
    | true =>
      have hone : loggedEdits [operation] = [edit] := by simp [loggedEdits, hedit]
      rw [if_pos rfl, if_pos rfl, hone]
  · intro logged hmem
    rw [hlogged] at hmem
    rcases mem_append.mp hmem with hbefore | hnew
    · exact hnode.logged logged hbefore
    · cases succeeds with
      | false => cases hnew
      | true =>
        rw [mem_singleton.mp hnew]
        exact hoperation

/-- What is logged of a request comes back as it was executed. -/
theorem Recordable.replays (hrequest : Recordable config request node)
    (halone : request.operation.AloneIn config bucketIndex hashes) {options : OperationOptions}
    (hstamps : Stamps config request node.clock options (requestStamp config request node.clock)) :
    ({ request.operation with timestamp := (requestStamp config request node.clock).counter } :
        OperationBody).Replays config bucketIndex hashes ∧
      OperationLogDeserializer.readBack
        { request.operation with timestamp := (requestStamp config request node.clock).counter } =
          { request.operation with
            nodeId := (requestStamp config request node.clock).nodeId
            timestamp := (requestStamp config request node.clock).counter } := by
  have hbefore : request.operation.Recoverable :=
    ⟨hrequest.fits, hrequest.edit, by have := hrequest.timestamp; omega⟩
  have hlogged := hbefore.stamped request.operation.nodeId hstamps.counter
  refine ⟨⟨hlogged, halone⟩, ?_⟩
  rw [hrequest.nodeId]
  exact hlogged.readBack_eq

section
variable (hnode : node.Recorded config bucketIndex hashes m)
  (hrequest : Recordable config request node)
  (halone : request.operation.AloneIn config bucketIndex hashes)
include hnode hrequest halone

/-- A `SET` keeps the log of the node in step with its store. -/
theorem Node.Recorded.set {key value : SimpleString} (hset : request.operation.IsSet key value)
    (hrun : executeOperation config (SetOperator config) request.operation
      (optionsOfRequest (SetOperator config) request 0) node = some (next, response)) :
    ∃ m', next.Recorded config bucketIndex hashes m' := by
  have hop : (SetOperator config).IsWrite config := .inl rfl
  have hstamps := hrequest.stamps hop
  obtain ⟨hreplays, hback⟩ := hrequest.replays halone hstamps
  have hrefuses : m.RefusesNewer config.calculateHash key _ _ _ _ := hstamps.refuses hnode.covers
  obtain ⟨m', clock, result, hput, hrecords, -, hresult⟩ := Map.putData_records hnode.wellFormed
    hnode.dataOnly value hstamps.stamped hrefuses hstamps.forward hstamps.covered
  have hoperate : (SetOperator config).operate request.operation
      (optionsOfRequest (SetOperator config) request 0) node =
        some (node.setStore 0 m' clock, Response.ofEdit result ALREADY_REPLICATED) := by
    have hstore := hnode.store
    rw [← hstamps.partitionId] at hstore
    have hreturned := operate_set config _ hset hstore hput
    rwa [hstamps.partitionId] at hreturned
  obtain ⟨⟨-, hstate, hbuffer, hstores, hclock⟩, hlog, -⟩ :=
    executeOperation_write config hop hstamps.save hoperate hrun
  -- the `SET` of a client is not refused
  have hcounter : (optionsOfRequest (SetOperator config) request 0).fromClient = true →
      (Response.ofEdit result ALREADY_REPLICATED).timestamp.counter =
        (requestStamp config request node.clock).counter := by
    intro hclient
    rcases hresult with rfl | ⟨p, hp, hlt⟩
    · rfl
    · have hle := hnode.covers _ p hp
      have habove := hstamps.above hclient
      have := LamportClock.counter_le hlt.le
      omega
  rw [hstamps.stampedOperation_eq hcounter, hstamps.partitionId] at hlog
  refine ⟨m', hnode.record hrecords hreplays ?_ hstate hbuffer hstores hclock hlog⟩
  rw [hback]
  have hset' : ({ request.operation with
      nodeId := (requestStamp config request node.clock).nodeId
      timestamp := (requestStamp config request node.clock).counter } :
        OperationBody).IsSet key value := hset
  exact hset'.edit

/-- So does a `DEL`. One that fails is not logged. -/
theorem Node.Recorded.del {key : SimpleString} (hdel : request.operation.IsDel key)
    (hrun : executeOperation config (DeleteOperator config) request.operation
      (optionsOfRequest (DeleteOperator config) request 0) node = some (next, response)) :
    ∃ m', next.Recorded config bucketIndex hashes m' := by
  have hop : (DeleteOperator config).IsWrite config := .inr rfl
  have hstamps := hrequest.stamps hop
  obtain ⟨hreplays, hback⟩ := hrequest.replays halone hstamps
  -- no other hash is stored in the bucket
  have hsafe : m.removalSafe (config.calculateHash key) (getTimestamp config request.operation
      (optionsOfRequest (DeleteOperator config) request 0))
      (optionsOfRequest (DeleteOperator config) request 0).updateClockStrategy
      (optionsOfRequest (DeleteOperator config) request 0).checkTimestamps = true := by
    apply hnode.wellFormed.removalSafe_of_alone
    intro h hview hindex
    rw [hnode.buckets] at hindex
    exact (halone key hdel.getArg).2 hdel.1 h (hnode.hash_mem hview) hindex
  obtain ⟨m', clock, result, hremove, hrecords, -, hresult⟩ := Map.remove_records hnode.wellFormed
    hnode.dataOnly hsafe (hstamps.refuses hnode.covers) hstamps.forward
  have hoperate : (DeleteOperator config).operate request.operation
      (optionsOfRequest (DeleteOperator config) request 0) node =
        some (node.setStore 0 m' clock, Response.ofEdit result UNKNOWN_KEY) := by
    have hstore := hnode.store
    rw [← hstamps.partitionId] at hstore
    have hreturned := operate_del config _ hdel.getArg hstore hremove
    rwa [hstamps.partitionId] at hreturned
  obtain ⟨⟨-, hstate, hbuffer, hstores, hclock⟩, hlog, -⟩ :=
    executeOperation_write config hop hstamps.save hoperate hrun
  have hlog' : next.operationLog = node.operationLog ++ if result.isSome then
      [(0, { request.operation with
        timestamp := (requestStamp config request node.clock).counter })] else [] := by
    rw [hlog, hstamps.partitionId]
    rcases hresult with rfl | ⟨rfl, -⟩
    · rw [hstamps.stampedOperation_eq hstamps.logged]
      rfl
    · rfl
  refine ⟨m', hnode.record hrecords hreplays ?_ hstate hbuffer hstores hclock hlog'⟩
  rw [hback]
  have hdel' : ({ request.operation with
      nodeId := (requestStamp config request node.clock).nodeId
      timestamp := (requestStamp config request node.clock).counter } :
        OperationBody).IsDel key := hdel
  exact hdel'.edit

end

/-- One request keeps the log in step with the store. -/
theorem Node.Recorded.step (others : UInt8 → Option Operator)
    (hpartitions : config.usePartitions = false)
    (hnode : node.Recorded config bucketIndex hashes m) (hrequest : Recordable config request node)
    (halone : request.operation.AloneIn config bucketIndex hashes)
    (hrun : dispatch config others request node = some (next, response)) :
    ∃ m', next.Recorded config bucketIndex hashes m' := by
  obtain ⟨edit, hedit⟩ := isSome_iff_exists.mp hrequest.edit
  rcases OperationBody.edit_cases hedit with ⟨key, value, hset, -⟩ | ⟨key, hdel, -⟩
  · rw [dispatch_write config others (.inl rfl)
      (operatorRegistry_set config others hset.1) hpartitions hnode.executes hnode.buffer
      hset.getArg.1] at hrun
    exact hnode.set hrequest halone hset hrun
  · rw [dispatch_write config others (.inr rfl)
      (operatorRegistry_del config others hdel.1) hpartitions hnode.executes hnode.buffer
      hdel.getArg] at hrun
    exact hnode.del hrequest halone hdel hrun

end step

/-! ### Whole runs -/

/-- A node with an empty store, of which nothing is delayed or logged. -/
structure Node.Starts (node : Node) (m : Map) : Prop where
  store : node.memDbStores 0 = some m
  buffer : node.delayedOperationsBuffer = []
  operationLog : node.operationLog = []

/-- The hashes of the keys of requests. -/
def requestHashes (config : Configuration) (requests : List Request) : Set UInt32 :=
  { h | ∃ request ∈ requests, ∃ key, request.operation.getArg 0 = some key ∧
    config.calculateHash key = h }

theorem read_of_store {node : Node} {m : Map} (hm : node.memDbStores 0 = some m)
    (hwf : m.WellFormed) (config : Configuration) (key : SimpleString) :
    node.read config key = (m.register (config.calculateHash key)).map fun p => ⟨p.2, p.1⟩ := by
  unfold Node.read Map.register
  rw [hm, bind_eq_bind, bind_some, hwf.get]
  simp only [bind_eq_bind, bind_some]
  cases m.view (config.calculateHash key) with
  | none => rfl
  | some entry => cases hdata : entry.data <;> simp [NodeData.asData, hdata]

section runs
variable {config : Configuration} {others : UInt8 → Option Operator} {numberBuckets : UInt32}
  {hn : 0 < (roundUpPowerOfTwo numberBuckets).toNat} {hashes : Set UInt32}

theorem Node.Starts.recorded {node : Node} (h : node.Starts (Map.new numberBuckets hn))
    (hexecutes : canExecuteRequest config node = true) :
    node.Recorded config (Map.new numberBuckets hn).bucketIndex hashes
      (Map.new numberBuckets hn) := by
  have hempty : node.loggedOperations = [] := by
    rw [Node.loggedOperations, h.operationLog, map_nil]
  constructor
  · exact hexecutes
  · exact h.buffer
  · exact h.store
  · exact Map.wellFormed_new numberBuckets hn
  · exact Map.dataOnly_new numberBuckets hn
  · rfl
  · intro h p hp
    rw [Map.register_new] at hp
    cases hp
  · intro h
    rw [hempty, Map.register_new]
    rfl
  · intro operation hoperation
    rw [hempty] at hoperation
    cases hoperation

/-- After every run of requests the store is the register of the log. -/
theorem recorded_of_run (hpartitions : config.usePartitions = false) {start node : Node}
    (hstart : start.Starts (Map.new numberBuckets hn))
    (hexecutes : canExecuteRequest config start = true) {requests : List Request}
    (hguarded : Guarded (dispatchStep config others) (Recordable config) requests start)
    (halone : ∀ request ∈ requests, request.operation.AloneIn config
      (Map.new numberBuckets hn).bucketIndex hashes)
    (hrun : run (dispatchStep config others) requests start = some node) :
    ∃ m, node.Recorded config (Map.new numberBuckets hn).bucketIndex hashes m := by
  have hguard := hguarded.and (Guarded.of_forall (fun request hrequest _ => halone request hrequest)
    start)
  have hstep : ∀ request (state state' : Node),
      (∃ m, state.Recorded config (Map.new numberBuckets hn).bucketIndex hashes m) →
      (Recordable config request state ∧ request.operation.AloneIn config
        (Map.new numberBuckets hn).bucketIndex hashes) →
      dispatchStep config others request state = some state' →
      ∃ m, state'.Recorded config (Map.new numberBuckets hn).bucketIndex hashes m := by
    intro request state state' hstate hrequest hdispatch
    obtain ⟨m, hm⟩ := hstate
    obtain ⟨⟨state', response⟩, hresult, rfl⟩ := map_eq_some_iff.mp hdispatch
    exact hm.step others hpartitions hrequest.1 hrequest.2 hresult
  exact invariant hstep ⟨_, hstart.recorded hexecutes⟩ hguard hrun

/-- What is read after a restart: under each key what the operations leave in the order of the
    file. -/
theorem restore_reads (env : LogEnvironment)
    (tryFixLocalOplogSegment : OplogIterator → Option (List UInt8)) (uninitialized : UInt32)
    (others : UInt8 → Option Operator) {fresh : Node}
    (hfresh : fresh.Starts (Map.new numberBuckets hn)) {batches : List (List OperationBody)}
    (hoperations : ∀ operation ∈ batches.flatten, operation.Replays config
      (Map.new numberBuckets hn).bucketIndex hashes)
    (hsegment : (batches.flatten.flatMap OperationLogSerializer.recordBytes).length ≤
      env.segmentSize.toNat)
    (hlength : (batches.flatten.flatMap OperationLogSerializer.recordBytes).length < 2 ^ 31) :
    ∃ log lastAppliedTimestamp restored,
      SingleOperationLog.flush env batches .empty = some log ∧
      restoreOplogFromDisk config others env tryFixLocalOplogSegment uninitialized 0
        [log] fresh = some ([lastAppliedTimestamp], restored) ∧
      ∀ key, restored.read config key = (Register.run none (KeyOperation.onHash config.calculateHash
        (config.calculateHash key) (loggedEdits batches.flatten))).map fun p => ⟨p.2, p.1⟩ := by
  have hflush : SingleOperationLog.flush env batches (.ofRecords []) =
      some (.ofRecords ([] ++ batches.flatten)) := by
    apply SingleOperationLog.flush_eq env []
    · intro operation hoperation
      exact OperationLogDeserializer.length_lt_of_recordBytes
        (hoperations operation hoperation).recoverable.fits.size
    · exact hsegment
  -- the log that was flushed is the log that is read
  obtain ⟨lastAppliedTimestamp, restored, m, hrestore, -, hm, hwf, -, hregister⟩ :=
    restoreOplogFromDisk_records env tryFixLocalOplogSegment config others
      uninitialized (fun operation hoperation => (hoperations operation hoperation).recoverable)
      hlength hfresh.store (Map.wellFormed_new numberBuckets hn) (Map.dataOnly_new numberBuckets hn)
      hfresh.buffer (by
        intro key timestamp hdel h hh hindex
        refine alone_of_mem_loggedEdits hoperations hdel ?_ hindex
        rcases hh with hview | ⟨edit, hedit, rfl⟩
        · exact absurd (Map.view_new numberBuckets hn h) hview
        · exact hash_mem_of_mem_loggedEdits hoperations hedit)
  refine ⟨_, lastAppliedTimestamp, restored, hflush, hrestore, ?_⟩
  intro key
  rw [read_of_store hm hwf, hregister, Map.register_new]

end runs

/-- A restart gives a key back as it was exactly when the operations on its hash leave the same in
    the order of the file as in the order of their execution: when every request comes back from the
    log as it is executed, the log has no segments, and deletions have buckets of their own. -/
theorem restored_iff (config : Configuration) (others : UInt8 → Option Operator)
    (env : LogEnvironment) (tryFixLocalOplogSegment : OplogIterator → Option (List UInt8))
    (uninitialized : UInt32) (hpartitions : config.usePartitions = false) (numberBuckets : UInt32)
    (hn : 0 < (roundUpPowerOfTwo numberBuckets).toNat) (start node fresh : Node)
    (requests : List Request) (batches : List (List OperationBody))
    (hstart : start.Starts (Map.new numberBuckets hn))
    (hexecutes : canExecuteRequest config start = true)
    (hfresh : fresh.Starts (Map.new numberBuckets hn))
    (hguarded : Guarded (dispatchStep config others) (Recordable config) requests start)
    (halone : ∀ request ∈ requests, request.operation.AloneIn config
      (Map.new numberBuckets hn).bucketIndex (requestHashes config requests))
    (hrun : run (dispatchStep config others) requests start = some node)
    (hbatches : batches.flatten.Perm node.loggedOperations)
    (hsegment : (batches.flatten.flatMap OperationLogSerializer.recordBytes).length ≤
      env.segmentSize.toNat)
    (hlength : (batches.flatten.flatMap OperationLogSerializer.recordBytes).length < 2 ^ 31) :
    ∃ log lastAppliedTimestamp restored,
      SingleOperationLog.flush env batches .empty = some log ∧
      restoreOplogFromDisk config others env tryFixLocalOplogSegment uninitialized 0
        [log] fresh = some ([lastAppliedTimestamp], restored) ∧
      ∀ key, restored.read config key = node.read config key ↔
        Register.run none (KeyOperation.onHash config.calculateHash (config.calculateHash key)
            (loggedEdits batches.flatten)) =
          Register.run none (KeyOperation.onHash config.calculateHash (config.calculateHash key)
            (loggedEdits node.loggedOperations)) := by
  obtain ⟨m, hm⟩ := recorded_of_run hpartitions hstart hexecutes hguarded halone hrun
  obtain ⟨log, lastAppliedTimestamp, restored, hflush, hrestore, hread⟩ := restore_reads env
    tryFixLocalOplogSegment uninitialized others hfresh
    (fun operation hoperation => hm.logged operation (hbatches.mem_iff.mp hoperation)) hsegment
      hlength
  refine ⟨log, lastAppliedTimestamp, restored, hflush, hrestore, ?_⟩
  intro key
  rw [hread, read_of_store hm.store hm.wellFormed, hm.register]
  constructor
  · intro hsame
    -- value and timestamp together are the register
    refine map_injective ?_ hsame
    intro p q hpq
    obtain ⟨hvalue, htimestamp⟩ := DataAVLNode.mk.inj hpq
    exact Prod.ext htimestamp hvalue
  · intro hsame
    rw [hsame]

/-! A `SET`, a `DEL` and another `SET` of one key. -/

/-- A request of a client. -/
def clientWrite (operatorNumber : UInt8) (args : List SimpleString) : Request where
  authentication := ⟨[], false, false⟩
  operation := ⟨some args, 0, 1, operatorNumber, false, false⟩
  requestNumber := 0
  authenticationType := .USER

def setTwice : List Request :=
  [clientWrite SET [[107], [118]], clientWrite DEL [[107]],
    clientWrite SET [[107], [119]]]

/-- A write of key `k` with its counter, as it is logged. -/
def loggedWrite (operatorNumber : UInt8) (args : List SimpleString) (timestamp : UInt64) :
    OperationBody :=
  ⟨some ([107] :: args), timestamp, 1, operatorNumber, false, false⟩

/-- Requests for one key have its bucket for themselves. -/
theorem aloneIn_of_key {config : Configuration} {bucketIndex : UInt32 → Nat}
    {requests : List Request}
    {key : SimpleString} (hkey : ∀ request ∈ requests, request.operation.getArg 0 = some key) :
    ∀ request ∈ requests, request.operation.AloneIn config bucketIndex
      (requestHashes config requests) := by
  intro request hrequest key' hkey'
  cases (hkey request hrequest).symm.trans hkey'
  refine ⟨⟨request, hrequest, key, hkey', rfl⟩, ?_⟩
  intro _ h hh _
  obtain ⟨other, hother, key', hkey', rfl⟩ := hh
  cases (hkey other hother).symm.trans hkey'
  rfl

theorem starts_emptyNode (nodeState : NodeState) (nodeId : UInt16)
    (hn : 0 < (roundUpPowerOfTwo 1).toNat) : (emptyNode nodeState nodeId).Starts (Map.new 1 hn) :=
  ⟨rfl, rfl, rfl⟩

/-- The operations reach the file from the last to the first. The key has its last version again. -/
theorem restored_iff_newest_set : ∃ node log lastAppliedTimestamp restored,
    run (dispatchStep firstNode fun _ => none) setTwice (emptyNode .RUNNING 1) = some node ∧
    SingleOperationLog.flush plainEnvironment [node.loggedOperations.reverse] .empty = some log ∧
    restoreOplogFromDisk firstNode (fun _ => none) plainEnvironment (fun _ => none) 0 0 [log]
      (emptyNode .BOOTING 1) = some ([lastAppliedTimestamp], restored) ∧
    node.read firstNode [107] = some ⟨[119], ⟨1, 3⟩⟩ ∧
    restored.read firstNode [107] = node.read firstNode [107] := by
  obtain ⟨node, hchecked, hlog, hread⟩ : ∃ node, checkedRun (dispatchStep firstNode fun _ => none)
      (fun _ node => decide (node.clock.counter.toNat + 1 < 2 ^ 31)) setTwice
        (emptyNode .RUNNING 1) = some node ∧ node.loggedOperations = [loggedWrite SET [[118]] 1,
          loggedWrite DEL [] 2, loggedWrite SET [[119]] 3] ∧
      node.read firstNode [107] = some ⟨[119], ⟨1, 3⟩⟩ := by
    decide +kernel
  obtain ⟨hrun, hclock⟩ := checkedRun_eq_some hchecked
  have hguarded : Guarded (dispatchStep firstNode fun _ => none) (Recordable firstNode) setTwice
      (emptyNode .RUNNING 1) := by
    have hstatic : ∀ request ∈ setTwice, ∀ node : Node, node.clock.counter.toNat + 1 < 2 ^ 31 →
        Recordable firstNode request node := by
      intro request hrequest node hclock
      simp only [setTwice, mem_cons, not_mem_nil, or_false] at hrequest
      rcases hrequest with rfl | rfl | rfl <;>
        exact ⟨rfl, ⟨by decide, by decide, by decide⟩, rfl, hclock, by decide⟩
    exact (hclock.and (Guarded.of_forall hstatic _)).imp fun request node h =>
      h.2 (of_decide_eq_true h.1)
  have hkeys : ∀ request ∈ setTwice, request.operation.getArg 0 = some [107] := by decide
  have hsize : ([node.loggedOperations.reverse].flatten.flatMap
      OperationLogSerializer.recordBytes).length = 64 := by
    rw [hlog]
    decide
  have hsegment : plainEnvironment.segmentSize.toNat = 1048576 := by decide
  obtain ⟨log, lastAppliedTimestamp, restored, hflush, hrestore, hsame⟩ := restored_iff firstNode
    (fun _ => none) plainEnvironment (fun _ => none) 0 rfl 1 (by decide) _ node _ setTwice
    [node.loggedOperations.reverse] (starts_emptyNode .RUNNING 1 _) rfl
    (starts_emptyNode .BOOTING 1 _) hguarded (aloneIn_of_key hkeys) hrun
    (by simp) (by rw [hsize, hsegment]; decide) (by rw [hsize]; decide)
  refine ⟨node, log, lastAppliedTimestamp, restored, hrun, hflush, hrestore, hread,
    (hsame [107]).mpr ?_⟩
  rw [hlog]
  decide

/-- Two restarts after which the key `k` is not what it was: the write of node 2 comes back as one
    of node 1, and a deleted key comes back when its `DEL` reaches the file before its `SET`. -/
theorem restart_changes_versions :
    (∃ node log lastAppliedTimestamp restored,
      run (dispatchStep { firstNode with nodeId := 2 } fun _ => none)
        [clientWrite SET [[107], [118]]] (emptyNode .RUNNING 2) = some node ∧
      SingleOperationLog.flush plainEnvironment [node.loggedOperations] .empty = some log ∧
      restoreOplogFromDisk { firstNode with nodeId := 2 } (fun _ => none) plainEnvironment
        (fun _ => none) 0 0 [log] (emptyNode .BOOTING 2) = some ([lastAppliedTimestamp], restored) ∧
      node.read firstNode [107] = some ⟨[118], ⟨2, 1⟩⟩ ∧
      restored.read firstNode [107] = some ⟨[118], ⟨1, 1⟩⟩) ∧
    ∃ node log lastAppliedTimestamp restored,
      run (dispatchStep firstNode fun _ => none)
        [clientWrite SET [[107], [118]], clientWrite DEL [[107]]]
        (emptyNode .RUNNING 1) = some node ∧
      SingleOperationLog.flush plainEnvironment [node.loggedOperations.reverse] .empty = some log ∧
      restoreOplogFromDisk firstNode (fun _ => none) plainEnvironment (fun _ => none) 0 0 [log]
        (emptyNode .BOOTING 1) = some ([lastAppliedTimestamp], restored) ∧
      node.read firstNode [107] = none ∧
      restored.read firstNode [107] = some ⟨[118], ⟨1, 1⟩⟩ := by
  simp only [exists_and_left]
  decide +kernel

end MemDb
