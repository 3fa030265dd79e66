import MemDb.Cluster.Replicas
import MemDb.Cluster.SyncLoop
import MemDb.Operators.Durability

/-! # A node that catches up

    A node that has missed broadcasts restarts. It restores its own log from disk and synchronises
    with another node, from the timestamp of the last operation that it has restored on.

    The log of the other node is sent whole as long as it has no segments. When all clients' writes
    are `SET` whose records fit, the node then stores, for every key in the log of the other, a
    version with at least the counter of every write that is logged there. A record of more than 255
    bytes is enough to hide the operations behind it.
-/

namespace MemDb

open Lib Lib.Run SingleOperationLog List Function OperatorNumbers Option

/-! ### The receiver as an iterator -/

section receiver
variable {n : Nat} (reader : SegmentReader) (operationLog : OperationLogs) (i : Fin n)

/-- A `SyncOplogReceiverIterator` with the sender behind it. An error of the sender gives no
    bytes. -/
def receiverIterator : BlockIterator (OplogSync n) where
  hasNext state := (state.nodes i).receiver.elim false (·.hasNext)
  next state := (OplogSync.step reader (.next i operationLog) state).map fun state' =>
    (state', ((state'.nodes i).obtained.drop (state.nodes i).obtained.length).flatten)

variable {reader operationLog i}

/-- The requests of a receiver hand out what it obtains. -/
theorem receiverIterator_yields {requests : Nat} {state final : OplogSync n}
    {last : SyncOplogReceiverIterator}
    (hrun : run (OplogSync.step reader) (replicate requests (.next i operationLog)) state =
      some final) (hlast : (final.nodes i).receiver = some last) (hdone : last.hasNext = false) :
    ∃ blocks, (final.nodes i).obtained = (state.nodes i).obtained ++ blocks ∧
      (receiverIterator reader operationLog i).Yields state blocks := by
  induction requests generalizing state with
  | zero =>
    obtain rfl := some.inj hrun
    refine ⟨[], (append_nil _).symm, .done ?_⟩
    show (state.nodes i).receiver.elim false (·.hasNext) = false
    rw [hlast]
    exact hdone
  | succ requests ih =>
    rw [replicate_succ] at hrun
    obtain ⟨after, hstep, hrest⟩ := run_cons_eq_some.mp hrun
    obtain ⟨receiver, timestamp, oplog, hreceiver, hhasNext, -, hobtained⟩ :=
      OplogSync.step_next_cases hstep
    obtain ⟨blocks, hblocks, hyields⟩ := ih hrest
    refine ⟨oplog :: blocks, ?_, .next ?_ ?_ hyields⟩
    · rw [hblocks, hobtained, append_assoc, singleton_append]
    · show (state.nodes i).receiver.elim false (·.hasNext) = true
      rw [hreceiver]
      exact hhasNext
    · show (OplogSync.step reader (.next i operationLog) state).map _ = _
      rw [hstep, map_some, hobtained, drop_left]
      simp

end receiver

/-! ### Synchronising a log without segments -/

namespace SingleOperationLog

/-- The log of a node without partitions, whatever its id. -/
def operationLogs (uninitialized : UInt32) (log : SingleOperationLog) : OperationLogs :=
  fun _ after => log.getAfterTimestamp uninitialized after

/-- How the log is read when another node synchronises. -/
def segmentReader (env : LogEnvironment)
    (fixOplogSegment : (oplogId : UInt32) → (min max : UInt64) → Bool) (log : SingleOperationLog) :
    SegmentReader :=
  ⟨env.compressor, log.readBytesDataByDescriptor env, fixOplogSegment⟩

end SingleOperationLog

section sync
variable {n : Nat} {state : OplogSync n} {i : Fin n} {reader : SegmentReader}

open OperationLogSerializer

/-- From whatever timestamp on, the receiver obtains the whole log. -/
theorem sync_yields (uninitialized : UInt32) (hstart : state.Start)
    (hfree : state.store (state.nodes i).nextSyncId.toUInt64 = none)
    {operations : List OperationBody} (hlength : (operations.flatMap recordBytes).length < 2 ^ 31)
    (hcompress : (reader.compressor.compressBytes (operations.flatMap recordBytes)).isSome) :
    ∃ opened, OplogSync.step reader
        (.sync i ((SingleOperationLog.ofRecords operations).operationLogs uninitialized)) state =
          some opened ∧
      (receiverIterator reader
        ((SingleOperationLog.ofRecords operations).operationLogs uninitialized) i).Yields opened
          (recordBlocks operations) := by
  -- what the sender finds is the intermediate file
  have hiterator : ((ofRecords operations).operationLogs
      uninitialized).getAfterTimestamp (state.nodes i).timestampToSync
        (state.nodes i).nodeOplogIdToSync =
      some (.new [] 0 (operations.flatMap recordBytes) false true (state.nodes i).nodeOplogIdToSync
        uninitialized) := by
    unfold OperationLogs.getAfterTimestamp operationLogs
    rw [getAfterTimestamp_ofRecords]
    rfl
  have hsynchronises :
      OplogSync.Synchronises reader (.new [] 0 (operations.flatMap recordBytes) false
      true (state.nodes i).nodeOplogIdToSync uninitialized) := by
    constructor
    · show 0 < 2 ^ 32
      decide
    · exact ⟨Nat.lt_trans hlength (by decide), hcompress⟩
    · intro descriptor hdescriptor
      cases hdescriptor
  have hreachable : OplogSync.Reachable reader (.new [] 0 (operations.flatMap recordBytes) false
      true (state.nodes i).nodeOplogIdToSync uninitialized) := by
    refine ⟨Or.inr rfl, ?_⟩
    intro descriptor hdescriptor
    cases hdescriptor
  obtain ⟨requests, final, last, hrun, hlast, hdone, hobtained⟩ :=
    OplogSync.completes_of_reachable hstart hfree hiterator hsynchronises hreachable
  obtain ⟨opened, hopened, hrequests⟩ := run_cons_eq_some.mp hrun
  obtain ⟨blocks, hblocks, hyields⟩ := receiverIterator_yields hrequests hlast hdone
  obtain ⟨opened', receiver, hopened', -, -, -, hnothing, -⟩ :=
    OplogSync.step_sync reader hstart hfree hiterator hsynchronises.small
  cases hopened.symm.trans hopened'
  rw [hnothing, nil_append, hobtained] at hblocks
  refine ⟨opened, hopened, ?_⟩
  have hrecord : blocks = recordBlocks operations := by
    rw [← hblocks]
    unfold OplogSync.uncorrupted OplogIterator.blocks recordBlocks
    show filterMap _ ((if operations.flatMap recordBytes = [] then []
      else [OplogBlock.intermediate (operations.flatMap recordBytes)]) ++ []) = _
    split <;> rfl
  rw [← hrecord]
  exact hyields

end sync

/-! ### What replicas log -/

/-- A `SET` that the log gives back. -/
structure OperationBody.RecoverableSet (operation : OperationBody) : Prop where
  recoverable : operation.Recoverable
  isSet : ∃ key value, operation.IsSet key value

theorem OperationBody.RecoverableSet.stamped {operation : OperationBody}
    (h : operation.RecoverableSet)
    (nodeId : UInt16) {timestamp : UInt64} (htimestamp : timestamp.toNat < 2 ^ 31) :
    ({ operation with nodeId := nodeId, timestamp := timestamp } : OperationBody).RecoverableSet :=
  ⟨h.recoverable.stamped nodeId htimestamp, h.isSet⟩

section node
variable {config : Configuration} {others : UInt8 → Option Operator} {request : Request}
  {node next : Node} {response : Response}

/-- A client's request leaves the clock and its own timestamp room for a tick. -/
def HasRoom (request : Request) (node : Node) : Prop :=
  node.clock.counter.toNat + 1 < 2 ^ 31 ∧ request.operation.timestamp.toNat + 1 < 2 ^ 31

/-- What is logged of a `SET` is again one that the log gives back, if a client's had room. -/
theorem OperationBody.RecoverableSet.stampedOperation (h : request.operation.RecoverableSet)
    (hroom : request.authenticationType = .USER → HasRoom request node) {counter : UInt64}
    (hcounter : counter = 0 ∨ counter = (AVLTree.stamped node.clock
      (getTimestamp config request.operation (setOptions config request))
      (setOptions config request).updateClockStrategy
      (setOptions config request).checkTimestamps).counter)
    (hresponse : response.timestamp.counter = counter) :
    (stampedOperation (setOptions config request) response request.operation).RecoverableSet := by
  cases htype : request.authenticationType with
  | USER =>
    obtain ⟨hclock, htimestamp⟩ := hroom htype
    have hoptions : setOptions config request =
        ⟨false, false, false, .TICK, 0, request.requestNumber⟩ := optionsOfRequest_user htype 0
    have htick :=
      LamportClock.toNat_update_TICK (show node.clock.counter.toNat + 1 < 2 ^ 64 by omega)
      (show request.operation.timestamp.toNat + 1 < 2 ^ 64 by omega)
    rw [hoptions] at hcounter ⊢
    apply h.stamped request.operation.nodeId
    rw [hresponse]
    rcases hcounter with rfl | rfl
    · decide
    · show (node.clock.update .TICK request.operation.timestamp).2.toNat < 2 ^ 31
      rw [LamportClock.update_snd, htick]
      omega
  | NODE =>
    have hop : (SetOperator config).IsWrite config := .inl rfl
    have hoptions : setOptions config request =
        ⟨true, false, false, .SET_MAX, 0, request.requestNumber⟩ :=
          optionsOfRequest_node hop htype 0
    rw [hoptions]
    exact h

theorem Node.Ready.set_logs (hready : node.Ready) (hpartitions : config.usePartitions = false)
    (hrequest : request.operation.RecoverableSet)
    (hroom : request.authenticationType = .USER → HasRoom request node)
    (hrun : dispatch config others request node = some (next, response)) :
    next.flush.Ready ∧ ∃ operation : OperationBody, operation.RecoverableSet ∧
      (∀ logged ∈ next.loggedOperations, logged ∈ node.loggedOperations ∨ logged = operation) ∧
      ∀ sent ∈ next.outbox, sent.2 = prepareRequest config operation := by
  obtain ⟨key, value, hset⟩ := hrequest.isSet
  obtain ⟨m, hm, hwf⟩ := hready.store
  have hop : (SetOperator config).IsWrite config := .inl rfl
  rw [dispatch_set others hpartitions hready hset] at hrun
  -- accepted or refused, the counter of the edit is that of the stamp or 0
  obtain ⟨m', clock, result, hput, hwf', -, hcases⟩ := m.putData_spec hwf value node.clock
    (getTimestamp config request.operation (setOptions config request))
    (setOptions config request).updateClockStrategy (setOptions config request).checkTimestamps
  have hcounter : (result.map (·.timestampOfOperation)).getD 0 = 0 ∨
      (result.map (·.timestampOfOperation)).getD 0 = (AVLTree.stamped node.clock
        (getTimestamp config request.operation (setOptions config request))
        (setOptions config request).updateClockStrategy
        (setOptions config request).checkTimestamps).counter := by
    rcases hcases with ⟨-, -, rfl, -⟩ | ⟨-, -, rfl, -⟩
    · exact Or.inr rfl
    · left
      split <;> rfl
  have hoperate := operate_set config (setOptions config request) hset hm hput
  obtain ⟨⟨-, hstate, hbuffer, hstores, -⟩, hlog, hsent⟩ :=
    executeOperation_write config hop rfl hoperate hrun
  have hcounter' : (Response.ofEdit result ErrorCode.ALREADY_REPLICATED).timestamp.counter =
      (result.map (·.timestampOfOperation)).getD 0 := rfl
  refine ⟨⟨hstate.trans hready.running, hbuffer.trans hready.buffer, rfl, m', ?_, hwf'⟩, _,
    hrequest.stampedOperation hroom hcounter hcounter', ?_, ?_⟩
  · show next.memDbStores 0 = some m'
    rw [hstores]
    simp [Node.setStore, setOptions, optionsOfRequest]
  · intro logged hlogged
    rw [Node.loggedOperations, hlog, map_append] at hlogged
    rcases mem_append.mp hlogged with hbefore | hnew
    · exact Or.inl hbefore
    · right
      split at hnew
      · exact mem_singleton.mp hnew
      · cases hnew
  · intro sent hmem
    rcases hsent sent hmem with hbefore | hnew
    · have houtbox := hready.outbox
      rw [show (node.setStore _ m' clock).outbox = node.outbox from rfl, houtbox] at hbefore
      cases hbefore
    · exact hnew

end node

/-! ### Runs of the cluster -/

/-- Nodes that are ready, with logs and messages of `SET` that a log gives back. -/
structure Cluster.Records {n : Nat} (configs : Fin n → Configuration) (cluster : Cluster n) :
    Prop where
  ready : ∀ i, (cluster.nodes i).Ready
  logged : ∀ i, ∀ operation ∈ (cluster.nodes i).loggedOperations, operation.RecoverableSet
  sent : ∀ message ∈ cluster.inFlight, message.request.operation.RecoverableSet ∧
    ∃ k, message.request.authentication.authKey = (configs k).authNodeKey

/-- A client's request is a `SET` whose record fits and that has room; broadcasts are delivered in
    any order, or not at all. -/
def SetsThatFit {n : Nat} (configs : Fin n → Configuration) : Event n → Cluster n → Prop
  | .client i request, cluster => request.FromUser (configs i) ∧
    (∃ key value, request.operation.IsSet key value) ∧
    OperationLogDeserializer.Fits request.operation ∧ HasRoom request (cluster.nodes i)
  | .deliver _, _ => True

section cluster
variable {n : Nat} {configs : Fin n → Configuration} {others : UInt8 → Option Operator}
  {cluster cluster' : Cluster n}

/-- A request that a node dispatches. -/
theorem Cluster.Records.handle (hconfigs : Replicated configs) (hcluster : cluster.Records configs)
    {i : Fin n} {request : Request} (authenticationType : AuthenticationType)
    (hrequest : request.operation.RecoverableSet)
    (hroom : authenticationType = .USER → HasRoom request (cluster.nodes i))
    (hdispatch : TCPServer.onDeserialized (configs i) others request (cluster.nodes i) =
      (dispatch (configs i) others { request with authenticationType := authenticationType }
        (cluster.nodes i)).map (TCPServer.answer request))
    (hrun : cluster.handle configs others i request = some cluster') :
    cluster'.Records configs := by
  unfold Cluster.handle at hrun
  rw [hdispatch, Option.map_map] at hrun
  obtain ⟨⟨next, response⟩, hnext, rfl⟩ := map_eq_some_iff.mp hrun
  have hrequest' : ({ request with authenticationType := authenticationType } :
      Request).operation.RecoverableSet := hrequest
  have hroom' : ({ request with authenticationType := authenticationType } :
      Request).authenticationType = .USER →
        HasRoom { request with authenticationType := authenticationType } (cluster.nodes i) := hroom
  obtain ⟨hready, operation, hoperation, hlog, hsent⟩ :=
    (hcluster.ready i).set_logs (hconfigs.usePartitions i) hrequest' hroom' hnext
  constructor
  · intro j
    by_cases hj : j = i
    · subst hj
      simpa [TCPServer.answer] using hready
    · simpa [hj] using hcluster.ready j
  · intro j logged hlogged
    by_cases hj : j = i
    · subst hj
      simp only [comp_apply, update_self] at hlogged
      rcases hlog logged hlogged with hbefore | rfl
      · exact hcluster.logged j logged hbefore
      · exact hoperation
    · simp only [comp_apply, update_of_ne hj] at hlogged
      exact hcluster.logged j logged hlogged
  · intro message hmessage
    rcases mem_append.mp hmessage with hbefore | hnew
    · exact hcluster.sent message hbefore
    · obtain ⟨sent, hmem, htarget⟩ := mem_flatMap.mp hnew
      obtain ⟨target, -, rfl⟩ := mem_map.mp htarget
      rw [hsent sent hmem]
      -- the sender puts its own id on what it broadcasts
      exact ⟨hoperation.stamped (configs i).nodeId hoperation.recoverable.timestamp, i, rfl⟩

theorem Cluster.Records.step (hconfigs : Replicated configs) (hcluster : cluster.Records configs)
    {event : Event n} (hevent : SetsThatFit configs event cluster)
    (hrun : cluster.step configs others event = some cluster') :
    cluster'.Records configs := by
  cases event with
  | client i request =>
    obtain ⟨huser, ⟨key, value, hset⟩, hfits, hroom⟩ := hevent
    have hrequest : request.operation.RecoverableSet := by
      refine ⟨⟨hfits, ?_, ?_⟩, key, value, hset⟩
      · rw [hset.edit]
        rfl
      · have htimestamp := hroom.2
        omega
    exact hcluster.handle hconfigs .USER hrequest (fun _ => hroom)
      (TCPServer.onDeserialized_user others huser _) hrun
  | deliver position =>
    obtain ⟨message, hmessage, hhandle⟩ := bind_eq_some_iff.mp hrun
    obtain ⟨hoperation, k, hkey⟩ := hcluster.sent message (mem_of_getElem? hmessage)
    -- the message has left the network
    have hrest : ({ cluster with inFlight := cluster.inFlight.eraseIdx position } :
        Cluster n).Records configs :=
      ⟨hcluster.ready, hcluster.logged, fun other hother =>
        hcluster.sent other ((eraseIdx_sublist _ _).subset hother)⟩
    exact hrest.handle hconfigs .NODE hoperation (fun hfalse => absurd hfalse (by simp))
      (TCPServer.onDeserialized_node others (hkey.trans (hconfigs.authNodeKey k _))
        (hconfigs.authApiUserKey _) _) hhandle

/-- Nothing has been written yet. -/
structure Cluster.Fresh (cluster : Cluster n) : Prop where
  ready : ∀ i, (cluster.nodes i).Ready
  operationLog : ∀ i, (cluster.nodes i).operationLog = []
  inFlight : cluster.inFlight = []

theorem Cluster.Fresh.records (h : cluster.Fresh) : cluster.Records configs := by
  constructor
  · exact h.ready
  · intro i operation hoperation
    rw [Node.loggedOperations, h.operationLog] at hoperation
    cases hoperation
  · intro message hmessage
    rw [h.inFlight] at hmessage
    cases hmessage

/-- In every run of clients' writes that fit, the logs hold nothing else. -/
theorem Cluster.records_of_run (hconfigs : Replicated configs) (hfresh : cluster.Fresh)
    {events : List (Event n)}
    (hguarded : Guarded (Cluster.step configs others) (SetsThatFit configs) events cluster)
    (hrun : run (Cluster.step configs others) events cluster = some cluster') :
    cluster'.Records configs :=
  invariant (fun _ _ _ hstate hevent hstep => Cluster.Records.step hconfigs hstate hevent hstep)
    hfresh.records hguarded hrun

end cluster

/-! ### Catching up -/

section edits
variable {operations : List OperationBody}
  (hoperations : ∀ operation ∈ operations, operation.RecoverableSet)
include hoperations

theorem set_of_mem_loggedEdits {edit : SimpleString × KeyOperation}
    (hedit : edit ∈ loggedEdits operations) : ∃ value timestamp, edit.2 = .SET value timestamp := by
  obtain ⟨read, hread, hedit⟩ := mem_filterMap.mp hedit
  obtain ⟨operation, hoperation, rfl⟩ := mem_map.mp hread
  obtain ⟨hrecoverable, key, value, hset⟩ := hoperations operation hoperation
  rw [hrecoverable.readBack_eq] at hedit
  have hset' : ({ operation with nodeId := 1 } : OperationBody).IsSet key value := hset
  rw [hset'.edit] at hedit
  exact ⟨value, _, by rw [← some.inj hedit]⟩

theorem mem_loggedEdits {operation : OperationBody} (hoperation : operation ∈ operations)
    {key : SimpleString} (hkey : operation.getArg 0 = some key) :
    ∃ value, (key, .SET value ⟨1, operation.timestamp⟩) ∈ loggedEdits operations := by
  obtain ⟨hrecoverable, key', value, hset⟩ := hoperations operation hoperation
  obtain rfl := some.inj (hset.getArg.1.symm.trans hkey)
  have hset' : ({ operation with nodeId := 1 } : OperationBody).IsSet key' value := hset
  refine ⟨value, mem_filterMap.mpr ⟨_, mem_map_of_mem hoperation, ?_⟩⟩
  rw [hrecoverable.readBack_eq]
  exact hset'.edit

/-- Executing a log of `SET` leaves every key of it with at least the counters that are logged. -/
theorem counter_le_of_register {config : Configuration} {m m' : Map}
    (hregister : ∀ h, m'.register h = Register.run (m.register h)
      (KeyOperation.onHash config.calculateHash h (loggedEdits operations)))
    {operation : OperationBody} (hoperation : operation ∈ operations) {key : SimpleString}
    (hkey : operation.getArg 0 = some key) :
    ∃ p, m'.register (config.calculateHash key) = some p ∧
      operation.timestamp.toNat ≤ p.1.counter.toNat := by
  obtain ⟨value, hedit⟩ := mem_loggedEdits hoperations hoperation hkey
  have hsets : ∀ op ∈ KeyOperation.onHash config.calculateHash (config.calculateHash key)
      (loggedEdits operations), ∃ t v, op = .set t v := by
    intro op hop
    obtain ⟨edit, hmem, -, rfl⟩ := KeyOperation.mem_onHash.mp hop
    obtain ⟨value, timestamp, hset⟩ := set_of_mem_loggedEdits hoperations hmem
    exact ⟨timestamp, value, by rw [hset]; rfl⟩
  obtain ⟨p, hp, hle⟩ := Register.exists_le_run_of_sets hsets
    (KeyOperation.mem_onHash.mpr ⟨_, hedit, rfl, rfl⟩)
  exact ⟨p, by rw [hregister, hp], LamportClock.counter_le hle⟩

end edits

/-- The flusher has written the log of the node in batches, in any order, and cut no segment. -/
structure Flushed (env : LogEnvironment) (node : Node) (batches : List (List OperationBody)) :
    Prop where
  perm : batches.flatten.Perm node.loggedOperations
  segment : (batches.flatten.flatMap OperationLogSerializer.recordBytes).length ≤
    env.segmentSize.toNat
  length : (batches.flatten.flatMap OperationLogSerializer.recordBytes).length < 2 ^ 31

theorem Flushed.flush_eq {env : LogEnvironment} {node : Node}
    {batches : List (List OperationBody)} (h : Flushed env node batches)
    (hlogged : ∀ operation ∈ node.loggedOperations, operation.RecoverableSet) :
    (∀ operation ∈ batches.flatten, operation.RecoverableSet) ∧
      SingleOperationLog.flush env batches .empty =
        some (.ofRecords batches.flatten) := by
  have hoperations : ∀ operation ∈ batches.flatten, operation.RecoverableSet :=
    fun operation hoperation => hlogged operation (h.perm.mem_iff.mp hoperation)
  refine ⟨hoperations, ?_⟩
  have hargs : ∀ operation ∈ batches.flatten, ∀ arg ∈ operation.args.getD [], arg.length < 256 :=
    fun operation hoperation => OperationLogDeserializer.length_lt_of_recordBytes
      (hoperations operation hoperation).recoverable.fits.size
  exact SingleOperationLog.flush_eq env [] hargs h.segment

/-- The clock of a node gets the id of the node before it synchronises. -/
def Node.identify (config : Configuration) (node : Node) : Node :=
  { node with clock := { node.clock with nodeId := config.nodeId } }

/-- In every run of clients' `SET` that fit, with any broadcasts delivered or missed: a node that
    restarts from its log and then synchronises with another one, neither of them with segments,
    stores for every key in the other's log a version with at least the counters that are logged
    there. -/
theorem catches_up {n : Nat} (configs : Fin n → Configuration) (hconfigs : Replicated configs)
    (others : UInt8 → Option Operator) (start cluster : Cluster n) (events : List (Event n))
    (hstart : start.Fresh)
    (hguarded : Guarded (Cluster.step configs others) (SetsThatFit configs) events start)
    (hrun : run (Cluster.step configs others) events start = some cluster) (a b : Fin n)
    (environmentA environmentB : LogEnvironment) (batchesA batchesB : List (List OperationBody))
    (hflushedA : Flushed environmentA (cluster.nodes a) batchesA)
    (hflushedB : Flushed environmentB (cluster.nodes b) batchesB)
    (hcompress : (environmentB.compressor.compressBytes
      (batchesB.flatten.flatMap OperationLogSerializer.recordBytes)).isSome)
    (tryFixLocalOplogSegment : OplogIterator → Option (List UInt8))
    (fixOplogSegment : (oplogId : UInt32) → (min max : UInt64) → Bool) (uninitialized : UInt32)
    (numberBuckets : UInt32) (hn : 0 < (roundUpPowerOfTwo numberBuckets).toNat) (fresh : Node)
    (hfresh : fresh.Starts (Map.new numberBuckets hn)) :
    ∃ logA logB lastAppliedTimestamp restored,
      SingleOperationLog.flush environmentA batchesA .empty = some logA ∧
      SingleOperationLog.flush environmentB batchesB .empty = some logB ∧
      restoreOplogFromDisk (configs a) others environmentA tryFixLocalOplogSegment
        uninitialized 0 [logA] fresh = some ([lastAppliedTimestamp], restored) ∧
      ∀ (k : Nat) (state : OplogSync k) (i : Fin k), state.Start →
        state.store (state.nodes i).nextSyncId.toUInt64 = none →
        (state.nodes i).timestampToSync = lastAppliedTimestamp →
        ∃ opened latestTimestampApplied caught,
          OplogSync.step (logB.segmentReader environmentB fixOplogSegment)
            (.sync i (logB.operationLogs uninitialized)) state = some opened ∧
          applyOplog (configs a) others true 0
            (receiverIterator (logB.segmentReader environmentB fixOplogSegment)
              (logB.operationLogs uninitialized) i) 2 opened (restored.identify (configs a)) =
            some (latestTimestampApplied, caught) ∧
          ∀ operation ∈ (cluster.nodes b).loggedOperations, ∀ key,
            operation.getArg 0 = some key →
            ∃ d, caught.read (configs a) key = some d ∧
              operation.timestamp.toNat ≤ d.timestamp.counter.toNat := by
  have hrecords := Cluster.records_of_run hconfigs hstart hguarded hrun
  obtain ⟨hsetsA, hflushA⟩ := hflushedA.flush_eq (hrecords.logged a)
  obtain ⟨hsetsB, hflushB⟩ := hflushedB.flush_eq (hrecords.logged b)
  -- there are no deletions in the logs
  have hdel : ∀ {operations : List OperationBody},
      (∀ operation ∈ operations, operation.RecoverableSet) → ∀ {key : SimpleString}
        {timestamp : LamportClock}, (key, .DEL timestamp) ∉ loggedEdits operations := by
    intro operations hoperations key timestamp hmem
    obtain ⟨value, timestamp', hset⟩ := set_of_mem_loggedEdits hoperations hmem
    cases hset
  obtain ⟨lastAppliedTimestamp, restored, m, hrestore, hbuffer, hm, hwf, hdata, -⟩ :=
    restoreOplogFromDisk_records environmentA tryFixLocalOplogSegment (configs a) others
      uninitialized (fun operation hoperation => (hsetsA operation hoperation).recoverable)
      hflushedA.length hfresh.store (Map.wellFormed_new numberBuckets hn)
      (Map.dataOnly_new numberBuckets hn) hfresh.buffer
      (fun key timestamp hmem => absurd hmem (hdel hsetsA))
  refine ⟨_, _, lastAppliedTimestamp, restored, hflushA, hflushB, hrestore, ?_⟩
  intro k state i hsync hfree _
  have hcompress' : (((ofRecords batchesB.flatten).segmentReader environmentB
      fixOplogSegment).compressor.compressBytes
        (batchesB.flatten.flatMap OperationLogSerializer.recordBytes)).isSome := hcompress
  obtain ⟨opened, hopened, hyields⟩ :=
    sync_yields uninitialized hsync hfree hflushedB.length hcompress'
  -- the id of the clock plays no part in the store and the buffer
  have hm₁ : (restored.identify (configs a)).memDbStores 0 = some m := hm
  have hbuffer₁ : (restored.identify (configs a)).delayedOperationsBuffer = [] := hbuffer
  obtain ⟨latestTimestampApplied, caught, m', happly, -, hm', hwf', -, hregister⟩ :=
    applyOplog_records (configs a) others true 0 hyields (by decide : 1 < 2)
      (fun operation hoperation => (hsetsB operation hoperation).recoverable) hflushedB.length
      hm₁ hwf hdata hbuffer₁ (fun key timestamp hmem => absurd hmem (hdel hsetsB))
  refine ⟨opened, latestTimestampApplied, caught, hopened, happly, ?_⟩
  intro operation hoperation key hkey
  obtain ⟨p, hp, hle⟩ := counter_le_of_register hsetsB hregister
    (hflushedB.perm.mem_iff.mpr hoperation) hkey
  refine ⟨⟨p.2, p.1⟩, ?_, hle⟩
  rw [read_of_store hm' hwf', hp]
  rfl

/-! ### Two nodes -/

/-- A node that asks for everything from a timestamp on. -/
def OplogSync.syncFrom (timestamp : UInt64) : OplogSync 1 where
  store _ := none
  nodes _ := ⟨1, 0, timestamp, 0, none, none, []⟩

theorem OplogSync.start_syncFrom (timestamp : UInt64) : (syncFrom timestamp).Start :=
  fun _ => ⟨rfl, rfl, rfl⟩

theorem Cluster.fresh_emptyCluster (n : Nat) : (emptyCluster n).Fresh :=
  ⟨ready_emptyCluster n, fun _ => rfl, rfl⟩

/-- Node 2 writes the key `k`, and its broadcast does not reach node 1. Node 1 restarts and catches
    up. -/
theorem catches_up_missed_set : ∃ cluster logA logB lastAppliedTimestamp restored opened
      latestTimestampApplied caught d,
    run (Cluster.step (numberedNodes 2) fun _ => none) [.client 1 (userSet [118])]
      (emptyCluster 2) = some cluster ∧
    (cluster.nodes 0).read (numberedNodes 2 0) [107] = none ∧
    SingleOperationLog.flush plainEnvironment [] .empty = some logA ∧
    SingleOperationLog.flush plainEnvironment [(cluster.nodes 1).loggedOperations] .empty =
      some logB ∧
    restoreOplogFromDisk (numberedNodes 2 0) (fun _ => none) plainEnvironment (fun _ => none) 0 0
      [logA] (emptyNode .BOOTING 1) = some ([lastAppliedTimestamp], restored) ∧
    OplogSync.step (logB.segmentReader plainEnvironment fun _ _ _ => false)
      (.sync 0 (logB.operationLogs 0)) (OplogSync.syncFrom lastAppliedTimestamp) = some opened ∧
    applyOplog (numberedNodes 2 0) (fun _ => none) true 0
      (receiverIterator (logB.segmentReader plainEnvironment fun _ _ _ => false)
        (logB.operationLogs 0) 0) 2 opened (restored.identify (numberedNodes 2 0)) =
      some (latestTimestampApplied, caught) ∧
    caught.read (numberedNodes 2 0) [107] = some d ∧ 1 ≤ d.timestamp.counter.toNat := by
  obtain ⟨cluster, hrun, hlogA, hlogB, hread⟩ : ∃ cluster, run (Cluster.step (numberedNodes 2)
      fun _ => none) [.client 1 (userSet [118])] (emptyCluster 2) = some cluster ∧
      (cluster.nodes 0).loggedOperations = [] ∧
      (cluster.nodes 1).loggedOperations = [loggedWrite SET [[118]] 1] ∧
      (cluster.nodes 0).read (numberedNodes 2 0) [107] = none := by
    decide +kernel
  have hfits : OperationLogDeserializer.Fits (loggedWrite SET [[118]] 0) :=
    ⟨by decide, by decide, by decide⟩
  have hguarded : Guarded (Cluster.step (numberedNodes 2) fun _ => none)
      (SetsThatFit (numberedNodes 2)) [.client 1 (userSet [118])] (emptyCluster 2) := by
    refine ⟨⟨fromUser_userSet 1 [118], ⟨[107], [118], isSet_userSet [118]⟩, hfits, ?_⟩,
      fun _ _ => trivial⟩
    constructor <;> decide
  have hsegment : plainEnvironment.segmentSize.toNat = 1048576 := by decide
  have hsize : (([(cluster.nodes 1).loggedOperations] : List (List OperationBody)).flatten.flatMap
      OperationLogSerializer.recordBytes).length = 23 := by
    rw [hlogB]
    decide
  have hflushedA : Flushed plainEnvironment (cluster.nodes 0) [] := by
    constructor
    · rw [hlogA]
      exact Perm.refl []
    · exact Nat.zero_le _
    · exact Nat.two_pow_pos 31
  have hflushedB : Flushed plainEnvironment (cluster.nodes 1)
      [(cluster.nodes 1).loggedOperations] := by
    constructor
    · rw [flatten_singleton]
    · rw [hsize, hsegment]
      decide
    · rw [hsize]
      decide
  obtain ⟨logA, logB, lastAppliedTimestamp, restored, hflushA, hflushB, hrestore, hcaught⟩ :=
    catches_up (numberedNodes 2) (replicated_numberedNodes 2) (fun _ => none)
      (emptyCluster 2) cluster
      _ (Cluster.fresh_emptyCluster 2) hguarded hrun 0 1 plainEnvironment plainEnvironment [] _
      hflushedA hflushedB rfl (fun _ => none) (fun _ _ _ => false) 0 1 (by decide) _
      (starts_emptyNode .BOOTING 1 _)
  obtain ⟨opened, latestTimestampApplied, caught, hopened, happly, hkeys⟩ :=
    hcaught 1 (OplogSync.syncFrom lastAppliedTimestamp) 0 (OplogSync.start_syncFrom _) rfl rfl
  obtain ⟨d, hd, hle⟩ := hkeys (loggedWrite SET [[118]] 1)
    (by rw [hlogB]; exact mem_singleton_self _) [107] rfl
  exact ⟨cluster, logA, logB, lastAppliedTimestamp, restored, opened, latestTimestampApplied,
    caught, d, hrun, hread, hflushA, hflushB, hrestore, hopened, happly, hd, hle⟩

/-- A write as it is logged. -/
def loggedSet (key value : SimpleString) (timestamp : UInt64) : OperationBody :=
  ⟨some [key, value], timestamp, 1, SET, false, false⟩

def userSetOf (key value : SimpleString) : Request where
  authentication := ⟨firstNode.authApiUserKey, false, false⟩
  operation := loggedSet key value 0
  requestNumber := 0
  authenticationType := .USER

/-- The two writes that are found in the value of `hidingValue`. -/
def hiddenSets : List OperationBody :=
  [loggedSet [121] (replicate 106 0) 1,
    loggedSet [122] (replicate 106 0 ++ (BigEndian.encode 4 0 ++
      RequestSerializer.operationBytes (loggedSet [98] [120] 2) false [[98], [120]])) 1]

/-- A value of 255 bytes. A record with it and a key of one byte is stepped over by 21 bytes, to the
    fourth byte of the value, where the record of a write begins. -/
def hidingValue : SimpleString :=
  replicate 3 0 ++ (hiddenSets.flatMap OperationLogSerializer.recordBytes).take 252

/-- Node 2 writes the key `a` with a value of 255 bytes and then the key `b`. Node 1 gets no
    broadcast, restarts and synchronises to the end, without the key `b`. -/
theorem long_record_hides_next_set : ∃ cluster logA logB lastAppliedTimestamp restored opened
      latestTimestampApplied caught,
    run (Cluster.step (numberedNodes 2) fun _ => none)
      [.client 1 (userSetOf [97] hidingValue), .client 1 (userSetOf [98] [120])] (emptyCluster 2) =
      some cluster ∧
    SingleOperationLog.flush plainEnvironment [] .empty = some logA ∧
    SingleOperationLog.flush plainEnvironment [(cluster.nodes 1).loggedOperations] .empty =
      some logB ∧
    restoreOplogFromDisk (numberedNodes 2 0) (fun _ => none) plainEnvironment (fun _ => none) 0 0
      [logA] (emptyNode .BOOTING 1) = some ([lastAppliedTimestamp], restored) ∧
    OplogSync.step (logB.segmentReader plainEnvironment fun _ _ _ => false)
      (.sync 0 (logB.operationLogs 0)) (OplogSync.syncFrom lastAppliedTimestamp) = some opened ∧
    applyOplog (numberedNodes 2 0) (fun _ => none) true 0
      (receiverIterator (logB.segmentReader plainEnvironment fun _ _ _ => false)
        (logB.operationLogs 0) 0) 2 opened (restored.identify (numberedNodes 2 0)) =
      some (latestTimestampApplied, caught) ∧
    loggedSet [98] [120] 2 ∈ (cluster.nodes 1).loggedOperations ∧
    caught.read (numberedNodes 2 0) [98] = none := by
  simp only [exists_and_left]
  set_option synthInstance.maxSize 256 in
  decide +kernel

end MemDb
