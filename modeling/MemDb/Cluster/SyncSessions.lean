import MemDb.Operators.SyncOplog

/-! # Sync sessions of several receivers

    Any number of nodes that synchronise a log from the same sender. Each sends `SYNC_OPLOG` once
    and then `NEXT_SYNC_OPLOG_SEGMENT` as long as it expects more segments; the sender handles the
    requests one after another, in any order. What a receiver has obtained is a first part of the
    blocks of its own iterator, and all of them in the end, when each `SYNC_OPLOG` opens a session
    of its own.
-/

namespace MemDb

open Lib.Run List Option Function OperatorNumbers

/-! ### The system -/

/-- A node that synchronises one of its logs. -/
structure SyncingNode where
  nodeId : UInt16
  nextSyncOplogIdCounter : UInt32
  timestampToSync : UInt64
  nodeOplogIdToSync : UInt32
  /-- Set when `SYNC_OPLOG` has been answered. -/
  receiver : Option SyncOplogReceiverIterator
  /-- The iterator that `getAfterTimestamp` returned for its `SYNC_OPLOG`. -/
  iterator : Option OplogIterator
  /-- The blocks that `next` has returned. -/
  obtained : List (List UInt8)
deriving DecidableEq, Repr

/-- The number of its `SYNC_OPLOG`: what it draws is passed on through a
    `std::function<uint32_t()>`. -/
def SyncingNode.nextSyncId (node : SyncingNode) : UInt32 :=
  (OnGoingSyncOplogsStore.nextSyncOplogId node.nodeId node.nextSyncOplogIdCounter).1.toUInt32

structure OplogSync (n : Nat) where
  /-- The sessions of the sender. -/
  store : OnGoingSyncOplogsStore
  nodes : Fin n → SyncingNode

/-- A request that the sender handles next, with its logs at that moment. -/
inductive OplogSyncEvent (n : Nat) where
  | sync (i : Fin n) (operationLog : OperationLogs)
  | next (i : Fin n) (operationLog : OperationLogs)

namespace OplogSync
variable {n : Nat} (reader : SegmentReader)

def sync (i : Fin n) (operationLog : OperationLogs) (state : OplogSync n) : Option (OplogSync n) :=
  let node := state.nodes i
  (SyncOplogOperator operationLog (syncOplogOperation SYNC_OPLOG node.nodeId
      node.timestampToSync node.nodeOplogIdToSync) node.nextSyncId state.store).bind
    fun (store, response) =>
      (SyncOplogReceiverIterator.initSyncOplog node.timestampToSync node.nodeOplogIdToSync
          response).map fun receiver =>
        { store := store
          nodes := update state.nodes i
            { node with
              nextSyncOplogIdCounter := node.nextSyncOplogIdCounter + 1
              receiver := some receiver
              iterator := operationLog.getAfterTimestamp node.timestampToSync
                node.nodeOplogIdToSync } }

def next (i : Fin n) (operationLog : OperationLogs) (receiver : SyncOplogReceiverIterator)
    (state : OplogSync n) : Option (OplogSync n) :=
  let node := state.nodes i
  (NextSegmentOplogOperator.operate reader operationLog
      (syncOplogOperation NEXT_SYNC_OPLOG_SEGMENT 0 receiver.timestampToSync
        receiver.nodeOplogIdToSync) receiver.syncId state.store).bind
    fun (store, nextResponse) =>
      (receiver.next reader.compressor nextResponse).map fun (receiver, block) =>
        { store := store
          nodes := update state.nodes i
            { node with
              receiver := some receiver
              obtained := node.obtained ++ block.toList } }

def step : OplogSyncEvent n → OplogSync n → Option (OplogSync n)
  | .sync i operationLog, state =>
    if (state.nodes i).receiver.isNone then sync i operationLog state else none
  | .next i operationLog, state =>
    ((state.nodes i).receiver.filter (·.hasNext)).bind fun receiver =>
      next reader i operationLog receiver state

/-- No node has sent its `SYNC_OPLOG` yet; the sender may have other sessions. -/
def Start (state : OplogSync n) : Prop :=
  ∀ i, (state.nodes i).receiver = none ∧ (state.nodes i).iterator = none ∧
    (state.nodes i).obtained = []

end OplogSync

/-- All blocks of a new iterator are reached and can be read. -/
structure OplogIterator.Intact (reader : SegmentReader) (iterator : OplogIterator) : Prop where
  small : iterator.descriptors.length < 2 ^ 32
  reached : iterator.intermediate ≠ [] ∨ iterator.descriptors = []
  readable : ∀ block ∈ iterator.blocks,
    block.Readable reader.compressor reader.readBytesByIndexSegmentDescriptor

/-- A `SYNC_OPLOG` finds no session under its number, and its iterator is intact. -/
def OplogSync.OwnSession {n : Nat} (reader : SegmentReader) :
    OplogSyncEvent n → OplogSync n → Prop
  | .sync i operationLog, state =>
    state.store (state.nodes i).nextSyncId.toUInt64 = none ∧
      ∀ iterator, operationLog.getAfterTimestamp (state.nodes i).timestampToSync
        (state.nodes i).nodeOplogIdToSync = some iterator → iterator.Intact reader
  | .next _ _, _ => True

/-! ### A request for a session -/

theorem syncOplogArgs_operation (operatorNumber : UInt8) (nodeId : UInt16) (timestamp : UInt64)
    (oplogId : UInt32) :
    (syncOplogOperation operatorNumber nodeId timestamp oplogId).syncOplogArgs =
      some (timestamp, oplogId) := by
  have htimestamp : (syncOplogOperation operatorNumber nodeId timestamp oplogId).getDoubleArgU64 0 =
      some timestamp := getDoubleArgU64_of_args rfl rfl
  have hoplogId := toNumber_fromNumber (by simpa using oplogId.toNat_lt : oplogId.toNat < 256 ^ 4)
  have harg : (syncOplogOperation operatorNumber nodeId timestamp oplogId).getArg 2 =
      some (fromNumber 4 oplogId.toNat) := rfl
  unfold OperationBody.syncOplogArgs
  simp [htimestamp, harg, hoplogId]

theorem syncOplogOperator_eq_some {operationLog : OperationLogs} {operatorNumber : UInt8}
    {nodeId : UInt16} {timestamp : UInt64} {oplogId requestNumber : UInt32}
    {store : OnGoingSyncOplogsStore} {result : OnGoingSyncOplogsStore × Response} :
    SyncOplogOperator operationLog (syncOplogOperation operatorNumber nodeId timestamp oplogId)
        requestNumber store = some result ↔
      ∃ iterator, operationLog.getAfterTimestamp timestamp oplogId = some iterator ∧
        (store.registerSyncOplogIterator requestNumber.toUInt64 iterator,
          Response.mk true 0 ⟨0, 0⟩ requestNumber (fromNumber 8 iterator.totalSize)) = result := by
  unfold SyncOplogOperator
  simp [syncOplogArgs_operation, bind_eq_some_iff]

/-! ### A request for the next segment -/

namespace OnGoingSyncOplogsStore

theorem markSegmentAsSent_apply (syncId : UInt64) {store : OnGoingSyncOplogsStore}
    {onGoing : OnGoingSyncOplog} (h : store syncId = some onGoing) (iterator : OplogIterator) :
    (store.markSegmentAsSent syncId).setIterator syncId iterator =
      update store syncId (if onGoing.nFragmentsSent + 1 ≥ onGoing.totalNFragments then none
          else some ⟨iterator, onGoing.totalNFragments, onGoing.nFragmentsSent + 1⟩) := by
  unfold markSegmentAsSent setIterator
  rw [h]
  by_cases hlast : onGoing.nFragmentsSent + 1 ≥ onGoing.totalNFragments
  · simp [hlast, removeBySyncId]
  · simp [hlast]

end OnGoingSyncOplogsStore

section segment
variable {reader : SegmentReader}

/-- A session at the sender that has the given blocks left. -/
structure OnGoingSyncOplog.Has (reader : SegmentReader) (onGoing : OnGoingSyncOplog)
    (rest : List OplogBlock) : Prop where
  valid : onGoing.iterator.Valid
  compressed : onGoing.iterator.compressed = true
  remaining : onGoing.iterator.remaining = rest
  readable : ∀ block ∈ rest,
    block.Readable reader.compressor reader.readBytesByIndexSegmentDescriptor
  count : onGoing.totalNFragments = onGoing.nFragmentsSent + rest.length

/-- The receiver takes the response apart as the sender has put it together. -/
theorem NextSegmentOplogOperator.segmentResponse_oplog (compressor : Compressor) (syncId : UInt32)
    (iterator : OplogIterator) (bytes : List UInt8) (size : UInt32) :
    SyncOplogReceiverIterator.getOplogFromResponse compressor
        (segmentResponse syncId iterator bytes size true) =
      compressor.uncompressBytes bytes size.toNat := by
  have hlength : (fromNumber 4 size.toNat).length = 4 := by
    rw [fromNumber_eq, Lib.BigEndian.length_encode]
  have hnumber : toNumber 4 (fromNumber 4 size.toNat ++ bytes) = some size.toNat := by
    have hparse := toNumber_fromNumber (by simpa using size.toNat_lt : size.toNat < 256 ^ 4)
    unfold toNumber at hparse ⊢
    rw [if_pos (by rw [length_append]; omega), take_left' hlength]
    rw [if_pos hlength.ge, take_of_length_le hlength.le] at hparse
    exact hparse
  unfold SyncOplogReceiverIterator.getOplogFromResponse segmentResponse
  simp only [hnumber, bind_some, drop_left' hlength]
  rw [if_neg (by rw [length_append]; omega)]

/-- The sender answers with the next block. The session then has the blocks behind it, and is closed
    when there are none. -/
theorem NextSegmentOplogOperator.operate_session (operationLog : OperationLogs)
    (operation : OperationBody) {syncId : UInt32} {store : OnGoingSyncOplogsStore}
    {onGoing : OnGoingSyncOplog} {block : OplogBlock} {rest : List OplogBlock}
    (hstore : store syncId.toUInt64 = some onGoing) (hhas : onGoing.Has reader (block :: rest)) :
    ∃ entry response,
      operate reader operationLog operation syncId store =
        some (update store syncId.toUInt64 entry, response) ∧
      response.isSuccessful = true ∧
      SyncOplogReceiverIterator.getOplogFromResponse reader.compressor response =
        block.content reader.compressor reader.readBytesByIndexSegmentDescriptor ∧
      (rest ≠ [] → ∃ onGoing', entry = some onGoing' ∧ onGoing'.Has reader rest) := by
  obtain ⟨after, bytes, size, hnext, hout⟩ := OplogIterator.next_compressed hhas.valid
    hhas.compressed hhas.remaining (hhas.readable block mem_cons_self)
  have hhasNext : onGoing.iterator.hasNext = true := by
    rw [OplogIterator.hasNext_eq, hhas.remaining]
    rfl
  have hcount := hhas.count
  rw [length_cons] at hcount
  have hfix :
      getNextOplogSegmentOrTryFix reader onGoing.iterator = some (after, bytes, size, true) := by
    simp [getNextOplogSegmentOrTryFix, hnext, hout.sizeReported]
  refine ⟨if onGoing.nFragmentsSent + 1 ≥ onGoing.totalNFragments then none
      else some ⟨after, onGoing.totalNFragments, onGoing.nFragmentsSent + 1⟩,
    segmentResponse syncId after bytes size true, ?_, rfl, ?_, ?_⟩
  · unfold operate getOplogSegmentIterator
    simp only [OnGoingSyncOplogsStore.getSenderIteratorById, hstore, map_some,
      bind_some, hhasNext, hfix, Bool.not_true, Bool.false_eq_true, if_false]
    rw [OnGoingSyncOplogsStore.markSegmentAsSent_apply _ hstore]
  · rw [segmentResponse_oplog, hout.content]
  · intro hrest
    have hpos : 0 < rest.length := length_pos_iff.mpr hrest
    rw [if_neg (by omega)]
    refine ⟨_, rfl, hout.valid, hout.compressed, hout.remaining, ?_, ?_⟩
    · intro other hother
      exact hhas.readable other (mem_cons_of_mem block hother)
    · show onGoing.totalNFragments = onGoing.nFragmentsSent + 1 + rest.length
      omega

end segment

/-! ### Sessions side by side -/

namespace OplogSync
variable {n : Nat} {reader : SegmentReader} {state : OplogSync n} {i : Fin n}

/-- What a node has obtained and what is left of its session are the blocks of its iterator. -/
def InSession (reader : SegmentReader) (store : OnGoingSyncOplogsStore) (node : SyncingNode) :
    Prop :=
  ∀ receiver, node.receiver = some receiver → ∃ iterator rest, node.iterator = some iterator ∧
    rest.length = receiver.nSegmentsRemaining ∧
    node.obtained.map some ++
        rest.map (·.content reader.compressor reader.readBytesByIndexSegmentDescriptor) =
      iterator.blocks.map (·.content reader.compressor reader.readBytesByIndexSegmentDescriptor) ∧
    (rest ≠ [] → ∃ onGoing, store receiver.syncId.toUInt64 = some onGoing ∧ onGoing.Has reader rest)

structure Sessions (reader : SegmentReader) (state : OplogSync n) : Prop where
  unstarted : ∀ i, (state.nodes i).receiver = none →
    (state.nodes i).iterator = none ∧ (state.nodes i).obtained = []
  session : ∀ i, InSession reader state.store (state.nodes i)
  separate : ∀ i j receiver receiver', i ≠ j → (state.nodes i).receiver = some receiver →
    (state.nodes j).receiver = some receiver' → receiver.hasNext = true →
    receiver'.hasNext = true → receiver.syncId ≠ receiver'.syncId

variable {receiver : SyncOplogReceiverIterator} {state' : OplogSync n} {iterator : OplogIterator}
  {operationLog : OperationLogs}

section
variable {store : OnGoingSyncOplogsStore} {node : SyncingNode} (h : InSession reader store node)
include h

/-- An open session has an entry at the sender. -/
theorem InSession.entry (hreceiver : node.receiver = some receiver)
    (hnext : receiver.hasNext = true) :
    ∃ onGoing, store receiver.syncId.toUInt64 = some onGoing := by
  obtain ⟨iterator, rest, -, hlength, -, hopen⟩ := h receiver hreceiver
  have hpos : 0 < receiver.nSegmentsRemaining := of_decide_eq_true hnext
  obtain ⟨onGoing, hstore, -⟩ := hopen (length_pos_iff.mp (hlength ▸ hpos))
  exact ⟨onGoing, hstore⟩

/-- A request of a node changes its own session only. -/
theorem InSession.of_ne {syncId : UInt32}
    (hne : ∀ receiver, node.receiver = some receiver → receiver.hasNext = true →
      receiver.syncId ≠ syncId) (entry : Option OnGoingSyncOplog) :
    InSession reader (update store syncId.toUInt64 entry) node := by
  intro receiver hreceiver
  obtain ⟨iterator, rest, hiterator, hlength, hblocks, hopen⟩ := h receiver hreceiver
  refine ⟨iterator, rest, hiterator, hlength, hblocks, ?_⟩
  intro hrest
  have hnext : receiver.hasNext = true :=
    decide_eq_true (hlength ▸ length_pos_iff.mpr hrest)
  have hid : receiver.syncId.toUInt64 ≠ syncId.toUInt64 := by
    intro heq
    exact hne receiver hreceiver hnext (UInt32.toUInt64_inj.mp heq)
  rw [update_of_ne hid]
  exact hopen hrest

end

/-- A request of node `i` that has changed the session under a number. -/
def ServesSession (reader : SegmentReader) (state : OplogSync n) (i : Fin n) (syncId : UInt32)
    (state' : OplogSync n) : Prop :=
  ∃ entry node receiver, node.receiver = some receiver ∧ receiver.syncId = syncId ∧
    state' =
      { store := update state.store syncId.toUInt64 entry
        nodes := update state.nodes i node } ∧
    InSession reader (update state.store syncId.toUInt64 entry) node

theorem Sessions.serves (h : Sessions reader state) {syncId : UInt32}
    (hserves : ServesSession reader state i syncId state')
    (hothers : ∀ j receiver, j ≠ i → (state.nodes j).receiver = some receiver →
      receiver.hasNext = true → receiver.syncId ≠ syncId) : Sessions reader state' := by
  obtain ⟨entry, node, receiver, hreceiver, rfl, rfl, hsession⟩ := hserves
  constructor
  · intro j hj
    dsimp only at hj ⊢
    by_cases hji : j = i
    · subst hji
      rw [update_self, hreceiver] at hj
      cases hj
    · rw [update_of_ne hji] at hj ⊢
      exact h.unstarted j hj
  · intro j
    dsimp only
    by_cases hji : j = i
    · subst hji
      rw [update_self]
      exact hsession
    · rw [update_of_ne hji]
      exact (h.session j).of_ne (fun receiver' hreceiver' => hothers j receiver' hji hreceiver')
        entry
  · -- no two open sessions have the same id
    intro j k receiver₁ receiver₂ hjk hj hk hnext₁ hnext₂
    dsimp only at hj hk
    by_cases hji : j = i
    · subst hji
      rw [update_self, hreceiver, some.injEq] at hj
      rw [update_of_ne (Ne.symm hjk)] at hk
      subst hj
      exact (hothers k receiver₂ (Ne.symm hjk) hk hnext₂).symm
    · rw [update_of_ne hji] at hj
      by_cases hki : k = i
      · subst hki
        rw [update_self, hreceiver, some.injEq] at hk
        subst hk
        exact hothers j receiver₁ hji hj hnext₁
      · rw [update_of_ne hki] at hk
        exact h.separate j k receiver₁ receiver₂ hjk hj hk hnext₁ hnext₂

/-- The next request of a node in session brings its next block. -/
theorem next_session (hsession : InSession reader state.store (state.nodes i))
    (hreceiver : (state.nodes i).receiver = some receiver) (hnext : receiver.hasNext = true)
    (operationLog : OperationLogs) :
    ∃ state' receiver', next reader i operationLog receiver state = some state' ∧
      ServesSession reader state i receiver.syncId state' ∧
      (state'.nodes i).iterator = (state.nodes i).iterator ∧
      (state'.nodes i).receiver = some receiver' ∧
      receiver'.nSegmentsRemaining + 1 = receiver.nSegmentsRemaining := by
  obtain ⟨iterator, rest, hiterator, hlength, hblocks, hopen⟩ := hsession receiver hreceiver
  have hpos : 0 < receiver.nSegmentsRemaining := of_decide_eq_true hnext
  obtain ⟨block, rest, rfl⟩ := exists_cons_of_length_pos (hlength ▸ hpos)
  obtain ⟨onGoing, hstore, hhas⟩ := hopen (cons_ne_nil block rest)
  obtain ⟨oplog, hcontent⟩ := (hhas.readable block mem_cons_self).content
  obtain ⟨entry, response, hoperate, hsuccess, hoplog, hrest⟩ :=
    NextSegmentOplogOperator.operate_session operationLog
      (syncOplogOperation NEXT_SYNC_OPLOG_SEGMENT 0 receiver.timestampToSync
        receiver.nodeOplogIdToSync) hstore hhas
  -- the receiver is one block further, and the block is in its buffer
  let receiver' : SyncOplogReceiverIterator :=
    { receiver with
      timestampToSync := response.timestamp.counter
      nSegmentsRemaining := receiver.nSegmentsRemaining - 1 }
  let node : SyncingNode :=
    { state.nodes i with
      receiver := some receiver'
      obtained := (state.nodes i).obtained ++ [oplog] }
  have hresult : next reader i operationLog receiver state = some
      { store := update state.store receiver.syncId.toUInt64 entry
        nodes := update state.nodes i node } := by
    simp [next, hoperate, SyncOplogReceiverIterator.next, hsuccess, hoplog, hcontent, node,
      receiver']
  refine ⟨_, receiver', hresult, ⟨entry, node, receiver', rfl, rfl, rfl, ?_⟩, ?_, ?_,
    Nat.sub_add_cancel hpos⟩
  rotate_left
  · simp [node]
  · simp [node]
  intro _ hsome
  cases hsome
  refine ⟨iterator, rest, hiterator, ?_, ?_, ?_⟩
  · rw [length_cons] at hlength
    show rest.length = receiver.nSegmentsRemaining - 1
    omega
  · rw [← hblocks]
    simp [hcontent, node]
  · intro hne
    obtain ⟨onGoing', rfl, hhas'⟩ := hrest hne
    exact ⟨onGoing', update_self .., hhas'⟩

/-- The session that `SYNC_OPLOG` opens has all blocks of the iterator. -/
theorem getAfterTimestamp_has {after : UInt64} {oplogId : UInt32}
    (hiterator : operationLog.getAfterTimestamp after oplogId = some iterator)
    (hintact : iterator.Intact reader) :
    (OnGoingSyncOplog.mk iterator iterator.totalSize 0).Has reader iterator.blocks := by
  obtain ⟨found, -, rfl⟩ := map_eq_some_iff.mp hiterator
  constructor
  · exact ⟨hintact.small, fun _ => rfl⟩
  · rfl
  · exact OplogIterator.remaining_eq_blocks rfl rfl hintact.reached
  · exact hintact.readable
  · simp [OplogIterator.length_blocks]

/-- What `SYNC_OPLOG` does where no session is open under its number. -/
theorem sync_eq (hfree : state.store (state.nodes i).nextSyncId.toUInt64 = none)
    (hiterator : operationLog.getAfterTimestamp (state.nodes i).timestampToSync
      (state.nodes i).nodeOplogIdToSync = some iterator)
    (hsmall : iterator.descriptors.length < 2 ^ 32) :
    sync i operationLog state = some
      { store := update state.store (state.nodes i).nextSyncId.toUInt64
          (some ⟨iterator, iterator.totalSize, 0⟩)
        nodes := update state.nodes i { state.nodes i with
            nextSyncOplogIdCounter := (state.nodes i).nextSyncOplogIdCounter + 1
            receiver := some ⟨(state.nodes i).timestampToSync, (state.nodes i).nodeOplogIdToSync,
              (state.nodes i).nextSyncId, iterator.totalSize⟩
            iterator := some iterator } } := by
  have htotal : toNumber 8 (fromNumber 8 iterator.totalSize) = some iterator.totalSize := by
    apply toNumber_fromNumber
    unfold OplogIterator.totalSize
    split <;> omega
  have hoperator : SyncOplogOperator operationLog (syncOplogOperation SYNC_OPLOG
      (state.nodes i).nodeId (state.nodes i).timestampToSync (state.nodes i).nodeOplogIdToSync)
      (state.nodes i).nextSyncId state.store = some _ :=
    syncOplogOperator_eq_some.mpr ⟨iterator, hiterator, rfl⟩
  simp [sync, hoperator, SyncOplogReceiverIterator.initSyncOplog, htotal, hiterator,
    OnGoingSyncOplogsStore.registerSyncOplogIterator, hfree]

/-- A node that finds no session under its number opens one with all blocks of its iterator. -/
theorem sync_session (hobtained : (state.nodes i).obtained = [])
    (hfree : state.store (state.nodes i).nextSyncId.toUInt64 = none)
    (hintact : ∀ iterator, operationLog.getAfterTimestamp (state.nodes i).timestampToSync
      (state.nodes i).nodeOplogIdToSync = some iterator → iterator.Intact reader)
    (hsync : sync i operationLog state = some state') :
    ServesSession reader state i (state.nodes i).nextSyncId state' := by
  obtain ⟨_, hoperator, -⟩ := bind_eq_some_iff.mp hsync
  obtain ⟨iterator, hiterator, -⟩ := syncOplogOperator_eq_some.mp hoperator
  have hhas := getAfterTimestamp_has hiterator (hintact iterator hiterator)
  rw [sync_eq hfree hiterator (hintact iterator hiterator).small] at hsync
  refine ⟨some ⟨iterator, iterator.totalSize, 0⟩, _, _, rfl, rfl, (some.inj hsync).symm, ?_⟩
  intro _ hsome
  cases hsome
  refine ⟨iterator, iterator.blocks, rfl, OplogIterator.length_blocks iterator, ?_, ?_⟩
  · rw [show (state.nodes i).obtained = [] from hobtained]
    rfl
  · intro _
    exact ⟨_, update_self .., hhas⟩

theorem step_sessions {event : OplogSyncEvent n} (h : Sessions reader state)
    (hown : OwnSession reader event state) (hstep : step reader event state = some state') :
    Sessions reader state' := by
  cases event with
  | sync i operationLog =>
    obtain ⟨hnone, hsync⟩ := ite_none_right_eq_some.mp hstep
    obtain ⟨hfree, hintact⟩ := hown
    have hserves := sync_session (h.unstarted i (isNone_iff_eq_none.mp hnone)).2 hfree hintact
      hsync
    apply h.serves hserves
    -- an open session has an entry, and there is none under the number
    intro j receiver hji hreceiver hnext heq
    obtain ⟨onGoing, hentry⟩ := (h.session j).entry hreceiver hnext
    rw [heq, hfree] at hentry
    cases hentry
  | next i operationLog =>
    obtain ⟨receiver, hfilter, hnext⟩ := bind_eq_some_iff.mp hstep
    obtain ⟨hreceiver, hhasNext⟩ := filter_eq_some_iff.mp hfilter
    obtain ⟨after, -, hafter, hserves, -⟩ :=
      next_session (h.session i) hreceiver hhasNext operationLog
    cases hafter.symm.trans hnext
    apply h.serves hserves
    intro j receiver' hji hreceiver' hhasNext'
    exact h.separate j i receiver' receiver hji hreceiver' hreceiver hhasNext' hhasNext

theorem Start.sessions (h : state.Start) : Sessions reader state := by
  constructor
  · intro i _
    exact (h i).2
  · intro i receiver hreceiver
    rw [(h i).1] at hreceiver
    cases hreceiver
  · intro i _ receiver _ _ hreceiver
    rw [(h i).1] at hreceiver
    cases hreceiver

/-! ### What every receiver obtains -/

/-- A node in session gets its remaining blocks with as many requests. -/
theorem Sessions.finish (h : Sessions reader state) (operationLogs : List OperationLogs)
    (hreceiver : (state.nodes i).receiver = some receiver)
    (hlength : operationLogs.length = receiver.nSegmentsRemaining) :
    ∃ done receiver', run (step reader) (operationLogs.map (.next i)) state = some done ∧
      Sessions reader done ∧ (done.nodes i).iterator = (state.nodes i).iterator ∧
      (done.nodes i).receiver = some receiver' ∧ receiver'.nSegmentsRemaining = 0 := by
  induction operationLogs generalizing state receiver with
  | nil => exact ⟨state, receiver, rfl, h, rfl, hreceiver, hlength.symm⟩
  | cons operationLog operationLogs ih =>
    rw [length_cons] at hlength
    have hhasNext : receiver.hasNext = true := decide_eq_true (by omega)
    obtain ⟨after, receiver', hafter, -, hiterator, hreceiver', hcount⟩ :=
      next_session (h.session i) hreceiver hhasNext operationLog
    have hstep : step reader (.next i operationLog) state = some after := by
      unfold step
      dsimp only
      rw [hreceiver, filter_some, if_pos hhasNext, bind_some, hafter]
    have hown : OwnSession reader (.next i operationLog) state := trivial
    obtain ⟨done, last, hrun, hsessions, hsame, hlast, hzero⟩ :=
      ih (step_sessions h hown hstep) hreceiver' (by omega)
    refine ⟨done, last, ?_, hsessions, hsame.trans hiterator, hlast, hzero⟩
    exact run_cons_eq_some.mpr ⟨after, hstep, hrun⟩

theorem Sessions.obtained_of_done (h : Sessions reader state)
    (hreceiver : (state.nodes i).receiver = some receiver) (hzero : receiver.nSegmentsRemaining = 0)
    (hiterator : (state.nodes i).iterator = some iterator) :
    (state.nodes i).obtained.map some = iterator.blocks.map
      (·.content reader.compressor reader.readBytesByIndexSegmentDescriptor) := by
  obtain ⟨own, rest, hown, hlength, hblocks, -⟩ := h.session i receiver hreceiver
  cases hown.symm.trans hiterator
  rw [eq_nil_of_length_eq_zero (hlength.trans hzero), map_nil, append_nil] at hblocks
  exact hblocks

/-- In every run in which each `SYNC_OPLOG` opens a session of its own over an intact log, a node
    has obtained the first blocks of its iterator, in order and each once. It has obtained all of
    them when it expects no more, and as many requests as it expects blocks bring it there. -/
theorem obtains_own_blocks {events : List (OplogSyncEvent n)} {final : OplogSync n}
    (hstart : state.Start) (hguarded : Guarded (step reader) (OwnSession reader) events state)
    (hrun : run (step reader) events state = some final) (i : Fin n)
    {receiver : SyncOplogReceiverIterator} (hreceiver : (final.nodes i).receiver = some receiver) :
    ∃ iterator, (final.nodes i).iterator = some iterator ∧
      (final.nodes i).obtained.map some <+: iterator.blocks.map
        (·.content reader.compressor reader.readBytesByIndexSegmentDescriptor) ∧
      (receiver.hasNext = false → (final.nodes i).obtained.map some = iterator.blocks.map
        (·.content reader.compressor reader.readBytesByIndexSegmentDescriptor)) ∧
      ∀ operationLogs : List OperationLogs, operationLogs.length = receiver.nSegmentsRemaining →
        ∃ done, run (step reader) (operationLogs.map (.next i)) final = some done ∧
          (done.nodes i).obtained.map some = iterator.blocks.map
            (·.content reader.compressor reader.readBytesByIndexSegmentDescriptor) := by
  have hstep : ∀ (event : OplogSyncEvent n) before after, Sessions reader before →
      OwnSession reader event before → step reader event before = some after →
      Sessions reader after :=
    fun _ _ _ hsessions hown hafter => step_sessions hsessions hown hafter
  have hsessions : Sessions reader final := invariant hstep hstart.sessions hguarded hrun
  obtain ⟨iterator, rest, hiterator, -, hblocks, -⟩ := hsessions.session i receiver hreceiver
  refine ⟨iterator, hiterator, ⟨_, hblocks⟩, ?_, ?_⟩
  · intro hdone
    have hzero : receiver.nSegmentsRemaining = 0 := by
      simpa [SyncOplogReceiverIterator.hasNext] using hdone
    exact hsessions.obtained_of_done hreceiver hzero hiterator
  · intro operationLogs hlength
    obtain ⟨done, last, hfinish, hdone, hsame, hlast, hzero⟩ :=
      hsessions.finish operationLogs hreceiver hlength
    exact ⟨done, hfinish, hdone.obtained_of_done hlast hzero (hsame.trans hiterator)⟩

/-! Two nodes and a sender with one segment and an intermediate file of one byte each. Their ids are
    1 and 2; the first draws the counter 0. -/

def plainReader : SegmentReader where
  compressor := ⟨some, fun compressed _ => some compressed, fun _ _ h => h.symm⟩
  readBytesByIndexSegmentDescriptor _ := some [2]
  fixOplogSegment _ _ _ := false

def oneSegment : OperationLogs := fun _ _ => some ⟨[⟨1, 1, 0, 0, 1, 1, 0⟩], 0, [1], 0⟩

def twoNodes (counter : UInt32) : OplogSync 2 where
  store _ := none
  nodes i := ⟨UInt16.ofNat (i + 1), if i.val = 0 then 0 else counter, 0, 0, none, none, []⟩

def interleaved (i j : Fin 2) : List (OplogSyncEvent 2) :=
  [.sync i oneSegment, .sync j oneSegment, .next i oneSegment, .next j oneSegment,
    .next i oneSegment, .next j oneSegment]

theorem oneSegment_intact {after : UInt64} {oplogId : UInt32}
    (h : oneSegment.getAfterTimestamp after oplogId = some iterator) :
    iterator.Intact plainReader := by
  cases h
  constructor
  · show 1 < 2 ^ 32
    decide
  · exact Or.inl (cons_ne_nil 1 [])
  · intro block hblock
    obtain rfl | rfl : block = .intermediate [1] ∨ block = .segment ⟨1, 1, 0, 0, 1, 1, 0⟩ := by
      simpa [OplogIterator.blocks, OplogIterator.new] using hblock
    · exact ⟨by decide, rfl⟩
    · exact (rfl : Option.isSome (some [(2 : UInt8)]) = true)

/-- The number of a `SYNC_OPLOG` is free. -/
def freeNumber {n : Nat} : OplogSyncEvent n → OplogSync n → Bool
  | .sync i _, state => (state.store (state.nodes i).nextSyncId.toUInt64).isNone
  | .next _ _, _ => true

theorem obtains_own_blocks_two :
    ∃ final, run (step plainReader) (interleaved 0 1) (twoNodes 1) = some final ∧
      ∃ iterator, (final.nodes 1).iterator = some iterator ∧
        (final.nodes 1).obtained.map some = iterator.blocks.map
          (·.content plainReader.compressor plainReader.readBytesByIndexSegmentDescriptor) := by
  obtain ⟨final, hfinal, hreceiver⟩ : ∃ final, checkedRun (step plainReader) freeNumber
      (interleaved 0 1) (twoNodes 1) = some final ∧
      (final.nodes 1).receiver = some ⟨1, 0, 1, 0⟩ := by
    decide +kernel
  obtain ⟨hrun, hfree⟩ := checkedRun_eq_some hfinal
  have hintact : Guarded (step plainReader) (fun event _ => ∀ i operationLog,
      event = .sync i operationLog → operationLog = oneSegment) (interleaved 0 1) (twoNodes 1) := by
    apply Guarded.of_forall
    intro event hevent _ i operationLog heq
    subst heq
    simp [interleaved] at hevent
    obtain ⟨-, rfl⟩ | ⟨-, rfl⟩ := hevent <;> rfl
  have hguarded :
      Guarded (step plainReader) (OwnSession plainReader) (interleaved 0 1) (twoNodes 1) := by
    apply (hfree.and hintact).imp
    intro event state hevent
    cases event with
    | sync i operationLog =>
      obtain rfl := hevent.2 i operationLog rfl
      exact ⟨isNone_iff_eq_none.mp hevent.1, fun _ => oneSegment_intact⟩
    | next i operationLog => exact trivial
  have hstart : (twoNodes 1).Start := fun _ => ⟨rfl, rfl, rfl⟩
  obtain ⟨iterator, hiterator, -, hall, -⟩ := obtains_own_blocks hstart hguarded hrun 1 hreceiver
  exact ⟨final, hrun, iterator, hiterator, hall rfl⟩

/-- Both nodes draw the number 0. The second one is served from the session of the first, which is
    opened again when it has run out: each node gets one of the two blocks, twice. -/
theorem shared_session_splits_blocks :
    (run (step plainReader) (interleaved 0 1) (twoNodes 0)).map (fun final =>
        ((final.nodes 0).obtained, (final.nodes 1).obtained)) =
      some ([[1], [1]], [[2], [2]]) ∧
    (run (step plainReader) (interleaved 0 1) (twoNodes 0)).bind (fun final =>
        (final.nodes 1).iterator.map fun iterator => iterator.blocks.map
          (·.content plainReader.compressor plainReader.readBytesByIndexSegmentDescriptor)) =
      some [some [1], some [2]] := by
  decide

end OplogSync

end MemDb
