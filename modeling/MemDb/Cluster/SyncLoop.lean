import MemDb.Cluster.SyncSessions

/-! # The loop of one receiver

    `applyOplog` over a `SyncOplogReceiverIterator`: one `SYNC_OPLOG`, and `NEXT_SYNC_OPLOG_SEGMENT`
    as long as `hasNext` says so. The receiver does not recognise the two error codes of the sender,
    the end of the log and a corrupted segment, so that it counts each response as a block and takes
    its value apart. A log with a corrupted segment, or with segments behind an empty intermediate
    file, is therefore not synchronised.
-/

namespace MemDb

open Lib.Run Option ErrorCode

/-! ### Responses to the receiver -/

/-- The codes with which the sender answers `NEXT_SYNC_OPLOG_SEGMENT`. -/
def Response.FromSender (response : Response) : Prop :=
  response.isSuccessful = true ∨ response.errorCode = SYNC_OP_LOG_EOF ∨
    response.errorCode = UNFIXABLE_CORRUPTED_OPLOG_SEGMENT

theorem NextSegmentOplogOperator.operate_fromSender {reader : SegmentReader}
    {operationLog : OperationLogs} {operation : OperationBody} {syncId : UInt32}
    {store store' : OnGoingSyncOplogsStore} {response : Response}
    (h : operate reader operationLog operation syncId store = some (store', response)) :
    response.FromSender := by
  obtain ⟨⟨store, iterator⟩, -, h⟩ := bind_eq_some_iff.mp h
  dsimp only at h
  split at h
  · cases h
    exact Or.inr (Or.inl rfl)
  · obtain ⟨⟨_, _, _, success⟩, -, h⟩ := map_eq_some_iff.mp h
    cases h
    cases success with
    | true => exact Or.inl rfl
    | false => exact Or.inr (Or.inr rfl)

/-- The receiver recognises neither of the codes: it takes every response for a block. -/
theorem SyncOplogReceiverIterator.next_fromSender {response : Response} (h : response.FromSender)
    (compressor : Compressor) (receiver : SyncOplogReceiverIterator) :
    receiver.next compressor response = (getOplogFromResponse compressor response).map fun oplog =>
      ({ receiver with
          timestampToSync := response.timestamp.counter
          nSegmentsRemaining := receiver.nSegmentsRemaining - 1 }, some oplog) := by
  unfold next
  obtain hsuccess | hcode | hcode := h
  · rw [hsuccess]
    rfl
  all_goals
    have heof : response.hasErrorCode SYNC_OP_LOG_EOF = false := by
      rw [Response.hasErrorCode, hcode]
      decide
    have hcorrupted : response.hasErrorCode UNFIXABLE_CORRUPTED_OPLOG_SEGMENT = false := by
      rw [Response.hasErrorCode, hcode]
      decide
    simp [heof, hcorrupted]

namespace OplogSync
variable {n : Nat} {reader : SegmentReader} {state : OplogSync n} {i : Fin n}

/-! ### Requests are counted -/

/-- The node has obtained or expects as many blocks as were announced to it. -/
def Counts (total : Nat) (node : SyncingNode) : Prop :=
  ∃ receiver, node.receiver = some receiver ∧
    node.obtained.length + receiver.nSegmentsRemaining = total

variable {operationLog : OperationLogs}

/-- A request that is answered has brought the receiver, which expected one, a block. -/
theorem step_next_cases {state' : OplogSync n}
    (hstep : step reader (.next i operationLog) state = some state') :
    ∃ receiver timestamp oplog, (state.nodes i).receiver = some receiver ∧ receiver.hasNext = true ∧
      (state'.nodes i).receiver = some { receiver with
        timestampToSync := timestamp
        nSegmentsRemaining := receiver.nSegmentsRemaining - 1 } ∧
      (state'.nodes i).obtained = (state.nodes i).obtained ++ [oplog] := by
  obtain ⟨receiver, hfilter, hnext⟩ := bind_eq_some_iff.mp hstep
  obtain ⟨hreceiver, hhasNext⟩ := filter_eq_some_iff.mp hfilter
  obtain ⟨⟨store, response⟩, hoperate, hnext⟩ := bind_eq_some_iff.mp hnext
  dsimp only at hnext
  rw [SyncOplogReceiverIterator.next_fromSender
    (NextSegmentOplogOperator.operate_fromSender hoperate), map_map] at hnext
  obtain ⟨oplog, -, rfl⟩ := map_eq_some_iff.mp hnext
  refine ⟨receiver, response.timestamp.counter, oplog, hreceiver, hhasNext, ?_, ?_⟩
  · simp
  · simp

theorem counts_step {total : Nat} (h : Counts total (state.nodes i)) {state' : OplogSync n}
    (hstep : step reader (.next i operationLog) state = some state') :
    Counts total (state'.nodes i) := by
  obtain ⟨receiver, hreceiver, hcount⟩ := h
  obtain ⟨own, timestamp, oplog, hown, hhasNext, hreceiver', hobtained⟩ := step_next_cases hstep
  obtain rfl := some.inj (hown.symm.trans hreceiver)
  have hpos : 0 < own.nSegmentsRemaining := of_decide_eq_true hhasNext
  refine ⟨_, hreceiver', ?_⟩
  rw [hobtained, List.length_append, List.length_singleton]
  dsimp only
  omega

theorem counts_run {total requests : Nat} (h : Counts total (state.nodes i)) {final : OplogSync n}
    (hrun : run (step reader) (List.replicate requests (.next i operationLog)) state = some final) :
    Counts total (final.nodes i) := by
  induction requests generalizing state with
  | zero =>
    cases hrun
    exact h
  | succ requests ih =>
    rw [List.replicate_succ] at hrun
    obtain ⟨after, hstep, hrest⟩ := run_cons_eq_some.mp hrun
    exact ih (counts_step h hstep) hrest

/-! ### What the loop needs -/

/-- An iterator of the sender with sizes of 32 bits. zlib compresses its intermediate file, and
    uncompresses what is read of its segments. -/
structure Synchronises (reader : SegmentReader) (iterator : OplogIterator) : Prop where
  small : iterator.descriptors.length < 2 ^ 32
  intermediate : iterator.intermediate.length < 2 ^ 32 ∧
    (reader.compressor.compressBytes iterator.intermediate).isSome
  segments : ∀ descriptor ∈ iterator.descriptors, ∀ bytes,
    reader.readBytesByIndexSegmentDescriptor descriptor = some bytes →
    (reader.compressor.uncompressBytes bytes descriptor.uncompressedSize.toNat).isSome

/-- No segment is corrupted, and none stands behind an empty intermediate file. -/
def Reachable (reader : SegmentReader) (iterator : OplogIterator) : Prop :=
  (iterator.intermediate ≠ [] ∨ iterator.descriptors = []) ∧
    ∀ descriptor ∈ iterator.descriptors,
      (reader.readBytesByIndexSegmentDescriptor descriptor).isSome

variable {iterator : OplogIterator}

theorem Synchronises.intact (h : Synchronises reader iterator)
    (hreachable : Reachable reader iterator) : iterator.Intact reader := by
  refine ⟨h.small, hreachable.1, ?_⟩
  intro block hblock
  rcases List.mem_append.mp hblock with hintermediate | hsegment
  · split at hintermediate
    · cases hintermediate
    · obtain rfl := List.mem_singleton.mp hintermediate
      exact h.intermediate
  · obtain ⟨descriptor, hdescriptor, rfl⟩ := List.mem_map.mp hsegment
    obtain ⟨bytes, hbytes⟩ := isSome_iff_exists.mp (hreachable.2 descriptor hdescriptor)
    have hcontent := h.segments descriptor hdescriptor bytes hbytes
    show (Option.bind _ _).isSome
    rw [hbytes, bind_some]
    exact hcontent

/-- The blocks of a log that are not corrupted. -/
def uncorrupted (reader : SegmentReader) (iterator : OplogIterator) : List (List UInt8) :=
  iterator.blocks.filterMap
    (·.content reader.compressor reader.readBytesByIndexSegmentDescriptor)

/-- Only with all segments intact there are as many uncorrupted blocks as blocks. -/
theorem isSome_of_length_uncorrupted
    (hlength : (uncorrupted reader iterator).length = iterator.totalSize) :
    ∀ descriptor ∈ iterator.descriptors,
      (reader.readBytesByIndexSegmentDescriptor descriptor).isSome := by
  intro descriptor hdescriptor
  rw [← OplogIterator.length_blocks, uncorrupted, List.filterMap_length_eq_length] at hlength
  have hcontent := hlength (.segment descriptor)
    (List.mem_append_right _ (List.mem_map_of_mem hdescriptor))
  obtain ⟨content, hcontent⟩ := isSome_iff_exists.mp hcontent
  obtain ⟨bytes, hbytes, -⟩ := bind_eq_some_iff.mp hcontent
  rw [hbytes]
  rfl

/-- With segments behind an empty intermediate file, the answer to the first request is the end of
    the log, whose value is too short for a block. -/
theorem next_eq_none_of_unreached {receiver : SyncOplogReceiverIterator}
    {onGoing : OnGoingSyncOplog} (hstore : state.store receiver.syncId.toUInt64 = some onGoing)
    (hend : onGoing.iterator.hasNext = false) :
    next reader i operationLog receiver state = none := by
  have hoperate : ∀ operation, NextSegmentOplogOperator.operate reader operationLog operation
      receiver.syncId state.store = some (state.store.removeBySyncId receiver.syncId.toUInt64,
        { Response.error SYNC_OP_LOG_EOF with requestNumber := receiver.syncId }) := by
    intro operation
    simp [NextSegmentOplogOperator.operate, NextSegmentOplogOperator.getOplogSegmentIterator,
      OnGoingSyncOplogsStore.getSenderIteratorById, hstore, hend]
  unfold next
  rw [hoperate, bind_some, map_eq_none_iff,
    SyncOplogReceiverIterator.next_fromSender (Or.inr (Or.inl rfl)), map_eq_none_iff]
  exact if_pos (show 0 < 4 by decide)

theorem hasNext_eq_false {after : UInt64} {oplogId : UInt32}
    (hiterator : operationLog.getAfterTimestamp after oplogId = some iterator)
    (hempty : iterator.intermediate = []) : iterator.hasNext = false := by
  obtain ⟨found, -, rfl⟩ := map_eq_some_iff.mp hiterator
  change found.intermediate = [] at hempty
  simp [OplogIterator.hasNext, OplogIterator.new, hempty]

/-! ### The loop -/

/-- The loop ends, and has obtained the uncorrupted blocks of the log, each once and in order. -/
def Completes (reader : SegmentReader) (operationLog : OperationLogs) (iterator : OplogIterator)
    (i : Fin n) (state : OplogSync n) : Prop :=
  ∃ requests final receiver,
    run (step reader) (.sync i operationLog :: List.replicate requests (.next i operationLog))
      state = some final ∧
    (final.nodes i).receiver = some receiver ∧ receiver.hasNext = false ∧
    (final.nodes i).obtained = uncorrupted reader iterator

/-- The session that `SYNC_OPLOG` opens. -/
theorem step_sync (reader : SegmentReader) (hstart : state.Start)
    (hfree : state.store (state.nodes i).nextSyncId.toUInt64 = none)
    (hiterator : operationLog.getAfterTimestamp (state.nodes i).timestampToSync
      (state.nodes i).nodeOplogIdToSync = some iterator)
    (hsmall : iterator.descriptors.length < 2 ^ 32) :
    ∃ opened receiver, step reader (.sync i operationLog) state = some opened ∧
      (opened.nodes i).receiver = some receiver ∧ receiver.nSegmentsRemaining = iterator.totalSize ∧
      (opened.nodes i).iterator = some iterator ∧ (opened.nodes i).obtained = [] ∧
      opened.store receiver.syncId.toUInt64 = some ⟨iterator, iterator.totalSize, 0⟩ := by
  obtain ⟨hnone, -, hnothing⟩ := hstart i
  refine ⟨_, ⟨(state.nodes i).timestampToSync, (state.nodes i).nodeOplogIdToSync,
    (state.nodes i).nextSyncId, iterator.totalSize⟩,
    (if_pos (by rw [hnone]; rfl)).trans (sync_eq hfree hiterator hsmall), ?_, rfl, ?_, ?_, ?_⟩
  · simp
  · simp
  · simp [hnothing]
  · simp

/-- Where every block can be reached and read, the loop ends. -/
theorem completes_of_reachable (hstart : state.Start)
    (hfree : state.store (state.nodes i).nextSyncId.toUInt64 = none)
    (hiterator : operationLog.getAfterTimestamp (state.nodes i).timestampToSync
      (state.nodes i).nodeOplogIdToSync = some iterator)
    (hsynchronises : Synchronises reader iterator) (hreachable : Reachable reader iterator) :
    Completes reader operationLog iterator i state := by
  obtain ⟨opened, receiver, hopened, hreceiver, hremaining, hown, -, -⟩ :=
    step_sync reader hstart hfree hiterator hsynchronises.small
  have hintact := hsynchronises.intact hreachable
  have hsession : OwnSession reader (.sync i operationLog) state := by
    refine ⟨hfree, ?_⟩
    intro iterator' hiterator'
    cases hiterator.symm.trans hiterator'
    exact hintact
  obtain ⟨done, last, hrun, hdone, hsame, hlast, hzero⟩ :=
    (step_sessions hstart.sessions hsession hopened).finish
      (List.replicate iterator.totalSize operationLog) hreceiver
      (by rw [List.length_replicate, hremaining])
  have hblocks := hdone.obtained_of_done hlast hzero (hsame.trans hown)
  rw [List.map_replicate] at hrun
  refine ⟨iterator.totalSize, done, last, run_cons_eq_some.mpr ⟨opened, hopened, hrun⟩, hlast, ?_,
    ?_⟩
  · simp [SyncOplogReceiverIterator.hasNext, hzero]
  · have hfiltered := congrArg (List.filterMap id) hblocks
    rw [List.filterMap_map, List.filterMap_map] at hfiltered
    simpa [uncorrupted] using hfiltered

/-- A log is synchronised exactly when no segment is corrupted, and none stands behind an empty
    intermediate file. -/
theorem completes_iff {operationLog : OperationLogs} (hstart : state.Start)
    (hfree : state.store (state.nodes i).nextSyncId.toUInt64 = none)
    (hiterator : operationLog.getAfterTimestamp (state.nodes i).timestampToSync
      (state.nodes i).nodeOplogIdToSync = some iterator)
    (hsynchronises : Synchronises reader iterator) :
    Completes reader operationLog iterator i state ↔ Reachable reader iterator := by
  obtain ⟨opened, receiver, hopened, hreceiver, hremaining, hown, hnothing, hstore⟩ :=
    step_sync reader hstart hfree hiterator hsynchronises.small
  constructor
  · rintro ⟨requests, final, last, hrun, hlast, hdone, hobtained⟩
    obtain ⟨opened', hopened', hrequests⟩ := run_cons_eq_some.mp hrun
    cases hopened.symm.trans hopened'
    have hzero : last.nSegmentsRemaining = 0 := by
      simpa [SyncOplogReceiverIterator.hasNext] using hdone
    constructor
    · -- otherwise the first request fails
      by_contra hunreached
      obtain ⟨hempty, hsegments⟩ := not_or.mp hunreached
      have hend := hasNext_eq_false hiterator (not_not.mp hempty)
      have hpos : 0 < receiver.nSegmentsRemaining := by
        rw [hremaining]
        exact Nat.lt_of_lt_of_le (List.length_pos_iff.mpr hsegments) (Nat.le_add_right _ _)
      cases requests with
      | zero =>
        cases hrequests
        cases hreceiver.symm.trans hlast
        omega
      | succ requests =>
        rw [List.replicate_succ] at hrequests
        obtain ⟨after, hafter, -⟩ := run_cons_eq_some.mp hrequests
        obtain ⟨own, hfilter, hnext⟩ := bind_eq_some_iff.mp hafter
        cases (filter_eq_some_iff.mp hfilter).1.symm.trans hreceiver
        rw [next_eq_none_of_unreached hstore hend] at hnext
        cases hnext
    · -- every request has brought a block
      have hcounts : Counts iterator.totalSize (opened.nodes i) :=
        ⟨receiver, hreceiver, by rw [hnothing, hremaining, List.length_nil, Nat.zero_add]⟩
      obtain ⟨last', hlast', hcount⟩ := counts_run hcounts hrequests
      cases hlast.symm.trans hlast'
      rw [hzero, Nat.add_zero, hobtained] at hcount
      exact isSome_of_length_uncorrupted hcount
  · exact completes_of_reachable hstart hfree hiterator hsynchronises

/-! One node, and a sender with one segment. Its compressor puts a byte in front of what it
    compresses. -/

theorem tail?_of_cons (uncompressed compressed : List UInt8)
    (h : some (0 :: uncompressed) = some compressed) : compressed.tail? = some uncompressed := by
  cases h
  rfl

def markingReader (corrupted : Bool) : SegmentReader where
  compressor :=
    ⟨fun bytes => some (0 :: bytes), fun compressed _ => compressed.tail?, tail?_of_cons⟩
  readBytesByIndexSegmentDescriptor _ := if corrupted then none else some [0, 2]
  fixOplogSegment _ _ _ := false

def segmentBehind (intermediate : List UInt8) : OperationLogs :=
  fun _ _ => some ⟨[⟨1, 1, 0, 0, 2, 1, 0⟩], 0, intermediate, 0⟩

def oneNode : OplogSync 1 where
  store _ := none
  nodes _ := ⟨1, 0, 0, 0, none, none, []⟩

theorem completes_iff_intact :
    ∃ iterator, (segmentBehind [1]).getAfterTimestamp 0 0 = some iterator ∧
      Completes (markingReader false) (segmentBehind [1]) iterator 0 oneNode := by
  refine ⟨_, rfl, (completes_iff (fun _ => ⟨rfl, rfl, rfl⟩) rfl rfl ?_).mpr ?_⟩
  · constructor
    · show 1 < 2 ^ 32
      decide
    · exact ⟨show 1 < 2 ^ 32 by decide, rfl⟩
    · rintro descriptor - bytes hbytes
      cases hbytes
      rfl
  · refine ⟨Or.inl (List.cons_ne_nil 1 []), ?_⟩
    rintro descriptor -
    rfl

/-- The receiver still expects a block when its next request fails: behind the first block if the
    segment is corrupted, and at once if the intermediate file is empty. -/
theorem sync_fails_before_end :
    (run (step (markingReader true)) [.sync 0 (segmentBehind [1]), .next 0 (segmentBehind [1])]
      oneNode).map (fun final =>
        ((final.nodes 0).obtained, (final.nodes 0).receiver.map (·.hasNext))) =
      some ([[1]], some true) ∧
    (run (step (markingReader true)) [.sync 0 (segmentBehind [1]), .next 0 (segmentBehind [1]),
      .next 0 (segmentBehind [1])] oneNode).isNone = true ∧
    (run (step (markingReader false)) [.sync 0 (segmentBehind [])] oneNode).map (fun final =>
        ((final.nodes 0).obtained, (final.nodes 0).receiver.map (·.hasNext))) =
          some ([], some true) ∧
    (run (step (markingReader false)) [.sync 0 (segmentBehind []), .next 0 (segmentBehind [])]
      oneNode).isNone = true := by
  decide

end OplogSync

end MemDb
