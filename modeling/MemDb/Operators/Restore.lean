import MemDb.Operators.Replay
import MemDb.Persistence.SingleOperationLog

/-! # Restoring a node

    At its start a node executes the operations of its logs on disk, and those that another node
    sends it later, by `applyOplog`: block by block, the operations of a block one after another,
    with their timestamps checked. The timestamp of the last operation is the one from which the
    node asks others for operations.

    A log whose operations fit and that has no segments is executed whole, in the order of the file.
    Under every hash the store then holds what a last-writer-wins register holds after these
    operations, as the log gives them back: each of them is an operation of node 1.
-/

namespace MemDb

open Lib SingleOperationLog List

/-! ### Iterators over blocks -/

/-- An iterator as `applyOplog` uses it: `next` is `getNextOplogOrTryFix`. -/
structure BlockIterator (σ : Type) where
  hasNext : σ → Bool
  next : σ → Option (σ × List UInt8)

/-- The blocks that an iterator still hands out. -/
inductive BlockIterator.Yields {σ : Type} (iterator : BlockIterator σ) :
    σ → List (List UInt8) → Prop
  | done {state : σ} (hdone : iterator.hasNext state = false) : Yields iterator state []
  | next {state state' : σ} {block : List UInt8} {blocks : List (List UInt8)}
    (hmore : iterator.hasNext state = true) (hnext : iterator.next state = some (state', block))
    (hrest : Yields iterator state' blocks) : Yields iterator state (block :: blocks)

/-! ### `applyOplog` -/

/-- The options of every operation. -/
def applyOplogOptions (saveInOperationLog : Bool) (partitionId : UInt32) : OperationOptions where
  checkTimestamps := true
  dontBroadcastToCluster := true
  dontSaveInOperationLog := !saveInOperationLog
  updateClockStrategy := .SET_MAX
  partitionId := partitionId
  requestNumber := 0

section applyOplog
variable (config : Configuration) (others : UInt8 → Option Operator)
  (saveInOperationLog : Bool) (partitionId : UInt32)

/-- The operations of a block, and the timestamp of the last one. -/
def applyBlock (serializedOplog : List UInt8) (applied : UInt64 × Node) :
    Option (UInt64 × Node) := do
  let deserializedOplog ← OperationLogDeserializer.deserializeAll serializedOplog
  let node ← operatorsDispatcher config others
    (applyOplogOptions saveInOperationLog partitionId) deserializedOplog applied.2
  return (deserializedOplog.getLast?.elim applied.1 (·.timestamp), node)

/-- The loop of `applyOplog`; `none` also when there are more blocks than `fuel`. -/
def applyOplogLoop {σ : Type} (oplogIterator : BlockIterator σ) :
    (fuel : Nat) → σ → UInt64 × Node → Option (UInt64 × Node)
  | 0, _, _ => none
  | fuel + 1, state, applied =>
    if oplogIterator.hasNext state then do
      let (state, serializedOplog) ← oplogIterator.next state
      let applied ← applyBlock config others saveInOperationLog partitionId serializedOplog
        applied
      applyOplogLoop oplogIterator fuel state applied
    else some applied

def applyOplog {σ : Type} (oplogIterator : BlockIterator σ) (fuel : Nat) (state : σ) (node : Node) :
    Option (UInt64 × Node) := do
  let (latestTimestampApplied, node) ← applyOplogLoop config others saveInOperationLog
    partitionId oplogIterator fuel state (0, node)
  let node ← applyDelayedOperationsBuffer config others node
  return (latestTimestampApplied, node)

end applyOplog

/-! ### `restoreOplogFromDisk` -/

section restore
variable (config : Configuration) (others : UInt8 → Option Operator)
  (env : LogEnvironment) (tryFixLocalOplogSegment : OplogIterator → Option (List UInt8))

/-- The iterator over a log on disk. For a corrupted segment the node may ask others. -/
def localIterator (log : SingleOperationLog) : BlockIterator OplogIterator where
  hasNext := OplogIterator.hasNext
  next oplogIterator :=
    (oplogIterator.next env.compressor (log.readBytesDataByDescriptor env)).bind
      fun (oplogIterator, serializedOplogResult) =>
        match serializedOplogResult with
        | some serializedOplog => some (oplogIterator, serializedOplog)
        | none => (tryFixLocalOplogSegment oplogIterator).map fun fixed => (oplogIterator, fixed)

/-- `restoreOplogFromDisk`, for the logs from number `i` on: the timestamp of each, and the node. A
    log has at most one block more than segments. -/
def restoreOplogFromDisk (uninitialized : UInt32) : (i : UInt32) → List SingleOperationLog → Node →
    Option (List UInt64 × Node)
  | _, [], node => some ([], node)
  | i, log :: logs, node => do
    let (lastAppliedTimestamp, node) ← applyOplog config others false i
      (localIterator env tryFixLocalOplogSegment log) (log.index.length + 2)
      (log.getAll uninitialized i false) node
    let (lastRestoredTimestamps, node) ← restoreOplogFromDisk uninitialized (i + 1) logs node
    return (lastAppliedTimestamp :: lastRestoredTimestamps, node)

end restore

/-! ### Operations that come back -/

/-- A `SET` or `DEL` that the log gives back, but for the id of the node. -/
structure OperationBody.Recoverable (operation : OperationBody) : Prop where
  fits : OperationLogDeserializer.Fits operation
  edit : operation.edit.isSome
  timestamp : operation.timestamp.toNat < 2 ^ 31

section recoverable
variable {operation : OperationBody}

open OperationLogSerializer OperationLogDeserializer

theorem OperationBody.Recoverable.readBack_eq (h : operation.Recoverable) :
    readBack operation = { operation with nodeId := 1 } := by
  obtain ⟨edit, hedit⟩ := Option.isSome_iff_exists.mp h.edit
  obtain ⟨key, hkey, -⟩ := Option.bind_eq_some_iff.mp hedit
  obtain ⟨args, hargs, -⟩ := Option.bind_eq_some_iff.mp hkey
  have hnonempty : args.takeWhile (· ≠ []) = args := by
    apply takeWhile_eq_self_iff.mpr
    intro arg harg
    exact decide_eq_true (h.fits.args arg (by rw [hargs]; exact harg))
  unfold readBack RequestDeserializer.readOperation
  rw [RequestDeserializer.readTimestamp_of_lt h.timestamp]
  simp only [hargs, Option.getD_some, Bool.false_eq_true, if_false]
  rw [hnonempty]

/-- Whether an operation comes back does not depend on who stamped it. -/
theorem OperationBody.Recoverable.stamped (h : operation.Recoverable) (nodeId : UInt16)
    {timestamp : UInt64} (htimestamp : timestamp.toNat < 2 ^ 31) :
    ({ operation with nodeId := nodeId, timestamp := timestamp } : OperationBody).Recoverable := by
  constructor
  · constructor
    · exact h.fits.operatorNumber
    · exact h.fits.args
    · have hsize := h.fits.size
      rw [length_recordBytes] at hsize ⊢
      exact hsize
  · obtain ⟨edit, hedit⟩ := Option.isSome_iff_exists.mp h.edit
    rcases OperationBody.edit_cases hedit with ⟨key, value, hset, -⟩ | ⟨key, hdel, -⟩
    · have hset' : ({ operation with nodeId := nodeId, timestamp := timestamp } :
          OperationBody).IsSet key value := hset
      rw [hset'.edit]
      rfl
    · have hdel' : ({ operation with nodeId := nodeId, timestamp := timestamp } :
          OperationBody).IsDel key := hdel
      rw [hdel'.edit]
      rfl
  · exact htimestamp

end recoverable

/-! ### Blocks of operations that fit -/

/-- What the operations of a log are executed as. -/
def loggedEdits (operations : List OperationBody) : List (SimpleString × KeyOperation) :=
  (operations.map OperationLogDeserializer.readBack).filterMap OperationBody.edit

/-- The blocks of a log without segments. -/
def recordBlocks (operations : List OperationBody) : List (List UInt8) :=
  if operations.flatMap OperationLogSerializer.recordBytes = [] then []
  else [operations.flatMap OperationLogSerializer.recordBytes]

section records
variable (config : Configuration) (others : UInt8 → Option Operator)
  (saveInOperationLog : Bool) (partitionId : UInt32)

open OperationLogSerializer OperationLogDeserializer

variable {blocks : List (List UInt8)} {fuel : Nat} {σ : Type} {operations : List OperationBody}
  {node : Node} {oplogIterator : BlockIterator σ} {state : σ} {decoded : List (List OperationBody)}

/-- The loop over the blocks that an iterator hands out. -/
theorem applyOplogLoop_yields (hyields : oplogIterator.Yields state blocks)
    (hfuel : blocks.length < fuel) (applied : UInt64 × Node) :
    applyOplogLoop config others saveInOperationLog partitionId oplogIterator fuel state
        applied =
      blocks.foldlM (fun applied block =>
        applyBlock config others saveInOperationLog partitionId block applied) applied := by
  induction hyields generalizing fuel applied with
  | done hdone =>
    cases fuel with
    | zero => cases hfuel
    | succ fuel => simp [applyOplogLoop, hdone]
  | @next state state' block blocks hmore hnext _ ih =>
    cases fuel with
    | zero => cases hfuel
    | succ fuel =>
      rw [applyOplogLoop, if_pos hmore, hnext, foldlM_cons, Option.bind_eq_bind, Option.bind_some]
      apply bind_congr
      intro after
      exact ih (Nat.lt_of_succ_lt_succ hfuel) after

theorem applyBlock_eq {block : List UInt8} (hblock : deserializeAll block = some operations)
    (applied : UInt64 × Node) :
    applyBlock config others saveInOperationLog partitionId block applied =
      (operatorsDispatcher config others (applyOplogOptions saveInOperationLog partitionId)
        operations applied.2).map fun node =>
          (operations.getLast?.elim applied.1 (·.timestamp), node) := by
  unfold applyBlock
  rw [hblock, Option.bind_eq_bind, Option.bind_some]
  cases operatorsDispatcher config others (applyOplogOptions saveInOperationLog partitionId)
    operations applied.2 <;> rfl

/-- The operations of the blocks are executed one after another. -/
theorem foldlM_applyBlock
    (hdecoded : Forall₂ (fun block operations => deserializeAll block = some operations) blocks
      decoded) (applied : UInt64 × Node) :
    blocks.foldlM (fun applied block =>
        applyBlock config others saveInOperationLog partitionId block applied) applied =
      (operatorsDispatcher config others (applyOplogOptions saveInOperationLog partitionId)
        decoded.flatten applied.2).map fun node =>
          (decoded.flatten.getLast?.elim applied.1 (·.timestamp), node) := by
  induction hdecoded generalizing applied with
  | nil => rfl
  | @cons block operations blocks decoded hblock _ ih =>
    rw [foldlM_cons, applyBlock_eq config others saveInOperationLog partitionId hblock,
      flatten_cons, operatorsDispatcher_append]
    cases operatorsDispatcher config others
      (applyOplogOptions saveInOperationLog partitionId) operations applied.2 with
    | none => rfl
    | some node =>
      -- the last operation of all is in the last block that has one
      have hlast : (operations ++ decoded.flatten).getLast?.elim applied.1 (·.timestamp) =
          decoded.flatten.getLast?.elim (operations.getLast?.elim applied.1 (·.timestamp))
            (·.timestamp) := by
        rw [getLast?_append]
        cases decoded.flatten.getLast? <;> rfl
      rw [hlast]
      exact ih (operations.getLast?.elim applied.1 (·.timestamp), node)

theorem applyDelayedOperationsBuffer_nil (hbuffer : node.delayedOperationsBuffer = []) :
    applyDelayedOperationsBuffer config others node = some node := by
  have hnode : { node with delayedOperationsBuffer := [] } = node := by
    rw [← hbuffer]
  unfold applyDelayedOperationsBuffer
  rw [hbuffer, hnode]
  rfl

/-- Blocks of `SET` and `DEL` act on the registers of the store of their partition. -/
theorem applyOplog_decoded (hyields : oplogIterator.Yields state blocks)
    (hfuel : blocks.length < fuel)
    (hdecoded : Forall₂ (fun block operations => deserializeAll block = some operations) blocks
      decoded) {edits : List (SimpleString × KeyOperation)}
    (hsome : ∀ operation ∈ decoded.flatten, operation.edit.isSome)
    (hedits : decoded.flatten.filterMap OperationBody.edit = edits) {m : Map}
    (hm : node.memDbStores partitionId = some m) (hwf : m.WellFormed) (hdata : m.DataOnly)
    (hbuffer : node.delayedOperationsBuffer = [])
    (hdel : KeyOperation.DeletedAlone config.calculateHash m edits) :
    ∃ node' m', applyOplog config others saveInOperationLog partitionId oplogIterator fuel
        state node = some (decoded.flatten.getLast?.elim 0 (·.timestamp), node') ∧
      node'.delayedOperationsBuffer = [] ∧ node'.memDbStores partitionId = some m' ∧
      m'.WellFormed ∧ m'.DataOnly ∧
      ∀ h, m'.register h = Register.run (m.register h)
        (KeyOperation.onHash config.calculateHash h edits) := by
  obtain ⟨m', clock, happly, hwf', hdata', hregister⟩ := KeyOperation.applyAll_spec
    config.calculateHash edits hwf hdata node.clock hdel
  rw [← hedits] at happly
  have hm₀ : node.memDbStores (applyOplogOptions saveInOperationLog partitionId).partitionId =
      some m := hm
  obtain ⟨node', hexecute, -, hbuffer', hm'⟩ :=
    operatorsDispatcher_edits config others rfl rfl hsome hm₀ happly
  refine ⟨node', m', ?_, hbuffer'.trans hbuffer, hm', hwf', hdata', hregister⟩
  unfold applyOplog
  rw [applyOplogLoop_yields config others saveInOperationLog partitionId hyields hfuel,
    foldlM_applyBlock config others saveInOperationLog partitionId hdecoded]
  dsimp only
  rw [hexecute, Option.map_some, Option.bind_eq_bind, Option.bind_some]
  dsimp only
  rw [applyDelayedOperationsBuffer_nil config others (hbuffer'.trans hbuffer)]
  rfl

theorem flatMap_recordBytes_eq_nil :
    operations.flatMap recordBytes = [] ↔ operations = [] := by
  cases operations with
  | nil => simp
  | cons operation operations =>
    have hlength := length_recordBytes operation
    have hne : recordBytes operation ≠ [] := by
      intro hempty
      rw [hempty, length_nil] at hlength
      omega
    simp [hne]

/-- The block of a log of operations that fit, if there is one, is read back. -/
theorem recordBlocks_decoded (hfits : ∀ operation ∈ operations, Fits operation)
    (hlength : (operations.flatMap recordBytes).length < 2 ^ 31) :
    ∃ decoded, Forall₂ (fun block operations => deserializeAll block = some operations)
        (recordBlocks operations) decoded ∧ decoded.flatten = operations.map readBack := by
  unfold recordBlocks
  split
  · next hnone =>
    obtain rfl := flatMap_recordBytes_eq_nil.mp hnone
    exact ⟨[], .nil, rfl⟩
  · exact ⟨[operations.map readBack], .cons (deserializeAll_flatMap hfits hlength) .nil, by simp⟩

/-- A log of operations that come back acts on the registers of the store of its partition. -/
theorem applyOplog_records (hyields : oplogIterator.Yields state (recordBlocks operations))
    (hfuel : 1 < fuel) (hoperations : ∀ operation ∈ operations, operation.Recoverable)
    (hlength : (operations.flatMap recordBytes).length < 2 ^ 31) {m : Map}
    (hm : node.memDbStores partitionId = some m) (hwf : m.WellFormed) (hdata : m.DataOnly)
    (hbuffer : node.delayedOperationsBuffer = [])
    (hdel : KeyOperation.DeletedAlone config.calculateHash m (loggedEdits operations)) :
    ∃ latestTimestampApplied node' m',
      applyOplog config others saveInOperationLog partitionId oplogIterator fuel state node =
        some (latestTimestampApplied, node') ∧
      node'.delayedOperationsBuffer = [] ∧ node'.memDbStores partitionId = some m' ∧
      m'.WellFormed ∧ m'.DataOnly ∧
      ∀ h, m'.register h = Register.run (m.register h)
        (KeyOperation.onHash config.calculateHash h (loggedEdits operations)) := by
  obtain ⟨decoded, hdecoded, hflatten⟩ := recordBlocks_decoded
    (fun operation hoperation => (hoperations operation hoperation).fits) hlength
  have hsome : ∀ operation ∈ decoded.flatten, operation.edit.isSome := by
    rw [hflatten]
    intro operation hoperation
    obtain ⟨written, hwritten, rfl⟩ := mem_map.mp hoperation
    have hrecoverable := hoperations written hwritten
    rw [hrecoverable.readBack_eq]
    exact (hrecoverable.stamped 1 hrecoverable.timestamp).edit
  have hcount : (recordBlocks operations).length < fuel := by
    unfold recordBlocks
    split
    · exact Nat.zero_lt_of_lt hfuel
    · exact hfuel
  exact ⟨_, applyOplog_decoded config others saveInOperationLog partitionId hyields hcount
    hdecoded hsome (by rw [hflatten, loggedEdits]) hm hwf hdata hbuffer hdel⟩

end records

/-! ### A log without segments -/

section log
variable (env : LogEnvironment)
  (tryFixLocalOplogSegment : OplogIterator → Option (List UInt8))

theorem localIterator_yields (uninitialized i : UInt32) (operations : List OperationBody) :
    (localIterator env tryFixLocalOplogSegment (.ofRecords operations)).Yields
      ((SingleOperationLog.ofRecords operations).getAll uninitialized i false)
      (recordBlocks operations) := by
  unfold recordBlocks
  split
  · next hnone =>
    apply BlockIterator.Yields.done
    simp [localIterator, getAll, ofRecords, OplogIterator.hasNext,
      OplogIterator.new, hnone]
  · next hsome =>
    -- the intermediate file, and no segment behind it
    have hmore : (localIterator env tryFixLocalOplogSegment (.ofRecords operations)).hasNext
        ((ofRecords operations).getAll uninitialized i false) = true := by
      unfold localIterator getAll ofRecords
      simpa only [OplogIterator.hasNext, OplogIterator.new, Bool.false_and, Bool.false_or,
        Bool.not_false, Bool.true_and, decide_eq_true_eq, gt_iff_lt, length_pos_iff] using hsome
    have hnext : (localIterator env tryFixLocalOplogSegment (.ofRecords operations)).next
        ((ofRecords operations).getAll uninitialized i false) =
          some ({ (ofRecords operations).getAll uninitialized i false with
            intermediateIterated := true },
              operations.flatMap OperationLogSerializer.recordBytes) := rfl
    exact .next hmore hnext (.done rfl)

open OperationLogSerializer OperationLogDeserializer in
/-- Restoring a log without segments acts on the registers of the store. -/
theorem restoreOplogFromDisk_records (config : Configuration)
    (others : UInt8 → Option Operator) (uninitialized : UInt32)
    {operations : List OperationBody}
    (hoperations : ∀ operation ∈ operations, operation.Recoverable)
    (hlength : (operations.flatMap recordBytes).length < 2 ^ 31) {node : Node} {m : Map}
    (hm : node.memDbStores 0 = some m) (hwf : m.WellFormed) (hdata : m.DataOnly)
    (hbuffer : node.delayedOperationsBuffer = [])
    (hdel : KeyOperation.DeletedAlone config.calculateHash m (loggedEdits operations)) :
    ∃ lastAppliedTimestamp node' m',
      restoreOplogFromDisk config others env tryFixLocalOplogSegment uninitialized 0
        [.ofRecords operations] node = some ([lastAppliedTimestamp], node') ∧
      node'.delayedOperationsBuffer = [] ∧ node'.memDbStores 0 = some m' ∧ m'.WellFormed ∧
      m'.DataOnly ∧
      ∀ h, m'.register h = Register.run (m.register h)
        (KeyOperation.onHash config.calculateHash h (loggedEdits operations)) := by
  obtain ⟨lastAppliedTimestamp, node', m', happly, hrest⟩ := applyOplog_records config others
    false 0 (localIterator_yields env tryFixLocalOplogSegment uninitialized 0 operations)
    (by decide : 1 < 2) hoperations hlength hm hwf hdata hbuffer hdel
  refine ⟨lastAppliedTimestamp, node', m', ?_, hrest⟩
  have hfuel : (ofRecords operations).index.length + 2 = 2 := rfl
  rw [restoreOplogFromDisk, hfuel, happly]
  rfl

end log

end MemDb
