import MemDb.Lib.Loop
import MemDb.Persistence.Compaction
import MemDb.Persistence.OperationLogSerializer
import MemDb.Operators.SyncOplog

/-! # The operation log on disk

    The files of one `SingleOperationLog`: an intermediate file that operations are appended to, and
    the segments that it is moved to when it has grown beyond a bound, with their index. The index
    file holds descriptors of 40 bytes each and is a list of them here.

    What is on disk is read through an `OplogIterator`: all of it at a restart, and for another node
    that synchronises all from a timestamp on, which is looked up among the descriptors by
    bisection. Of the intermediate file the whole is read in both cases.
-/

namespace MemDb

/-! ### Files -/

/-- What the log takes from its surroundings: zlib, the checksum, the number of threads of the
    machine, what stands behind the keys in memory, an order that `std::sort` may leave, and
    `PERSISTENCE_SEGMENT_SIZE_MB`. -/
structure LogEnvironment where
  compressor : Compressor
  crc : List UInt8 → UInt32
  hardwareConcurrency : Nat
  behind : OperationBody → List UInt8
  sortByTimestamp : List OperationBody → List OperationBody
  sort_perm : ∀ operations, (sortByTimestamp operations).Perm operations
  sort_sorted : ∀ operations, (sortByTimestamp operations).Pairwise fun a b =>
    a.timestamp ≤ b.timestamp
  persistenceSegmentSizeMb : UInt64

/-- The size beyond which the intermediate file becomes a segment. -/
def LogEnvironment.segmentSize (env : LogEnvironment) : UInt64 :=
  env.persistenceSegmentSizeMb * 1024 * 1024

namespace OplogIndexSegment

/-- What `write` puts into the files for the operations that it has kept. -/
structure NewSegment where
  operations : List OperationBody
  compressed : List UInt8
  descriptor : OplogIndexSegmentDescriptor
deriving DecidableEq

/-- `OplogIndexSegmentWriter::write` up to the files, for a data file of the given size. -/
def prepare (env : LogEnvironment) (dataSize : Nat) (toWrite : List UInt8) : Option NewSegment := do
  let operations ← OperationLogDeserializer.deserializeAll toWrite
  let compacted ← OperationLogCompacter.compact env.behind
    env.hardwareConcurrency operations
  -- the compacter does not keep the order of the operations
  let compacted := env.sortByTimestamp compacted
  let compactedSerialized ← OperationLogSerializer.serializeAll compacted
  let compactedCompressedSerialized ← env.compressor.compressBytes compactedSerialized
  let first ← compacted.head?
  let last ← compacted.getLast?
  return {
    operations := compacted
    compressed := compactedCompressedSerialized
    descriptor := {
      min := first.timestamp
      max := last.timestamp
      ptr := UInt64.ofNat dataSize
      crc := env.crc compactedCompressedSerialized
      size := UInt32.ofNat compactedCompressedSerialized.length
      uncompressedSize := UInt32.ofNat compactedSerialized.length
      flags := 0x00 } }

end OplogIndexSegment

structure SingleOperationLog where
  intermediate : List UInt8
  bytesWritten : UInt64
  index : List OplogIndexSegmentDescriptor
  data : List UInt8

/-- The variables of `binarySearchByTimestamp`: offsets in the index file, or positions of
    descriptors. -/
structure SearchState where
  low : Nat
  high : Nat
  actual : Nat
deriving DecidableEq

namespace SearchState

/-- Where a range is probed. -/
def middle (low high : Nat) : Nat :=
  low + if high - low = 1 then 0
    else if (high - low) % 2 = 0 then (high - low) / 2 else (high - low) / 2 + 1

/-- The variables in front of the loop. -/
def start (nDescriptors : Nat) : SearchState :=
  ⟨0, nDescriptors, (if nDescriptors % 2 = 0 then nDescriptors / 2 else nDescriptors / 2 + 1) - 1⟩

end SearchState

namespace SingleOperationLog

/-- A log whose files have just been created. -/
def empty : SingleOperationLog := ⟨[], 0, [], []⟩

section write
variable (env : LogEnvironment)

/-- `OplogIndexSegmentWriter::write`; `none` where it throws, for instance when nothing is left of
    the operations. -/
def write (toWrite : List UInt8) (log : SingleOperationLog) : Option SingleOperationLog :=
  (OplogIndexSegment.prepare env log.data.length toWrite).map fun new =>
    { log with
      index := log.index ++ [new.descriptor]
      data := log.data ++ new.compressed }

/-- `IntermediateOplog::addAll`. -/
def addAll (operations : List OperationBody) (log : SingleOperationLog) :
    Option SingleOperationLog := do
  let serialized ← OperationLogSerializer.serializeAll operations
  let log := { log with
    intermediate := log.intermediate ++ serialized
    bytesWritten := log.bytesWritten + UInt64.ofNat serialized.length }
  if env.segmentSize < log.bytesWritten then
    (write env log.intermediate { log with bytesWritten := 0 }).map fun log =>
      { log with intermediate := [] }
  else some log

/-- `OplogIndexSegmentReader::readBytesDataByDescriptor`; a file that ends too early is read as
    zeros. -/
def readBytesDataByDescriptor (log : SingleOperationLog)
    (descriptor : OplogIndexSegmentDescriptor) : Option (List UInt8) :=
  let bytes := (log.data.drop descriptor.ptr.toNat).take descriptor.size.toNat
  let bytes := bytes ++ List.replicate (descriptor.size.toNat - bytes.length) 0
  if env.crc bytes = descriptor.crc then some bytes else none

end write

/-! ### Reading -/

/-- `readIndexAt`, for a position in descriptors. -/
def readIndexAt (log : SingleOperationLog) (position : Nat) : OplogIndexSegmentDescriptor :=
  log.index[position]?.getD ⟨0, 0, 0, 0, 0, 0, 0⟩

/-- A pass of the loop of `binarySearchByTimestamp`. -/
def searchStep (log : SingleOperationLog) (timestamp : UInt64) (state : SearchState) :
    SearchState ⊕ Nat :=
  let actualDesc := log.readIndexAt state.actual
  let isHigher := decide (actualDesc.min < timestamp) && decide (actualDesc.max < timestamp)
  let isLower := decide (timestamp < actualDesc.min) && decide (timestamp < actualDesc.max)
  if state.high ≠ state.low ∧ (isHigher || isLower) then
    let low := if isHigher then state.actual else state.low
    let high := if isHigher then state.high else state.actual
    .inl ⟨low, high, SearchState.middle low high⟩
  else .inr state.actual

/-- `binarySearchByTimestamp`: the position of a descriptor, if there is anything to search for.
    Behind the first pass, one that does not narrow the range leaves everything as it is and is
    repeated for ever; two passes more than there are descriptors are enough. -/
def binarySearchByTimestamp (timestamp : UInt64) (log : SingleOperationLog) : Option (Option Nat) :=
  let nDescriptors := log.index.length
  if nDescriptors = 0 ∨ timestamp = 0 then some none
  else (Lib.Loop.run (log.searchStep timestamp) (nDescriptors + 2) (.start nDescriptors)).map some

/-- `getAfterTimestamp`, up to the iterator. -/
def getAfterTimestamp (uninitialized : UInt32) (log : SingleOperationLog) (after : UInt64) :
    Option OplogSearchResult :=
  (log.binarySearchByTimestamp after).map fun found =>
    { descriptors := log.index.drop (found.getD 0)
      descriptorInitPtr := UInt64.ofNat (found.getD 0 * 40)
      intermediate := log.intermediate
      uninitialized := uninitialized }

/-- `getAll`. -/
def getAll (uninitialized operationLogId : UInt32) (compressed : Bool) (log : SingleOperationLog) :
    OplogIterator :=
  .new log.index 0 log.intermediate false compressed operationLogId uninitialized

/-! ### Logs without segments -/

section flush
variable (env : LogEnvironment)

open OperationLogSerializer List Option UInt64

/-- What the flusher does with the operations that it takes from the queue, batch by batch. -/
def flush (batches : List (List OperationBody)) (log : SingleOperationLog) :
    Option SingleOperationLog :=
  batches.foldlM (fun log operations => log.addAll env operations) log

/-- A log that nothing but the intermediate file has grown of. -/
def ofRecords (operations : List OperationBody) : SingleOperationLog :=
  ⟨operations.flatMap recordBytes, UInt64.ofNat (operations.flatMap recordBytes).length, [], []⟩

theorem addAll_ofRecords {written operations : List OperationBody}
    (hargs : ∀ operation ∈ operations, ∀ arg ∈ operation.args.getD [], arg.length < 256)
    (hsize : ((written ++ operations).flatMap recordBytes).length ≤ env.segmentSize.toNat) :
    (ofRecords written).addAll env operations = some (ofRecords (written ++ operations)) := by
  have hlength : (written.flatMap recordBytes).length + (operations.flatMap recordBytes).length =
      ((written ++ operations).flatMap recordBytes).length := by
    rw [flatMap_append, length_append]
  have hwritten : UInt64.ofNat (written.flatMap recordBytes).length +
      UInt64.ofNat (operations.flatMap recordBytes).length =
        UInt64.ofNat ((written ++ operations).flatMap recordBytes).length := by
    rw [← ofNat_add, hlength]
  have hbound : ¬ env.segmentSize <
      UInt64.ofNat ((written ++ operations).flatMap recordBytes).length := by
    rw [lt_iff_toNat_lt, toNat_ofNat_of_lt'
      (Nat.lt_of_le_of_lt hsize env.segmentSize.toNat_lt)]
    exact Nat.not_lt.mpr hsize
  unfold addAll ofRecords
  rw [serializeAll_of_lt hargs, bind_eq_bind, bind_some]
  simp only [hwritten, ← flatMap_append, if_neg hbound]

/-- Below the bound the flusher only appends. -/
theorem flush_eq {batches : List (List OperationBody)} (written : List OperationBody)
    (hargs : ∀ operation ∈ batches.flatten, ∀ arg ∈ operation.args.getD [], arg.length < 256)
    (hsize : ((written ++ batches.flatten).flatMap recordBytes).length ≤
      env.segmentSize.toNat) :
    flush env batches (ofRecords written) = some (ofRecords (written ++ batches.flatten)) := by
  induction batches generalizing written with
  | nil => simp [flush]
  | cons operations batches ih =>
    simp only [flatten_cons, ← append_assoc] at hsize
    have hfirst : ((written ++ operations).flatMap recordBytes).length ≤
        env.segmentSize.toNat := by
      rw [flatMap_append, length_append] at hsize
      omega
    have hadd := addAll_ofRecords env
      (fun o ho => hargs o (mem_append_left _ ho)) hfirst
    have hrest := ih (written ++ operations) (fun o ho => hargs o (mem_append_right _ ho)) hsize
    unfold flush at hrest ⊢
    rw [foldlM_cons, hadd, bind_eq_bind, bind_some, hrest, flatten_cons,
      append_assoc]

/-- Without segments a search finds the intermediate file. -/
theorem getAfterTimestamp_ofRecords (uninitialized : UInt32) (operations : List OperationBody)
    (after : UInt64) :
    (ofRecords operations).getAfterTimestamp uninitialized after =
      some ⟨[], 0, operations.flatMap recordBytes, uninitialized⟩ := by
  simp [getAfterTimestamp, binarySearchByTimestamp, ofRecords]

end flush

end SingleOperationLog

/-! ### A small environment -/

def sortedByTimestamp (operations : List OperationBody) : List OperationBody :=
  operations.mergeSort fun a b => decide (a.timestamp ≤ b.timestamp)

theorem sortedByTimestamp_perm (operations : List OperationBody) :
    (sortedByTimestamp operations).Perm operations :=
  List.mergeSort_perm _ _

theorem sortedByTimestamp_sorted (operations : List OperationBody) :
    (sortedByTimestamp operations).Pairwise fun a b => a.timestamp ≤ b.timestamp := by
  have htrans : ∀ a b c : OperationBody, decide (a.timestamp ≤ b.timestamp) = true →
      decide (b.timestamp ≤ c.timestamp) = true → decide (a.timestamp ≤ c.timestamp) = true := by
    intro a b c hab hbc
    simp only [decide_eq_true_eq, UInt64.le_iff_toNat_le] at hab hbc ⊢
    omega
  have htotal : ∀ a b : OperationBody,
      (decide (a.timestamp ≤ b.timestamp) || decide (b.timestamp ≤ a.timestamp)) = true := by
    intro a b
    simp only [Bool.or_eq_true, decide_eq_true_eq, UInt64.le_iff_toNat_le]
    omega
  exact (List.pairwise_mergeSort htrans htotal operations).imp fun hle => of_decide_eq_true hle

theorem some_of_some (uncompressed compressed : List UInt8)
    (h : some uncompressed = some compressed) : some compressed = some uncompressed :=
  h.symm

/-- Segments of a megabyte that are stored as they are. -/
def plainEnvironment : LogEnvironment where
  compressor := ⟨some, fun compressed _ => some compressed, some_of_some⟩
  crc _ := 0
  hardwareConcurrency := 1
  behind := zeroBehind
  sortByTimestamp := sortedByTimestamp
  sort_perm := sortedByTimestamp_perm
  sort_sorted := sortedByTimestamp_sorted
  persistenceSegmentSizeMb := 1

end MemDb
