import MemDb.Utils.FileUtils
import MemDb.Persistence.SingleOperationLog

/-! # The segments of a log and their files

    `OplogIndexSegment` keeps the segments of a log in two files: their compressed operations one
    behind the other in the data file, and for each of them a descriptor of forty bytes in the index
    file. A segment is appended to both, and its descriptor points to where the data file ended.

    The files are modelled byte by byte. While a log only grows its files are those of a
    `SingleOperationLog` (`ofLog`), and what is read from them and appended to them is what the log
    says.
-/

namespace MemDb

open Lib List BigEndian Option UInt32 UInt64 Utils

/-! ### Descriptors in the index file -/

namespace OplogIndexSegmentDescriptorSerializer

def serialize (descriptor : OplogIndexSegmentDescriptor) : List UInt8 :=
  let bytes := appendToBuffer 8 descriptor.min.toNat []
  let bytes := appendToBuffer 8 descriptor.max.toNat bytes
  let bytes := appendToBuffer 8 descriptor.ptr.toNat bytes
  let bytes := appendToBuffer 4 descriptor.crc.toNat bytes
  let bytes := appendToBuffer 4 descriptor.size.toNat bytes
  let bytes := appendToBuffer 4 descriptor.uncompressedSize.toNat bytes
  appendToBuffer 4 descriptor.flags.toNat bytes

section
variable (descriptor : OplogIndexSegmentDescriptor)
include descriptor

theorem serialize_eq :
    serialize descriptor = encode 8 descriptor.min.toNat ++
      (encode 8 descriptor.max.toNat ++ (encode 8 descriptor.ptr.toNat ++
      (encode 4 descriptor.crc.toNat ++ (encode 4 descriptor.size.toNat ++
      (encode 4 descriptor.uncompressedSize.toNat ++
        encode 4 descriptor.flags.toNat))))) := by
  simp [serialize, appendToBuffer_eq]

@[simp] theorem length_serialize :
    (serialize descriptor).length = 40 := by
  simp [serialize_eq]

theorem serialize_ne_nil : serialize descriptor ≠ [] := by
  intro hnil
  have hlength := length_serialize descriptor
  rw [hnil] at hlength
  cases hlength

end

theorem length_flatMap_serialize (descriptors : List OplogIndexSegmentDescriptor) :
    (descriptors.flatMap serialize).length = 40 * descriptors.length := by
  induction descriptors with
  | nil => rfl
  | cons descriptor descriptors ih =>
    rw [flatMap_cons, length_append, length_serialize, ih, length_cons]
    omega

end OplogIndexSegmentDescriptorSerializer

namespace OplogIndexSegmentDescriptorDeserializer

open OplogIndexSegmentDescriptorSerializer

/-- `Utils::parse` of a field at an offset. -/
def parseAt (ptr : List UInt8) (offset sizeof : Nat) : Nat :=
  parse ((ptr.drop offset).take sizeof)

def deserializeFromPtr (ptr : List UInt8) : OplogIndexSegmentDescriptor where
  min := UInt64.ofNat (parseAt ptr 0 8)
  max := UInt64.ofNat (parseAt ptr 8 8)
  ptr := UInt64.ofNat (parseAt ptr 16 8)
  crc := UInt32.ofNat (parseAt ptr 24 4)
  size := UInt32.ofNat (parseAt ptr 28 4)
  uncompressedSize := UInt32.ofNat (parseAt ptr 32 4)
  flags := UInt32.ofNat (parseAt ptr 36 4)

def deserialize (bytes : List UInt8) : OplogIndexSegmentDescriptor := deserializeFromPtr bytes

def deserializeAll (bytes : List UInt8) : List OplogIndexSegmentDescriptor :=
  (List.range (bytes.length / 40)).map fun i => deserializeFromPtr (bytes.drop (i * 40))

/-- A field is read behind those in front of it. -/
theorem parseAt_skip (rest : List UInt8) (sizeof : Nat) {width offset : Nat} (value : Nat)
    (hoffset : width ≤ offset) :
    parseAt (encode width value ++ rest) offset sizeof =
      parseAt rest (offset - width) sizeof := by
  unfold parseAt
  rw [drop_append, drop_eq_nil_of_le (by rwa [length_encode]), nil_append,
    length_encode]

theorem parseAt_zero (rest : List UInt8) {sizeof value : Nat} (hvalue : value < 256 ^ sizeof) :
    parseAt (encode sizeof value ++ rest) 0 sizeof = value := by
  rw [parseAt, drop_zero, take_left' (length_encode sizeof value),
    parse_eq, decode_encode_of_lt hvalue]

theorem parseAt_u64 (rest : List UInt8) (value : UInt64) :
    parseAt (encode 8 value.toNat ++ rest) 0 8 = value.toNat :=
  parseAt_zero rest value.toNat_lt

theorem parseAt_u32 (rest : List UInt8) (value : UInt32) :
    parseAt (encode 4 value.toNat ++ rest) 0 4 = value.toNat :=
  parseAt_zero rest value.toNat_lt

/-- Every field of a descriptor is read back. -/
theorem deserializeFromPtr_serialize (descriptor : OplogIndexSegmentDescriptor)
    (rest : List UInt8) : deserializeFromPtr (serialize descriptor ++ rest) = descriptor := by
  simp (disch := decide) only [deserializeFromPtr, serialize_eq, append_assoc, parseAt_skip,
    parseAt_u64, parseAt_u32, Nat.reduceSub, Nat.sub_self, UInt64.ofNat_toNat, UInt32.ofNat_toNat]

theorem deserialize_serialize (descriptor : OplogIndexSegmentDescriptor) :
    deserialize (serialize descriptor) = descriptor := by
  have h := deserializeFromPtr_serialize descriptor []
  rwa [append_nil] at h

section
variable (descriptors : List OplogIndexSegmentDescriptor)
include descriptors

/-- The bytes of a list of descriptors from one of them on. -/
theorem drop_flatMap_serialize (i : Nat) :
    (descriptors.flatMap serialize).drop (40 * i) = (descriptors.drop i).flatMap serialize := by
  induction i generalizing descriptors with
  | zero => rfl
  | succ i ih =>
    cases descriptors with
    | nil => simp
    | cons descriptor descriptors =>
      have hsplit : 40 * (i + 1) = (serialize descriptor).length + 40 * i := by
        rw [length_serialize]
        omega
      rw [flatMap_cons, hsplit, drop_length_add_append, ih, drop_succ_cons]

theorem take_flatMap_serialize (count : Nat) :
    (descriptors.flatMap serialize).take (40 * count) =
      (descriptors.take count).flatMap serialize := by
  induction count generalizing descriptors with
  | zero => rfl
  | succ count ih =>
    cases descriptors with
    | nil => simp
    | cons descriptor descriptors =>
      have hsplit : 40 * (count + 1) = (serialize descriptor).length + 40 * count := by
        rw [length_serialize]
        omega
      rw [flatMap_cons, hsplit, take_length_add_append, ih, take_succ_cons,
        flatMap_cons]

theorem deserializeAll_flatMap :
    deserializeAll (descriptors.flatMap serialize) = descriptors := by
  unfold deserializeAll
  rw [length_flatMap_serialize, Nat.mul_div_cancel_left _ (by decide)]
  apply ext_getElem
  · simp
  · intro i hi hi'
    rw [getElem_map, getElem_range, Nat.mul_comm, drop_flatMap_serialize,
      drop_eq_getElem_cons hi', flatMap_cons, deserializeFromPtr_serialize]

end

end OplogIndexSegmentDescriptorDeserializer

/-! ### Reading -/

/-- The two files. -/
structure OplogIndexSegment where
  index : File
  data : File
deriving DecidableEq

structure OplogSegmentBinarySearchResult where
  found : Bool
  ptr : Nat
deriving DecidableEq

structure OplogSegmentAfterTimestampsSearchResult where
  descriptors : List OplogIndexSegmentDescriptor
  descriptorInitPtr : Nat
deriving DecidableEq

structure OplogSegmentBetweenTimestampsSearchResult where
  resultsInDescriptorsAndIntermediate : Bool
  resultsOnlyInIntermediate : Bool
  resultsOnlyInSegments : Bool
  descriptorInitPtr : Nat
  descriptors : List OplogIndexSegmentDescriptor
deriving DecidableEq

namespace OplogIndexSegment

open OplogIndexSegmentDescriptorSerializer OplogIndexSegmentDescriptorDeserializer

/-- `initializeFiles`. -/
def initializeFiles (segment : OplogIndexSegment) : OplogIndexSegment :=
  ⟨FileUtils.createIfMissing segment.index, FileUtils.createIfMissing segment.data⟩

/-- The segments of a new log. -/
def created : OplogIndexSegment := initializeFiles ⟨none, none⟩

section read
variable (segment : OplogIndexSegment)

def readIndexAt (ptr : Nat) : OplogIndexSegmentDescriptor :=
  deserialize (FileUtils.readInto ptr 40 segment.index)

/-- `none` where `seekBytes` throws, here and below. -/
def readAllIndexBetween (fromPtr toPtr : Nat) : Option (List OplogIndexSegmentDescriptor) :=
  if fromPtr = toPtr then (FileUtils.seekBytes fromPtr 40 segment.index).map deserializeAll
  else if toPtr < fromPtr ∨ toPtr - fromPtr < 40 then some []
  else
    let totalToRead := toPtr + 40 - fromPtr
    (FileUtils.seekBytes fromPtr totalToRead segment.index).map deserializeAll

def readAllIndexFrom (ptr : Nat) : Option (List OplogIndexSegmentDescriptor) :=
  let totalToRead := FileUtils.size segment.index - ptr
  (FileUtils.seekBytes ptr totalToRead segment.index).map deserializeAll

def readAllIndex : List OplogIndexSegmentDescriptor :=
  deserializeAll (FileUtils.readBytes segment.index)

/-- `none` where the checksum does not match. -/
def readBytesDataByDescriptor (crc : List UInt8 → UInt32)
    (descriptor : OplogIndexSegmentDescriptor) : Option (List UInt8) :=
  let bytes := FileUtils.readInto descriptor.ptr.toNat descriptor.size.toNat segment.data
  if crc bytes = descriptor.crc then some bytes else none

/-! ### Searching -/

/-- The variables in front of the loop; where there is no whole descriptor the subtraction wraps. -/
def searchStart : SearchState :=
  let indexFileSize := FileUtils.size segment.index
  let nDescriptors := indexFileSize / 40
  let nDescriptorHalf := if nDescriptors % 2 = 0 then nDescriptors / 2 else nDescriptors / 2 + 1
  ⟨0, indexFileSize, if nDescriptorHalf = 0 then 2 ^ 64 - 40 else nDescriptorHalf * 40 - 40⟩

/-- A pass of the loop of `binarySearchByTimestamp`. -/
def searchStep (timestamp : UInt64) (state : SearchState) : SearchState ⊕ Nat :=
  let actualDesc := segment.readIndexAt state.actual
  let isHigher := decide (actualDesc.min < timestamp) && decide (actualDesc.max < timestamp)
  let isLower := decide (timestamp < actualDesc.min) && decide (timestamp < actualDesc.max)
  if state.high ≠ state.low ∧ (isHigher || isLower) then
    let low := if isHigher then state.actual else state.low
    let high := if isHigher then state.high else state.actual
    let nDescriptors := (high - low) / 40
    let nDescriptorHalf := low / 40 + if nDescriptors = 1 then 0
      else if nDescriptors % 2 = 0 then nDescriptors / 2 else nDescriptors / 2 + 1
    .inl ⟨low, high, nDescriptorHalf * 40⟩
  else .inr state.actual

/-- `binarySearchByTimestamp`; `none` while the loop still runs after `fuel` passes. -/
def binarySearchByTimestamp (timestamp : UInt64) (fuel : Nat) :
    Option OplogSegmentBinarySearchResult :=
  if FileUtils.size segment.index = 0 ∨ timestamp = 0 then some ⟨false, 0⟩
  else (Loop.run (segment.searchStep timestamp) fuel segment.searchStart).map fun actual =>
    ⟨true, actual⟩

/-- `getByAfterTimestamp`; `none` while the search runs, `some none` where it throws. -/
def getByAfterTimestamp (timestamp : UInt64) (fuel : Nat) :
    Option (Option OplogSegmentAfterTimestampsSearchResult) :=
  (segment.binarySearchByTimestamp timestamp fuel).map fun searchResult =>
    let ptrToRead := if searchResult.found then searchResult.ptr else 0
    (segment.readAllIndexFrom ptrToRead).map fun descriptors => ⟨descriptors, ptrToRead⟩

/-- `getBetweenTimestamps` behind the two searches; `none` where it throws. -/
def betweenSearchResults (fromResult toResult : OplogSegmentBinarySearchResult) :
    Option OplogSegmentBetweenTimestampsSearchResult :=
  if !fromResult.found && !toResult.found then some ⟨false, true, false, 0, []⟩
  else if fromResult.found && !toResult.found then
    (segment.readAllIndexFrom fromResult.ptr).map fun descriptors =>
      ⟨true, false, false, fromResult.ptr, descriptors⟩
  else if toResult.found && fromResult.found then
    (segment.readAllIndexBetween fromResult.ptr toResult.ptr).map fun descriptors =>
      ⟨false, false, true, fromResult.ptr, descriptors⟩
  -- only the search for the upper bound has found a segment
  else none

/-- `getBetweenTimestamps`; `none` while one of the searches runs, `some none` where it throws. -/
def getBetweenTimestamps (fromTimestamp toTimestamp : UInt64) (fuel : Nat) :
    Option (Option OplogSegmentBetweenTimestampsSearchResult) := do
  let fromResult ← segment.binarySearchByTimestamp fromTimestamp fuel
  let toResult ← segment.binarySearchByTimestamp toTimestamp fuel
  return segment.betweenSearchResults fromResult toResult

end read

/-! ### Writing -/

section write
variable (env : LogEnvironment)

/-- The segment at the end of both files. -/
def append (new : NewSegment) (segment : OplogIndexSegment) : OplogIndexSegment where
  data := FileUtils.appendBytes new.compressed segment.data
  index := FileUtils.appendBytes (serialize new.descriptor) segment.index

/-- `save`; `none` where `OplogIndexSegmentWriter::write` throws. -/
def save (toSave : List UInt8) (segment : OplogIndexSegment) : Option OplogIndexSegment :=
  (prepare env (FileUtils.size segment.data) toSave).map fun new => segment.append new

def updateCorruptedSegment (uncorruptedBytes : List UInt8) (uncompressedSize : UInt32)
    (indexSegmentDescriptorPtr : Nat) (segment : OplogIndexSegment) : OplogIndexSegment :=
  let corruptedDescriptor := segment.readIndexAt indexSegmentDescriptorPtr
  let corruptedDescriptor := { corruptedDescriptor with
    uncompressedSize := uncompressedSize
    size := UInt32.ofNat uncorruptedBytes.length
    crc := env.crc uncorruptedBytes
    ptr := UInt64.ofNat (FileUtils.size segment.data) }
  -- the corrupted bytes stay in the file
  { data := FileUtils.appendBytes uncorruptedBytes segment.data
    index := FileUtils.writeBytes indexSegmentDescriptorPtr (serialize corruptedDescriptor)
      segment.index }

def clearAll (segment : OplogIndexSegment) : OplogIndexSegment :=
  ⟨FileUtils.clear segment.index, FileUtils.clear segment.data⟩

end write

/-! ### Files that have only grown -/

/-- The files of a log. -/
def ofLog (log : SingleOperationLog) : OplogIndexSegment :=
  ⟨some (log.index.flatMap serialize), some log.data⟩

theorem created_eq : created = ofLog .empty := rfl

section ofLog
variable (log : SingleOperationLog)

@[simp] theorem size_index_ofLog :
    FileUtils.size (ofLog log).index = 40 * log.index.length := by
  rw [ofLog, FileUtils.size_some, length_flatMap_serialize]

/-- The bytes of some of the descriptors. -/
theorem readInto_ofLog {position count : Nat} (h : position + count ≤ log.index.length) :
    FileUtils.readInto (40 * position) (40 * count) (ofLog log).index =
      ((log.index.drop position).take count).flatMap serialize := by
  have hlength := length_flatMap_serialize log.index
  rw [ofLog, FileUtils.readInto_of_le (by omega), drop_flatMap_serialize, take_flatMap_serialize]

/-- At the offset of a descriptor the descriptor is read, and zeros behind the last one. -/
theorem readIndexAt_ofLog (position : Nat) :
    (ofLog log).readIndexAt (40 * position) = log.readIndexAt position := by
  unfold readIndexAt SingleOperationLog.readIndexAt
  by_cases hposition : position < log.index.length
  · have hread := readInto_ofLog log (by omega : position + 1 ≤ log.index.length)
    rw [Nat.mul_one] at hread
    rw [hread, drop_eq_getElem_cons hposition, take_succ_cons, take_zero,
      flatMap_singleton, deserialize_serialize, List.getElem?_eq_getElem hposition,
      getD_some]
  · -- nothing is read into the buffer, and the zeros in it are a descriptor
    rw [FileUtils.readInto_of_ge, List.getElem?_eq_none (Nat.le_of_not_lt hposition)]
    · decide
    · rw [ofLog, getD_some, length_flatMap_serialize]
      omega

theorem readAllIndex_ofLog : (ofLog log).readAllIndex = log.index := by
  rw [readAllIndex, FileUtils.readBytes, ofLog, getD_some, deserializeAll_flatMap]

theorem readAllIndexFrom_ofLog (hsize : 40 * log.index.length < 2 ^ 63) {position : Nat}
    (hposition : position ≤ log.index.length) :
    (ofLog log).readAllIndexFrom (40 * position) = some (log.index.drop position) := by
  have htotal : 40 * log.index.length - 40 * position = 40 * (log.index.length - position) := by
    omega
  have hall : (log.index.drop position).length ≤ log.index.length - position := by simp
  unfold readAllIndexFrom FileUtils.seekBytes
  dsimp only
  rw [size_index_ofLog, htotal, if_pos (by omega), readInto_ofLog log (by omega), map_some,
    deserializeAll_flatMap, take_of_length_le hall]

/-- Of the descriptors from one to another both are read. -/
theorem readAllIndexBetween_ofLog (hsize : 40 * log.index.length < 2 ^ 63)
    {fromPosition toPosition : Nat} (hle : fromPosition ≤ toPosition)
    (hto : toPosition < log.index.length) :
    (ofLog log).readAllIndexBetween (40 * fromPosition) (40 * toPosition) =
      some ((log.index.drop fromPosition).take (toPosition + 1 - fromPosition)) := by
  have hread := readInto_ofLog log
    (by omega : fromPosition + (toPosition + 1 - fromPosition) ≤ log.index.length)
  unfold readAllIndexBetween FileUtils.seekBytes
  by_cases heq : fromPosition = toPosition
  · rw [heq, Nat.add_sub_cancel_left, Nat.mul_one] at hread
    rw [if_pos (by rw [heq]), if_pos (by decide), heq, hread, map_some, deserializeAll_flatMap,
      Nat.add_sub_cancel_left]
  · have htotal : 40 * toPosition + 40 - 40 * fromPosition =
        40 * (toPosition + 1 - fromPosition) := by
      omega
    dsimp only
    rw [if_neg (by omega), if_neg (by omega), htotal, if_pos (by omega), hread, map_some,
      deserializeAll_flatMap]

/-- What `write` does to a log, in the terms of the files. -/
theorem write_eq_prepare (env : LogEnvironment) (toWrite : List UInt8) :
    log.write env toWrite = (prepare env log.data.length toWrite).map fun new =>
      { log with index := log.index ++ [new.descriptor], data := log.data ++ new.compressed } := by
  simp only [SingleOperationLog.write, prepare, bind_eq_bind, map_bind,
    Function.comp_def, Option.pure_def, Option.map_some]

/-- Saving to the files is writing to the log. -/
theorem save_ofLog (env : LogEnvironment) (toSave : List UInt8) :
    (ofLog log).save env toSave = (log.write env toSave).map ofLog := by
  have hsize : FileUtils.size (ofLog log).data = log.data.length := rfl
  rw [save, write_eq_prepare, hsize]
  cases prepare env log.data.length toSave with
  | none => rfl
  | some new => simp [append, ofLog, FileUtils.appendBytes_eq]

end ofLog

end OplogIndexSegment

end MemDb
