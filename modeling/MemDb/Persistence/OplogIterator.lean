import MemDb.Utils

/-! # Reading the operation log block by block

    `OplogIterator` hands out the blocks of a log on disk: first the intermediate file, then the
    segments its descriptors point to. Segments are stored compressed. An iterator that is asked for
    compressed blocks compresses the intermediate file, otherwise it uncompresses the segments. A
    segment whose checksum does not match is an error of the block; `none` of a function is an
    exception.

    Before the intermediate file has been read, `hasNext` looks at nothing else: with an empty
    intermediate file the segments are not reached.
-/

namespace MemDb

open List UInt32

/-- `Compressor`: zlib gives back what it has compressed, when it is told the size. -/
structure Compressor where
  compressBytes : List UInt8 → Option (List UInt8)
  uncompressBytes : List UInt8 → (originalSize : Nat) → Option (List UInt8)
  uncompress_compress : ∀ uncompressed compressed, compressBytes uncompressed = some compressed →
    uncompressBytes compressed uncompressed.length = some uncompressed

structure OplogIndexSegmentDescriptor where
  min : UInt64
  max : UInt64
  ptr : UInt64
  crc : UInt32
  size : UInt32
  uncompressedSize : UInt32
  flags : UInt32
deriving DecidableEq, Repr

structure OplogIterator where
  descriptors : List OplogIndexSegmentDescriptor
  segmentOplogDescriptorInitDiskPtr : UInt64
  intermediate : List UInt8
  oplogId : UInt32
  compressed : Bool
  lastTimestampOfLastNext : UInt32
  actualIndexDescriptor : UInt32
  intermediateIterated : Bool
deriving DecidableEq, Repr

namespace OplogIterator

/-- The constructor leaves `lastTimestampOfLastNext` as it finds it in memory. -/
def new (descriptors : List OplogIndexSegmentDescriptor)
    (segmentOplogDescriptorInitDiskPtr : UInt64)
    (intermediate : List UInt8) (iterateOnlyDescriptors compressed : Bool) (oplogId : UInt32)
    (uninitialized : UInt32) : OplogIterator where
  descriptors := descriptors
  segmentOplogDescriptorInitDiskPtr := segmentOplogDescriptorInitDiskPtr
  intermediate := intermediate
  oplogId := oplogId
  compressed := compressed
  lastTimestampOfLastNext := uninitialized
  actualIndexDescriptor := 0
  intermediateIterated := iterateOnlyDescriptors

def hasNext (iterator : OplogIterator) : Bool :=
  (iterator.intermediateIterated &&
    decide (iterator.actualIndexDescriptor.toNat < iterator.descriptors.length)) ||
  (!iterator.intermediateIterated && decide (iterator.intermediate.length > 0))

def totalSize (iterator : OplogIterator) : Nat :=
  iterator.descriptors.length + if iterator.intermediate.isEmpty then 0 else 1

section next
variable (compressor : Compressor)
  (descriptorDataFetcher : OplogIndexSegmentDescriptor → Option (List UInt8))

/-- The bytes of a segment in the form that the iterator hands out; `some none` is an error of the
    fetcher. -/
def segmentBytes (compressed : Bool) (descriptor : OplogIndexSegmentDescriptor) :
    Option (Option (List UInt8)) :=
  match descriptorDataFetcher descriptor with
  | none => some none
  | some bytes =>
    if compressed then some (some bytes)
    else (compressor.uncompressBytes bytes descriptor.uncompressedSize.toNat).map some

def next (iterator : OplogIterator) : Option (OplogIterator × Option (List UInt8)) :=
  if !iterator.intermediateIterated then
    (if iterator.compressed then compressor.compressBytes iterator.intermediate
      else some iterator.intermediate).map fun bytes =>
        ({ iterator with intermediateIterated := true }, some bytes)
  else
    iterator.descriptors[iterator.actualIndexDescriptor.toNat]?.bind fun actualDescriptor =>
      (segmentBytes compressor descriptorDataFetcher iterator.compressed actualDescriptor).map
        fun result =>
          ({ iterator with
              actualIndexDescriptor := iterator.actualIndexDescriptor + 1
              lastTimestampOfLastNext := actualDescriptor.max.toUInt32 }, result)

end next

def getLastUncompressedSize (iterator : OplogIterator) : Option UInt32 :=
  if iterator.actualIndexDescriptor = 0 then some (UInt32.ofNat iterator.intermediate.length)
  else iterator.descriptors[(iterator.actualIndexDescriptor - 1).toNat]?.map (·.uncompressedSize)

def getLastDescriptor (iterator : OplogIterator) : Option OplogIndexSegmentDescriptor :=
  iterator.descriptors[(iterator.actualIndexDescriptor - 1).toNat]?

end OplogIterator

/-! ### The blocks of a log -/

/-- A part of the log that is read at once. -/
inductive OplogBlock where
  | intermediate (bytes : List UInt8)
  | segment (descriptor : OplogIndexSegmentDescriptor)
deriving DecidableEq

section blocks
variable (compressor : Compressor)
  (descriptorDataFetcher : OplogIndexSegmentDescriptor → Option (List UInt8))

/-- The operations of a block, as bytes. -/
def OplogBlock.content : OplogBlock → Option (List UInt8)
  | .intermediate bytes => some bytes
  | .segment descriptor => (descriptorDataFetcher descriptor).bind fun bytes =>
    compressor.uncompressBytes bytes descriptor.uncompressedSize.toNat

/-- Neither the checksum nor zlib fails on the block, and its size is a 32-bit number. -/
def OplogBlock.Readable : OplogBlock → Prop
  | .intermediate bytes => bytes.length < 2 ^ 32 ∧ (compressor.compressBytes bytes).isSome
  | .segment descriptor =>
    (content compressor descriptorDataFetcher (.segment descriptor)).isSome

variable {compressor descriptorDataFetcher} in
theorem OplogBlock.Readable.content {block : OplogBlock}
    (h : block.Readable compressor descriptorDataFetcher) :
    ∃ bytes, block.content compressor descriptorDataFetcher = some bytes := by
  cases block with
  | intermediate bytes => exact ⟨bytes, rfl⟩
  | segment descriptor => exact Option.isSome_iff_exists.mp h

end blocks

namespace OplogIterator

/-- All that an iterator has to read. -/
def blocks (iterator : OplogIterator) : List OplogBlock :=
  (if iterator.intermediate = [] then [] else [.intermediate iterator.intermediate]) ++
    iterator.descriptors.map .segment

/-- What `hasNext` and `next` still reach. -/
def remaining (iterator : OplogIterator) : List OplogBlock :=
  let segments := (iterator.descriptors.drop iterator.actualIndexDescriptor.toNat).map .segment
  if iterator.intermediateIterated then segments
  else if iterator.intermediate = [] then []
  else .intermediate iterator.intermediate :: segments

/-- The index fits its type, and stays at the start until the intermediate file is read. -/
structure Valid (iterator : OplogIterator) : Prop where
  small : iterator.descriptors.length < 2 ^ 32
  start : iterator.intermediateIterated = false → iterator.actualIndexDescriptor = 0

variable {iterator : OplogIterator}

/-- The index does not wrap in front of the last segment. -/
theorem Valid.toNat_succ (hvalid : iterator.Valid)
    (hlt : iterator.actualIndexDescriptor.toNat < iterator.descriptors.length) :
    (iterator.actualIndexDescriptor + 1).toNat = iterator.actualIndexDescriptor.toNat + 1 := by
  have hsmall := hvalid.small
  rw [UInt32.toNat_add]
  exact Nat.mod_eq_of_lt (by simp only [toNat_one]; omega)

theorem length_blocks (iterator : OplogIterator) :
    iterator.blocks.length = iterator.totalSize := by
  unfold blocks totalSize
  by_cases hempty : iterator.intermediate = []
  · simp [hempty]
  · simp [hempty]

theorem hasNext_eq (iterator : OplogIterator) :
    iterator.hasNext = !iterator.remaining.isEmpty := by
  unfold hasNext remaining
  cases hiterated : iterator.intermediateIterated with
  | true =>
    rw [Bool.eq_iff_iff]
    simp
  | false =>
    by_cases hempty : iterator.intermediate = []
    · simp [hempty]
    · simp [hempty, length_pos_iff]

/-- A new iterator reaches everything unless there are segments behind an empty intermediate
    file. -/
theorem remaining_eq_blocks (hiterated : iterator.intermediateIterated = false)
    (hstart : iterator.actualIndexDescriptor = 0)
    (hempty : iterator.intermediate ≠ [] ∨ iterator.descriptors = []) :
    iterator.remaining = iterator.blocks := by
  unfold remaining blocks
  by_cases hintermediate : iterator.intermediate = []
  · have hdescriptors : iterator.descriptors = [] :=
      hempty.resolve_left (not_not_intro hintermediate)
    simp [hiterated, hintermediate, hdescriptors]
  · simp [hiterated, hintermediate, hstart]

/-- The first block that remains is the intermediate file, or the segment at the index. -/
theorem remaining_eq_cons (hvalid : iterator.Valid) {block : OplogBlock} {rest : List OplogBlock}
    (h : iterator.remaining = block :: rest) :
    (iterator.intermediateIterated = false ∧ block = .intermediate iterator.intermediate ∧
      rest = iterator.descriptors.map .segment) ∨
    (iterator.intermediateIterated = true ∧
      ∃ hlt : iterator.actualIndexDescriptor.toNat < iterator.descriptors.length,
        block = .segment iterator.descriptors[iterator.actualIndexDescriptor.toNat] ∧
        rest = (iterator.descriptors.drop (iterator.actualIndexDescriptor.toNat + 1)).map
          .segment) := by
  unfold remaining at h
  cases hiterated : iterator.intermediateIterated with
  | false =>
    have hempty : iterator.intermediate ≠ [] := by
      intro hempty
      simp [hiterated, hempty] at h
    simp only [hiterated, Bool.false_eq_true, if_false, hempty, hvalid.start hiterated,
      UInt32.toNat_zero, drop_zero, cons.injEq] at h
    exact .inl ⟨rfl, h.1.symm, h.2.symm⟩
  | true =>
    simp only [hiterated, if_true] at h
    have hlt : iterator.actualIndexDescriptor.toNat < iterator.descriptors.length := by
      by_contra hge
      rw [drop_eq_nil_of_le (Nat.le_of_not_lt hge)] at h
      cases h
    rw [drop_eq_getElem_cons hlt, map_cons, cons.injEq] at h
    exact .inr ⟨rfl, hlt, h.1.symm, h.2.symm⟩

section next
variable {compressor : Compressor}
  {descriptorDataFetcher : OplogIndexSegmentDescriptor → Option (List UInt8)}

/-- A step of an iterator past a block: its bytes, with the size that the iterator then reports, are
    the content of the block compressed. -/
structure HandsOut (compressor : Compressor)
    (descriptorDataFetcher : OplogIndexSegmentDescriptor → Option (List UInt8))
    (block : OplogBlock) (rest : List OplogBlock) (after : OplogIterator) (bytes : List UInt8)
    (size : UInt32) : Prop where
  valid : after.Valid
  compressed : after.compressed = true
  remaining : after.remaining = rest
  sizeReported : after.getLastUncompressedSize = some size
  content : compressor.uncompressBytes bytes size.toNat =
    block.content compressor descriptorDataFetcher

section
variable (hvalid : iterator.Valid) (hcompressed : iterator.compressed = true)
include hvalid hcompressed

theorem next_intermediate (hiterated : iterator.intermediateIterated = false)
    (hreadable : (OplogBlock.intermediate iterator.intermediate).Readable compressor
      descriptorDataFetcher) :
    ∃ after bytes size, iterator.next compressor descriptorDataFetcher = some (after, some bytes) ∧
      HandsOut compressor descriptorDataFetcher (.intermediate iterator.intermediate)
        (iterator.descriptors.map .segment) after bytes size := by
  obtain ⟨hsize, hsome⟩ := hreadable
  obtain ⟨bytes, hbytes⟩ := Option.isSome_iff_exists.mp hsome
  have hstart := hvalid.start hiterated
  have hlength : (UInt32.ofNat iterator.intermediate.length).toNat =
      iterator.intermediate.length := toNat_ofNat_of_lt' hsize
  refine ⟨{ iterator with intermediateIterated := true }, bytes,
    UInt32.ofNat iterator.intermediate.length, ?_, ?_⟩
  · simp [next, hiterated, hcompressed, hbytes]
  · constructor
    · exact ⟨hvalid.small, fun hfalse => Bool.noConfusion hfalse⟩
    · exact hcompressed
    · simp [OplogIterator.remaining, hstart]
    · simp [getLastUncompressedSize, hstart]
    · rw [hlength]
      exact compressor.uncompress_compress _ _ hbytes

theorem next_segment (hiterated : iterator.intermediateIterated = true)
    (hlt : iterator.actualIndexDescriptor.toNat < iterator.descriptors.length)
    (hreadable : (OplogBlock.segment
      iterator.descriptors[iterator.actualIndexDescriptor.toNat]).Readable
      compressor descriptorDataFetcher) :
    ∃ after bytes size, iterator.next compressor descriptorDataFetcher = some (after, some bytes) ∧
      HandsOut compressor descriptorDataFetcher
        (.segment iterator.descriptors[iterator.actualIndexDescriptor.toNat])
        ((iterator.descriptors.drop (iterator.actualIndexDescriptor.toNat + 1)).map .segment)
        after bytes size := by
  have hindex := hvalid.toNat_succ hlt
  have hne : iterator.actualIndexDescriptor + 1 ≠ 0 := by
    intro hzero
    rw [hzero] at hindex
    simp at hindex
  obtain ⟨content, hcontent⟩ := Option.isSome_iff_exists.mp hreadable
  obtain ⟨bytes, hbytes, huncompress⟩ := Option.bind_eq_some_iff.mp hcontent
  refine ⟨{ iterator with
      actualIndexDescriptor := iterator.actualIndexDescriptor + 1
      lastTimestampOfLastNext :=
        iterator.descriptors[iterator.actualIndexDescriptor.toNat].max.toUInt32 }, bytes,
    iterator.descriptors[iterator.actualIndexDescriptor.toNat].uncompressedSize, ?_, ?_⟩
  · simp [next, segmentBytes, hiterated, hcompressed, hbytes, hlt]
  · constructor
    · refine ⟨hvalid.small, ?_⟩
      intro hfalse
      exact absurd (hiterated.symm.trans hfalse) (by decide)
    · exact hcompressed
    · simp [OplogIterator.remaining, hiterated, hindex]
    · simp [getLastUncompressedSize, hne, hlt]
    · rw [huncompress, hcontent]

/-- What `next` does to an iterator that hands out compressed blocks. -/
theorem next_compressed {block : OplogBlock} {rest : List OplogBlock}
    (hremaining : iterator.remaining = block :: rest)
    (hreadable : block.Readable compressor descriptorDataFetcher) :
    ∃ after bytes size, iterator.next compressor descriptorDataFetcher = some (after, some bytes) ∧
      HandsOut compressor descriptorDataFetcher block rest after bytes size := by
  obtain ⟨hiterated, rfl, rfl⟩ | ⟨hiterated, hlt, rfl, rfl⟩ := remaining_eq_cons hvalid hremaining
  · exact next_intermediate hvalid hcompressed hiterated hreadable
  · exact next_segment hvalid hcompressed hiterated hlt hreadable

end

end next

end OplogIterator

end MemDb
