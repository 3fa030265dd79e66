import Mathlib.Data.List.Forall2
import MemDb.Lib.Loop
import MemDb.Persistence.SingleOperationLog

/-! # Iterating over a log to its end

    A log is read with `next` while `hasNext` holds: when it is restored, when it is sent to another
    node and when it is checked. The flag of the iterator decides which of its two parts `hasNext`
    looks at, and only `next` sets it. The index of the segments is a 32-bit number.
-/

namespace MemDb

open Lib List Option

section iterate
variable (compressor : Compressor)
  (descriptorDataFetcher : OplogIndexSegmentDescriptor → Option (List UInt8))

/-- The bytes of a block as an iterator hands them out: `none` is an exception, `some none` a
    segment that the fetcher reports as corrupted. -/
def OplogBlock.bytes (compressed : Bool) : OplogBlock → Option (Option (List UInt8))
  | .intermediate bytes =>
    (if compressed then compressor.compressBytes bytes else some bytes).map some
  | .segment descriptor =>
    OplogIterator.segmentBytes compressor descriptorDataFetcher compressed descriptor

namespace OplogIterator

/-- The variables of the loop: the iterator, and what it has handed out. -/
structure Iteration where
  iterator : OplogIterator
  yielded : List (Option (List UInt8))

/-- A pass of `while (iterator->hasNext()) iterator->next()`; an exception leaves the loop with
    `none`. -/
def iterateStep (state : Iteration) : Iteration ⊕ Option (List (Option (List UInt8))) :=
  if state.iterator.hasNext then
    match state.iterator.next compressor descriptorDataFetcher with
    | none => .inr none
    | some (after, block) => .inl ⟨after, state.yielded ++ [block]⟩
  else .inr (some state.yielded)

/-- The loop ends and has handed out the blocks of the iterator, each once and in order, and
    `totalSize` is their number. -/
def Enumerates (iterator : OplogIterator) : Prop :=
  ∃ yielded,
    Loop.Returns (iterateStep compressor descriptorDataFetcher) ⟨iterator, []⟩ (some yielded) ∧
    Forall₂ (fun block bytes =>
      block.bytes compressor descriptorDataFetcher iterator.compressed = some bytes)
      iterator.blocks yielded ∧
    iterator.totalSize = yielded.length

variable {iterator : OplogIterator}

/-! ### The blocks in order -/

/-- `next` hands out the first of the blocks that remain. -/
theorem next_of_remaining (hvalid : iterator.Valid) {block : OplogBlock} {rest : List OplogBlock}
    (hremaining : iterator.remaining = block :: rest) :
    ∃ after : OplogIterator, after.Valid ∧ after.compressed = iterator.compressed ∧
      after.remaining = rest ∧
      iterator.next compressor descriptorDataFetcher =
        (block.bytes compressor descriptorDataFetcher iterator.compressed).map fun bytes =>
          (after, bytes) := by
  obtain ⟨hiterated, rfl, rfl⟩ | ⟨hiterated, hlt, rfl, rfl⟩ := remaining_eq_cons hvalid hremaining
  · refine ⟨{ iterator with intermediateIterated := true },
      ⟨hvalid.small, fun hfalse => Bool.noConfusion hfalse⟩, rfl, ?_, ?_⟩
    · simp [remaining, hvalid.start hiterated]
    · simp [next, hiterated, OplogBlock.bytes, Function.comp_def]
  · refine ⟨{ iterator with
        actualIndexDescriptor := iterator.actualIndexDescriptor + 1
        lastTimestampOfLastNext :=
          iterator.descriptors[iterator.actualIndexDescriptor.toNat].max.toUInt32 },
      ⟨hvalid.small, fun hfalse => absurd (hiterated.symm.trans hfalse) (by decide)⟩, rfl, ?_, ?_⟩
    · simp [remaining, hiterated, hvalid.toNat_succ hlt]
    · simp [next, hiterated, OplogBlock.bytes, hlt]

/-- The loop hands out all that remains, if no block is an exception. -/
theorem returns_remaining (hvalid : iterator.Valid) (hreadable : ∀ block ∈ iterator.remaining,
      (block.bytes compressor descriptorDataFetcher iterator.compressed).isSome)
    (yielded : List (Option (List UInt8))) :
    ∃ rest, Loop.Returns (iterateStep compressor descriptorDataFetcher) ⟨iterator, yielded⟩
        (some (yielded ++ rest)) ∧
      Forall₂ (fun block bytes =>
        block.bytes compressor descriptorDataFetcher iterator.compressed = some bytes)
        iterator.remaining rest := by
  -- one pass for each block that remains
  induction hremaining : iterator.remaining generalizing iterator yielded with
  | nil =>
    refine ⟨[], .leave ?_, .nil⟩
    simp [iterateStep, hasNext_eq, hremaining]
  | cons block blocks ih =>
    rw [hremaining, forall_mem_cons] at hreadable
    obtain ⟨bytes, hbytes⟩ := isSome_iff_exists.mp hreadable.1
    obtain ⟨after, hafter, hcompressed, hrest, hnext⟩ :=
      next_of_remaining compressor descriptorDataFetcher hvalid hremaining
    rw [hbytes, map_some] at hnext
    have hpass : iterateStep compressor descriptorDataFetcher ⟨iterator, yielded⟩ =
        .inl ⟨after, yielded ++ [bytes]⟩ := by
      have hmore : iterator.hasNext = true := by simp [hasNext_eq, hremaining]
      simp [iterateStep, hmore, hnext]
    rw [← hcompressed, ← hrest] at hreadable
    obtain ⟨rest, hreturns, hblocks⟩ := ih hafter hreadable.2 (yielded ++ [bytes]) hrest
    rw [hcompressed] at hblocks
    rw [append_assoc, singleton_append] at hreturns
    exact ⟨bytes :: rest, .pass hpass hreturns, .cons hbytes hblocks⟩

/-! ### An index that wraps -/

/-- What does not change while the segments of an iterator are handed out. -/
structure StillIterates (iterator : OplogIterator) (state : Iteration) : Prop where
  descriptors : state.iterator.descriptors = iterator.descriptors
  intermediate : state.iterator.intermediate = iterator.intermediate
  compressed : state.iterator.compressed = iterator.compressed
  reaches : state.iterator.intermediateIterated = true ∨ iterator.intermediate ≠ []

/-- A pass over more segments than the index can count leads to another one. -/
theorem StillIterates.pass (hmany : 2 ^ 32 ≤ iterator.descriptors.length)
    (hreadable : ∀ block ∈ iterator.blocks,
      (block.bytes compressor descriptorDataFetcher iterator.compressed).isSome)
    {state : Iteration} (h : StillIterates iterator state) :
    ∃ next, iterateStep compressor descriptorDataFetcher state = .inl next ∧
      StillIterates iterator next := by
  obtain ⟨hdescriptors, hintermediate, hcompressed, hreaches⟩ := h
  cases hiterated : state.iterator.intermediateIterated with
  | false =>
    have hne : iterator.intermediate ≠ [] := hreaches.resolve_left (by simp [hiterated])
    have hmem : OplogBlock.intermediate iterator.intermediate ∈ iterator.blocks := by
      simp [blocks, hne]
    obtain ⟨bytes, hbytes⟩ := isSome_iff_exists.mp (hreadable _ hmem)
    obtain ⟨content, hcontent, rfl⟩ := map_eq_some_iff.mp hbytes
    have hmore : state.iterator.hasNext = true := by
      simp [hasNext, hiterated, hintermediate, length_pos_iff, hne]
    refine ⟨⟨{ state.iterator with intermediateIterated := true }, state.yielded ++ [some content]⟩,
      ?_, ⟨hdescriptors, hintermediate, hcompressed, .inl rfl⟩⟩
    simp [iterateStep, hmore, next, hiterated, hcompressed, hintermediate, hcontent]
  | true =>
    -- whatever the index is, there is a segment for it
    have hlt : state.iterator.actualIndexDescriptor.toNat < iterator.descriptors.length :=
      Nat.lt_of_lt_of_le state.iterator.actualIndexDescriptor.toNat_lt hmany
    have hmem :
        OplogBlock.segment iterator.descriptors[state.iterator.actualIndexDescriptor.toNat] ∈
        iterator.blocks := by
      simp [blocks]
    obtain ⟨bytes, hbytes⟩ := isSome_iff_exists.mp (hreadable _ hmem)
    have hmore : state.iterator.hasNext = true := by
      simp [hasNext, hiterated, hdescriptors, hlt]
    refine ⟨⟨{ state.iterator with
        actualIndexDescriptor := state.iterator.actualIndexDescriptor + 1
        lastTimestampOfLastNext :=
          iterator.descriptors[state.iterator.actualIndexDescriptor.toNat].max.toUInt32 },
        state.yielded ++ [bytes]⟩, ?_, ⟨hdescriptors, hintermediate, hcompressed, .inl hiterated⟩⟩
    have hsegment : segmentBytes compressor descriptorDataFetcher iterator.compressed
        iterator.descriptors[state.iterator.actualIndexDescriptor.toNat] = some bytes := hbytes
    simp [iterateStep, hmore, next, hiterated, hcompressed, hdescriptors, hlt, hsegment]

/-! ### Which logs are enumerated -/

theorem isSome_of_yielded {compressed : Bool} {blocks : List OplogBlock}
    {yielded : List (Option (List UInt8))} (h : Forall₂ (fun block bytes =>
      block.bytes compressor descriptorDataFetcher compressed = some bytes) blocks yielded) :
    ∀ block ∈ blocks, (block.bytes compressor descriptorDataFetcher compressed).isSome := by
  induction h with
  | nil => simp
  | cons hbytes _ ih =>
    exact forall_mem_cons.mpr ⟨isSome_iff_exists.mpr ⟨_, hbytes⟩, ih⟩

section start
variable (hstart : iterator.actualIndexDescriptor = 0)
  (hexcluded : iterator.intermediateIterated = true → iterator.intermediate = [])
include hstart hexcluded

/-- Where the segments are reached, all blocks remain at the start. -/
theorem remaining_eq_blocks_of_reaches
    (hreaches : iterator.intermediateIterated = true ∨ iterator.intermediate ≠ [] ∨
      iterator.descriptors = []) : iterator.remaining = iterator.blocks := by
  cases hiterated : iterator.intermediateIterated with
  | false =>
    exact remaining_eq_blocks hiterated hstart (hreaches.resolve_left (by simp [hiterated]))
  | true => simp [remaining, blocks, hiterated, hstart, hexcluded hiterated]

theorem enumerates_iff :
    iterator.Enumerates compressor descriptorDataFetcher ↔
      (iterator.intermediateIterated = true ∨ iterator.intermediate ≠ [] ∨
        iterator.descriptors = []) ∧
      iterator.descriptors.length < 2 ^ 32 ∧
      ∀ block ∈ iterator.blocks,
        (block.bytes compressor descriptorDataFetcher iterator.compressed).isSome := by
  constructor
  · intro ⟨yielded, hreturns, hblocks, _⟩
    have hreadable := isSome_of_yielded compressor descriptorDataFetcher hblocks
    have hreaches : iterator.intermediateIterated = true ∨ iterator.intermediate ≠ [] ∨
        iterator.descriptors = [] := by
      by_contra hnot
      simp only [not_or, Bool.not_eq_true, ne_eq, not_not] at hnot
      obtain ⟨hiterated, hempty, hdescriptors⟩ := hnot
      -- `hasNext` looks at the empty intermediate file only
      have hleave :
          iterateStep compressor descriptorDataFetcher ⟨iterator, []⟩ = .inr (some []) := by
        simp [iterateStep, hasNext, hiterated, hempty]
      cases (Loop.Returns.leave hleave).unique hreturns
      have hnone := forall₂_nil_right_iff.mp hblocks
      simp [blocks, hempty, hdescriptors] at hnone
    refine ⟨hreaches, ?_, hreadable⟩
    by_contra hmany
    have hmany := Nat.le_of_not_lt hmany
    have hsegments : iterator.descriptors ≠ [] := ne_nil_of_length_pos (by omega)
    have hstill : StillIterates iterator ⟨iterator, []⟩ :=
      ⟨rfl, rfl, rfl, hreaches.imp_right fun h => h.resolve_right hsegments⟩
    exact Loop.not_returns (StillIterates iterator)
      (fun state => StillIterates.pass compressor descriptorDataFetcher hmany hreadable) hstill _
      hreturns
  · intro ⟨hreaches, hsmall, hreadable⟩
    have hremaining := remaining_eq_blocks_of_reaches hstart hexcluded hreaches
    have hvalid : iterator.Valid := ⟨hsmall, fun _ => hstart⟩
    obtain ⟨yielded, hreturns, hblocks⟩ := returns_remaining compressor descriptorDataFetcher hvalid
      (hremaining ▸ hreadable) []
    rw [hremaining] at hblocks
    exact ⟨yielded, hreturns, hblocks, (length_blocks iterator).symm.trans hblocks.length_eq⟩

end start

/-- A new iterator enumerates its log exactly when the intermediate file is excluded or not empty,
    or there are no segments, when the index can count the segments, and when no block is an
    exception. -/
theorem enumerates_new_iff (descriptors : List OplogIndexSegmentDescriptor)
    (segmentOplogDescriptorInitDiskPtr : UInt64) (intermediate : List UInt8)
    (iterateOnlyDescriptors compressed : Bool) (oplogId uninitialized : UInt32)
    (hexcluded : iterateOnlyDescriptors = true → intermediate = []) :
    (new descriptors segmentOplogDescriptorInitDiskPtr intermediate iterateOnlyDescriptors
        compressed oplogId uninitialized).Enumerates compressor descriptorDataFetcher ↔
      (iterateOnlyDescriptors = true ∨ intermediate ≠ [] ∨ descriptors = []) ∧
        descriptors.length < 2 ^ 32 ∧
        ∀ block ∈ (new descriptors segmentOplogDescriptorInitDiskPtr intermediate
          iterateOnlyDescriptors compressed oplogId uninitialized).blocks,
          (block.bytes compressor descriptorDataFetcher compressed).isSome :=
  enumerates_iff compressor descriptorDataFetcher rfl hexcluded

end OplogIterator

end iterate

/-! ### One segment -/

/-- A segment of one byte. -/
def oneByteSegment : OplogIndexSegmentDescriptor := ⟨1, 1, 0, 0, 1, 1, 0⟩

namespace OplogIterator

/-- A segment behind an intermediate file. -/
theorem enumerates_with_intermediate :
    (new [oneByteSegment] 0 [2] false false 0 0).Enumerates plainEnvironment.compressor
      fun _ => some [3] :=
  (enumerates_new_iff plainEnvironment.compressor (fun _ => some [3]) [oneByteSegment] 0 [2] false
    false 0 0 (by decide)).mpr ⟨by decide, by decide, by decide⟩

/-- A segment behind an empty intermediate file: nothing is handed out. -/
theorem not_enumerates_without_intermediate :
    Loop.Returns (iterateStep plainEnvironment.compressor fun _ => some [3])
        ⟨new [oneByteSegment] 0 [] false false 0 0, []⟩ (some []) ∧
      (new [oneByteSegment] 0 [] false false 0 0).totalSize = 1 ∧
      ¬ (new [oneByteSegment] 0 [] false false 0 0).Enumerates plainEnvironment.compressor
        fun _ => some [3] := by
  refine ⟨.leave rfl, rfl, ?_⟩
  rw [enumerates_iff _ _ rfl (by decide)]
  intro ⟨hreaches, _⟩
  revert hreaches
  decide

end OplogIterator

end MemDb
