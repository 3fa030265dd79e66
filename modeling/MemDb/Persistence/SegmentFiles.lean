import MemDb.Persistence.SegmentQueries

/-! # The two files of the segments over time

    A descriptor points to where the data file ended when its segment was saved. `clearAll` removes
    both files, and the size of a file that is not there is taken for a position: the first segment
    that is saved afterwards points behind every file. A repaired segment is appended to the data
    file, and its descriptor is written in its place; but the stream for it is opened with `trunc`,
    so that nothing of the index file is left but that descriptor.
-/

namespace MemDb

open Lib FileUtils List Option UInt32

namespace OplogIndexSegment

open OplogIndexSegmentDescriptorSerializer OplogIndexSegmentDescriptorDeserializer

/-! ### Saving and clearing -/

inductive SegmentCall where
  | save (toSave : List UInt8)
  | clearAll
deriving DecidableEq

/-- The files, and what the calls of `save` have written since they were last cleared. -/
structure History where
  segment : OplogIndexSegment
  written : List NewSegment
deriving DecidableEq

section calls
variable (env : LogEnvironment)

/-- A call, and what it writes. -/
def callStep : SegmentCall → History → Option History
  | .save toSave, history =>
    (prepare env (FileUtils.size history.segment.data) toSave).map fun new =>
      ⟨history.segment.append new, history.written ++ [new]⟩
  | .clearAll, history => some ⟨history.segment.clearAll, []⟩

/-- The index file has the descriptors of what was written, and each of them reads back what was
    written with it. -/
def Agrees (history : History) : Prop :=
  history.segment.readAllIndex = history.written.map (·.descriptor) ∧
    ∀ new ∈ history.written,
      history.segment.readBytesDataByDescriptor env.crc new.descriptor =
        some new.compressed

end calls

/-! ### What the files hold -/

/-- The size that the data file reports behind the given segments; a file that was removed reports
    -1. -/
def reportedSize (cleared : Bool) (written : List NewSegment) : Nat :=
  if cleared = true ∧ written = [] then 2 ^ 64 - 1 else (written.flatMap (·.compressed)).length

/-- The files behind the given segments. -/
def filesOf (cleared : Bool) (written : List NewSegment) : OplogIndexSegment :=
  if cleared = true ∧ written = [] then ⟨none, none⟩
  else ofLog ⟨[], 0, written.map (·.descriptor), written.flatMap (·.compressed)⟩

section
variable (cleared : Bool) (written : List NewSegment)

theorem size_data_filesOf :
    FileUtils.size (filesOf cleared written).data = reportedSize cleared written := by
  unfold filesOf reportedSize
  split <;> rfl

theorem append_filesOf (new : NewSegment) :
    (filesOf cleared written).append new = filesOf cleared (written ++ [new]) := by
  have hne : ¬ (cleared = true ∧ written ++ [new] = []) := by simp
  rw [filesOf, filesOf, if_neg hne]
  split
  · next hempty => simp [append, ofLog, appendBytes_eq, hempty.2]
  · simp [append, ofLog, appendBytes_eq]

theorem readAllIndex_filesOf :
    (filesOf cleared written).readAllIndex = written.map (·.descriptor) := by
  unfold filesOf
  split
  · next hempty =>
    rw [hempty.2]
    rfl
  · exact readAllIndex_ofLog _

/-- The bytes that a read of the data file finds. -/
theorem getD_data_filesOf :
    (filesOf cleared written).data.getD [] = written.flatMap (·.compressed) := by
  unfold filesOf
  split
  · next hempty =>
    rw [hempty.2]
    rfl
  · rfl

end

/-! ### Runs of calls -/

/-- What `write` puts into a descriptor beside the range of its operations. -/
structure Describing (env : LogEnvironment) (dataSize : Nat) (new : NewSegment) : Prop where
  ptr : new.descriptor.ptr = UInt64.ofNat dataSize
  crc : new.descriptor.crc = env.crc new.compressed
  size : new.descriptor.size = UInt32.ofNat new.compressed.length

/-- The files are those of what was written, and each descriptor has the size that was reported in
    front of its segment. -/
structure Tracks (env : LogEnvironment) (cleared : Bool) (history : History) : Prop where
  files : history.segment = filesOf cleared history.written
  descriptors : ∀ before new after, history.written = before ++ new :: after →
    Describing env (reportedSize cleared before) new

section runs
variable {env : LogEnvironment} {new : NewSegment} {cleared : Bool} {history : History}
  {segment : OplogIndexSegment}

theorem describing_prepare {dataSize : Nat} {toWrite : List UInt8}
    (h : prepare env dataSize toWrite = some new) :
    Describing env dataSize new := by
  simp only [prepare, bind_eq_bind, bind_eq_some_iff] at h
  obtain ⟨_, _, _, _, _, _, _, _, _, _, _, _, hnew⟩ := h
  cases hnew
  exact ⟨rfl, rfl, rfl⟩

theorem tracks_created : Tracks env false ⟨created, []⟩ := by
  refine ⟨rfl, ?_⟩
  intro before new after hsplit
  simp at hsplit

/-- A call keeps track of the files. -/
theorem Tracks.callStep {call : SegmentCall} {next : History}
    (h : Tracks env cleared history)
    (hstep : callStep env call history = some next) :
    Tracks env (cleared || decide (call = .clearAll)) next := by
  cases call with
  | save toSave =>
    obtain ⟨new, hprepare, rfl⟩ := map_eq_some_iff.mp hstep
    rw [h.files, size_data_filesOf] at hprepare
    have hcleared : (cleared || decide (SegmentCall.save toSave = .clearAll)) = cleared := by simp
    rw [hcleared]
    refine ⟨?_, ?_⟩
    · dsimp only
      rw [h.files, append_filesOf]
    · intro before other after hsplit
      -- the new segment is the last one
      rcases eq_nil_or_concat after with rfl | ⟨front, last, rfl⟩
      · obtain ⟨rfl, hlast⟩ := append_inj' hsplit rfl
        obtain rfl := head_eq_of_cons_eq hlast
        exact describing_prepare hprepare
      · rw [concat_eq_append, ← cons_append, ← append_assoc] at hsplit
        exact h.descriptors before other front (append_inj' hsplit rfl).1
  | clearAll =>
    cases hstep
    have hcleared : (cleared || decide (SegmentCall.clearAll = .clearAll)) = true := by simp
    rw [hcleared]
    refine ⟨by simp [clearAll, filesOf, clear], ?_⟩
    intro before new after hsplit
    simp at hsplit

theorem Tracks.run {calls : List SegmentCall} {final : History}
    (h : Tracks env cleared history)
    (hrun : Run.run (OplogIndexSegment.callStep env) calls history = some final) :
    Tracks env (cleared || decide (.clearAll ∈ calls)) final := by
  induction calls generalizing cleared history with
  | nil =>
    cases hrun
    simpa using h
  | cons call calls ih =>
    obtain ⟨next, hnext, hrest⟩ := Run.run_cons_eq_some.mp hrun
    have hfinal := ih (h.callStep hnext) hrest
    simpa [Bool.or_assoc, eq_comm] using hfinal

/-! ### What is read back -/

/-- What is read with a descriptor has the size that the descriptor says. -/
theorem readInto_of_readBytes {crc : List UInt8 → UInt32} {descriptor : OplogIndexSegmentDescriptor}
    {bytes : List UInt8} (h : segment.readBytesDataByDescriptor crc descriptor = some bytes) :
    FileUtils.readInto descriptor.ptr.toNat descriptor.size.toNat segment.data = bytes := by
  rw [readBytesDataByDescriptor] at h
  split at h
  · exact some.inj h
  · cases h

/-- A size that 32 bits can hold is necessary. -/
theorem Describing.length_lt {dataSize : Nat} (h : Describing env dataSize new)
    (hread : segment.readBytesDataByDescriptor env.crc new.descriptor =
      some new.compressed) : new.compressed.length < 2 ^ 32 := by
  have hlength := congrArg length (readInto_of_readBytes hread)
  rw [length_readInto, h.size, toNat_ofNat'] at hlength
  rw [← hlength]
  exact Nat.mod_lt _ (by decide)

/-- Bytes at the position to which their descriptor points are read back. -/
theorem Describing.readBytes {front rest : List UInt8} (h : Describing env front.length new)
    (hdata : segment.data.getD [] = front ++ (new.compressed ++ rest))
    (hptr : front.length < 2 ^ 64) (hlength : new.compressed.length < 2 ^ 32) :
    segment.readBytesDataByDescriptor env.crc new.descriptor = some new.compressed := by
  have hread : readInto new.descriptor.ptr.toNat new.descriptor.size.toNat segment.data =
      new.compressed := by
    rw [h.ptr, h.size, UInt64.toNat_ofNat_of_lt' hptr, toNat_ofNat_of_lt' hlength,
      readInto_getD, hdata, readInto_append]
  rw [readBytesDataByDescriptor, hread, if_pos h.crc.symm]

/-- The first segment behind a cleared file points to the end of every file. -/
theorem Describing.readInto_cleared {file : File} (h : Describing env (2 ^ 64 - 1) new)
    (hsize : (file.getD []).length < 2 ^ 64) :
    FileUtils.readInto new.descriptor.ptr.toNat new.descriptor.size.toNat file =
      replicate new.descriptor.size.toNat 0 := by
  rw [h.ptr, UInt64.toNat_ofNat_of_lt' (by decide)]
  exact readInto_of_ge (by omega) _

/-- Files that agree have been cleared behind everything that was saved, or never. -/
theorem Tracks.not_cleared (h : Tracks env cleared history)
    (hdata : FileUtils.size history.segment.data < 2 ^ 64)
    (hzeros : ∀ new ∈ history.written, new.compressed ≠ replicate new.compressed.length 0)
    (hagrees : Agrees env history) : history.written = [] ∨ cleared = false := by
  by_contra hcleared
  rw [not_or, Bool.not_eq_false] at hcleared
  obtain ⟨hne, rfl⟩ := hcleared
  obtain ⟨first, rest, hfirst⟩ := exists_cons_of_ne_nil hne
  have hmem : first ∈ history.written := hfirst ▸ mem_cons_self
  have hdescribing := h.descriptors [] first rest hfirst
  rw [reportedSize, if_pos ⟨rfl, rfl⟩] at hdescribing
  -- what is read with the first descriptor are zeros
  have hlt := Nat.lt_of_le_of_lt (length_getD_le_size history.segment.data) hdata
  have hread := readInto_of_readBytes (hagrees.2 first hmem)
  rw [hdescribing.readInto_cleared hlt] at hread
  apply hzeros first hmem
  rw [← hread, length_replicate]

end runs

/-- After any calls the files agree exactly when nothing has been saved since the last `clearAll`,
    or there was none, and the sizes of the segments fit their field: for the one direction the
    compressed bytes must not be all zeros. -/
theorem agrees_run (env : LogEnvironment) (calls : List SegmentCall) (history : History)
    (hrun : Run.run (callStep env) calls ⟨created, []⟩ = some history)
    (hdata : FileUtils.size history.segment.data < 2 ^ 64) :
    ((history.written = [] ∨ .clearAll ∉ calls) →
      (∀ new ∈ history.written, new.compressed.length < 2 ^ 32) → Agrees env history) ∧
    ((∀ new ∈ history.written, new.compressed ≠ replicate new.compressed.length 0) →
      Agrees env history →
      (history.written = [] ∨ .clearAll ∉ calls) ∧
        ∀ new ∈ history.written, new.compressed.length < 2 ^ 32) := by
  have htracks := tracks_created.run hrun
  rw [Bool.false_or] at htracks
  have hfiles := htracks.files
  have hbytes : history.segment.data.getD [] = history.written.flatMap (·.compressed) := by
    rw [hfiles, getD_data_filesOf]
  constructor
  · intro hclean hlengths
    refine ⟨by rw [hfiles, readAllIndex_filesOf], ?_⟩
    intro new hnew
    obtain ⟨before, after, hsplit⟩ := append_of_mem hnew
    have hne : history.written ≠ [] := ne_nil_of_mem hnew
    have hdescribing := htracks.descriptors before new after hsplit
    rw [decide_eq_false (hclean.resolve_left hne), reportedSize, if_neg (by simp)] at hdescribing
    rw [hsplit, flatMap_append, flatMap_cons] at hbytes
    have hsize := length_getD_le_size history.segment.data
    rw [hbytes, length_append] at hsize
    exact hdescribing.readBytes hbytes (by omega) (hlengths new hnew)
  · intro hzeros hagrees
    refine ⟨?_, ?_⟩
    · exact (htracks.not_cleared hdata hzeros hagrees).imp_right of_decide_eq_false
    · intro new hnew
      obtain ⟨before, after, hsplit⟩ := append_of_mem hnew
      exact (htracks.descriptors before new after hsplit).length_lt (hagrees.2 new hnew)

section sets
open OperationLogSerializer

/-- What is written for a `SET`, with the size that the data file reports. -/
def newSet (dataSize : Nat) : NewSegment :=
  ⟨[setOfA 1], recordBytes (setOfA 1), ⟨1, 1, UInt64.ofNat dataSize, 0, 23, 23, 0⟩⟩

/-- Two segments in new files. -/
theorem agrees_two_sets : Agrees plainEnvironment
    ⟨(created.append (newSet 0)).append (newSet 23), [newSet 0, newSet 23]⟩ :=
  (agrees_run plainEnvironment (replicate 2 (.save (recordBytes (setOfA 1)))) _
    (by decide +kernel) (by decide)).1 (.inr (by decide)) (by decide)

/-- A segment that is saved after `clearAll`: what is read with its descriptor is not what was
    written. -/
theorem not_agrees_after_clearAll :
    Run.run (callStep plainEnvironment) [.clearAll, .save (recordBytes (setOfA 1))] ⟨created, []⟩ =
        some ⟨created.clearAll.append (newSet (2 ^ 64 - 1)), [newSet (2 ^ 64 - 1)]⟩ ∧
      ¬ Agrees plainEnvironment
        ⟨created.clearAll.append (newSet (2 ^ 64 - 1)), [newSet (2 ^ 64 - 1)]⟩ := by
  have hrun : Run.run (callStep plainEnvironment) [.clearAll, .save (recordBytes (setOfA 1))]
      ⟨created, []⟩ =
        some ⟨created.clearAll.append (newSet (2 ^ 64 - 1)), [newSet (2 ^ 64 - 1)]⟩ := by
    decide +kernel
  refine ⟨hrun, ?_⟩
  intro hagrees
  rcases (tracks_created.run hrun).not_cleared (by decide) (by decide) hagrees with hnone | hcleared
  · cases hnone
  · revert hcleared
    decide

end sets

/-! ### Repairing a segment -/

/-- A descriptor of zeros, which is what a gap in the index file is read as. -/
def zeroDescriptor : OplogIndexSegmentDescriptor := ⟨0, 0, 0, 0, 0, 0, 0⟩

/-- Descriptor `i` has changed so that it reads back the replacement, and nothing else has. -/
structure RepairsOnly (crc : List UInt8 → UInt32) (i : Nat) (replacement : List UInt8)
    (before after : OplogIndexSegment) : Prop where
  length : after.readAllIndex.length = before.readAllIndex.length
  others : ∀ j descriptor, j ≠ i → before.readAllIndex[j]? = some descriptor →
    after.readAllIndex[j]? = some descriptor ∧
      after.readBytesDataByDescriptor crc descriptor =
        before.readBytesDataByDescriptor crc descriptor
  repaired : ∃ corrupted repaired, before.readAllIndex[i]? = some corrupted ∧
    after.readAllIndex[i]? = some repaired ∧
    repaired.min = corrupted.min ∧ repaired.max = corrupted.max ∧
    after.readBytesDataByDescriptor crc repaired = some replacement

section repair
variable {env : LogEnvironment}

/-- The files that saves lead to. -/
theorem ofLog_of_saves {saves : List (List UInt8)} {log : SingleOperationLog}
    {segment : OplogIndexSegment} (h : Run.run (save env) saves (ofLog log) = some segment) :
    ∃ log', segment = ofLog log' ∧ log'.index.length = log.index.length + saves.length := by
  induction saves generalizing log with
  | nil =>
    cases h
    exact ⟨log, rfl, rfl⟩
  | cons toSave saves ih =>
    obtain ⟨next, hnext, hrest⟩ := Run.run_cons_eq_some.mp h
    rw [save_ofLog, write_eq_prepare, Option.map_map] at hnext
    obtain ⟨new, -, rfl⟩ := map_eq_some_iff.mp hnext
    obtain ⟨log', hlog', hlength⟩ := ih hrest
    refine ⟨log', hlog', ?_⟩
    simp only [hlength, length_append, length_cons, length_nil]
    omega

theorem flatMap_zeroDescriptor (count : Nat) :
    (replicate count zeroDescriptor).flatMap serialize = replicate (40 * count) 0 := by
  have hzero : serialize zeroDescriptor = replicate 40 0 := by decide
  rw [flatMap_replicate, hzero, flatten_replicate_replicate, Nat.mul_comm]

/-- The descriptor of a repaired segment. -/
def repairedDescriptor (env : LogEnvironment) (replacement : List UInt8)
    (uncompressedSize : UInt32) (dataSize : Nat) (corrupted : OplogIndexSegmentDescriptor) :
    OplogIndexSegmentDescriptor :=
  { corrupted with
    uncompressedSize := uncompressedSize
    size := UInt32.ofNat replacement.length
    crc := env.crc replacement
    ptr := UInt64.ofNat dataSize }

/-- A repair leaves nothing of the index file but the one descriptor, behind zeros. -/
theorem updateCorruptedSegment_ofLog (log : SingleOperationLog) (i : Nat) (replacement : List UInt8)
    (uncompressedSize : UInt32) :
    (ofLog log).updateCorruptedSegment env replacement uncompressedSize (40 * i) =
      ofLog { log with
        index := replicate i zeroDescriptor ++
          [repairedDescriptor env replacement uncompressedSize log.data.length
            (log.readIndexAt i)]
        data := log.data ++ replacement } := by
  have hsize : size (ofLog log).data = log.data.length := rfl
  unfold updateCorruptedSegment
  dsimp only
  rw [readIndexAt_ofLog, hsize, writeBytes_eq (serialize_ne_nil _),
    appendBytes_eq, ofLog, ofLog, flatMap_append, flatMap_zeroDescriptor,
    flatMap_singleton]
  rfl

section repaired
variable {log : SingleOperationLog} {i : Nat} {replacement : List UInt8} {uncompressedSize : UInt32}

/-- The only segment is repaired. -/
theorem repairsOnly_single (hlength : log.index.length = 1) (hdata : log.data.length < 2 ^ 64)
    (hreplacement : replacement.length < 2 ^ 32) :
    RepairsOnly env.crc 0 replacement (ofLog log)
      ((ofLog log).updateCorruptedSegment env replacement uncompressedSize (40 * 0)) := by
  obtain ⟨corrupted, hindex⟩ := length_eq_one_iff.mp hlength
  have hcorrupted : log.readIndexAt 0 = corrupted := by
    rw [SingleOperationLog.readIndexAt, hindex]
    rfl
  rw [updateCorruptedSegment_ofLog, replicate_zero, nil_append, hcorrupted]
  refine ⟨?_, ?_, corrupted, repairedDescriptor env replacement uncompressedSize
    log.data.length corrupted, ?_, ?_, rfl, rfl, ?_⟩
  · rw [readAllIndex_ofLog, readAllIndex_ofLog, hlength]
    rfl
  · intro j descriptor hj hdescriptor
    rw [readAllIndex_ofLog, hindex] at hdescriptor
    obtain ⟨hlt, -⟩ := List.getElem?_eq_some_iff.mp hdescriptor
    exact absurd (Nat.lt_one_iff.mp hlt) hj
  · rw [readAllIndex_ofLog, hindex]
    rfl
  · rw [readAllIndex_ofLog]
    rfl
  · -- the replacement stands where the data file ended
    have hdescribing : Describing env log.data.length
        ⟨[], replacement, repairedDescriptor env replacement uncompressedSize log.data.length
          corrupted⟩ := ⟨rfl, rfl, rfl⟩
    have hbytes : log.data ++ replacement = log.data ++ (replacement ++ []) := by
      rw [append_nil]
    exact hdescribing.readBytes hbytes hdata hreplacement

/-- A repair that changes nothing else was made on the only segment, because the descriptors in
    front are zeros and those behind are gone. -/
theorem length_eq_one_of_repairsOnly (hsizes : ∀ descriptor ∈ log.index, descriptor.size ≠ 0)
    (h : RepairsOnly env.crc i replacement (ofLog log)
      ((ofLog log).updateCorruptedSegment env replacement uncompressedSize (40 * i))) :
    log.index.length = 1 := by
  rw [updateCorruptedSegment_ofLog] at h
  have hlength := h.length
  simp only [readAllIndex_ofLog, length_append, length_replicate, length_cons,
    length_nil] at hlength
  by_contra hne
  have hfirst : 0 < log.index.length := by omega
  obtain ⟨hunchanged, -⟩ := h.others 0 log.index[0] (by omega)
    (by rw [readAllIndex_ofLog, getElem?_eq_getElem hfirst])
  rw [readAllIndex_ofLog, getElem?_append_left (by rw [length_replicate]; omega),
    getElem?_replicate_of_lt (by omega), some.injEq] at hunchanged
  exact hsizes _ (getElem_mem hfirst) (hunchanged ▸ rfl)

theorem length_lt_of_repairsOnly (h : RepairsOnly env.crc i replacement (ofLog log)
      ((ofLog log).updateCorruptedSegment env replacement uncompressedSize (40 * i))) :
    replacement.length < 2 ^ 32 := by
  rw [updateCorruptedSegment_ofLog] at h
  obtain ⟨_, repaired, -, hrepaired, -, -, hread⟩ := h.repaired
  rw [readAllIndex_ofLog, getElem?_append_right (by rw [length_replicate]),
    length_replicate, Nat.sub_self] at hrepaired
  cases hrepaired
  have hdescribing : Describing env log.data.length
      ⟨[], replacement, repairedDescriptor env replacement uncompressedSize log.data.length
        (log.readIndexAt i)⟩ := ⟨rfl, rfl, rfl⟩
  exact hdescribing.length_lt hread

end repaired

end repair

/-- Of any number of saved segments a repair touches only its own when there is one segment and 32
    bits can hold the size of the replacement; and when no descriptor says that its segment is
    empty, only then. -/
theorem repairsOnly_updateCorruptedSegment (env : LogEnvironment)
    (saves : List (List UInt8)) (segment : OplogIndexSegment)
    (hsaved : Run.run (save env) saves created = some segment) (i : Nat)
    (hi : i < saves.length) (replacement : List UInt8) (uncompressedSize : UInt32)
    (hdata : FileUtils.size segment.data < 2 ^ 64) :
    (saves.length = 1 → replacement.length < 2 ^ 32 →
      RepairsOnly env.crc i replacement segment
        (segment.updateCorruptedSegment env replacement uncompressedSize (40 * i))) ∧
    ((∀ descriptor ∈ segment.readAllIndex, descriptor.size ≠ 0) →
      RepairsOnly env.crc i replacement segment
        (segment.updateCorruptedSegment env replacement uncompressedSize (40 * i)) →
      saves.length = 1 ∧ replacement.length < 2 ^ 32) := by
  rw [created_eq] at hsaved
  obtain ⟨log, rfl, hlength⟩ := ofLog_of_saves hsaved
  rw [show SingleOperationLog.empty.index.length = 0 from rfl, Nat.zero_add] at hlength
  rw [← hlength] at hi ⊢
  constructor
  · intro hone hreplacement
    obtain rfl : i = 0 := by omega
    exact repairsOnly_single hone hdata hreplacement
  · intro hsizes hrepairs
    rw [readAllIndex_ofLog] at hsizes
    exact ⟨length_eq_one_of_repairsOnly hsizes hrepairs, length_lt_of_repairsOnly hrepairs⟩

section repairedSets
open OperationLogSerializer

/-- The repair of the only segment. -/
theorem repairsOnly_one_set :
    RepairsOnly plainEnvironment.crc 0 [7] (ofLog ([1].foldl withSet .empty))
      ((ofLog ([1].foldl withSet .empty)).updateCorruptedSegment plainEnvironment [7] 1 (40 * 0)) :=
  (repairsOnly_updateCorruptedSegment plainEnvironment [recordBytes (setOfA 1)] _
    (by decide +kernel) 0 (by decide) [7] 1 (by decide)).1 rfl (by decide)

/-- The repair of the first of two segments: the second descriptor is gone. -/
theorem not_repairsOnly_two_sets :
    Run.run (save plainEnvironment) [recordBytes (setOfA 1), recordBytes (setOfA 5)] created =
        some (ofLog ([1, 5].foldl withSet .empty)) ∧
      ((ofLog ([1, 5].foldl withSet .empty)).updateCorruptedSegment plainEnvironment [7] 1
        (40 * 0)).readAllIndex.length = 1 ∧
      ¬ RepairsOnly plainEnvironment.crc 0 [7] (ofLog ([1, 5].foldl withSet .empty))
        ((ofLog ([1, 5].foldl withSet .empty)).updateCorruptedSegment plainEnvironment [7] 1
          (40 * 0)) := by
  refine ⟨by decide +kernel, by decide +kernel, ?_⟩
  intro hrepairs
  have hone := length_eq_one_of_repairsOnly (by decide) hrepairs
  revert hone
  decide

end repairedSets

end OplogIndexSegment

end MemDb
