import MemDb.Persistence.SegmentSearch
import MemDb.Persistence.NewestOperation
import MemDb.Lib.Run

/-! # Segments selected by timestamp

    `getByAfterTimestamp` and `getBetweenTimestamps` select segments by one search or by two. The
    segments are searched as if their ranges were sorted, but they are saved as they arrive. And a
    timestamp of zero counts as not found, although segments hold operations with that timestamp.
-/

namespace MemDb

open Lib List Option UInt64

namespace OplogIndexSegment

open SearchState SingleOperationLog

/-! ### What a descriptor says of its operations -/

/-- The range of a descriptor is that of the operations. -/
structure Describes (descriptor : OplogIndexSegmentDescriptor) (operations : List OperationBody) :
    Prop where
  covers : ∀ op ∈ operations, descriptor.Covers op.timestamp
  min : ∃ op ∈ operations, op.timestamp = descriptor.min
  max : ∃ op ∈ operations, op.timestamp = descriptor.max

variable {operations : List OperationBody} {contents : List (List OperationBody)}
  {descriptors : List OplogIndexSegmentDescriptor}

theorem Describes.ordered {descriptor : OplogIndexSegmentDescriptor}
    (h : Describes descriptor operations) : descriptor.min ≤ descriptor.max := by
  obtain ⟨op, hop, hmin⟩ := h.min
  rw [← hmin]
  exact (h.covers op hop).2

section prepare
variable (env : LogEnvironment)

/-- The operations that `write` keeps do not depend on the files. -/
theorem prepare_operations (dataSize : Nat) (toWrite : List UInt8) :
    (prepare env dataSize toWrite).map (·.operations) =
      (prepare env 0 toWrite).map (·.operations) := by
  simp only [prepare, Option.bind_eq_bind, Option.map_bind, Function.comp_def, Option.pure_def,
    Option.map_some]

variable {env} in
theorem describes_prepare {dataSize : Nat} {toWrite : List UInt8} {new : NewSegment}
    (h : prepare env dataSize toWrite = some new) :
    Describes new.descriptor new.operations := by
  simp only [prepare, bind_eq_bind, bind_eq_some_iff] at h
  obtain ⟨operations, -, compacted, -, serialized, -, compressed, -, first, hfirst, last, hlast,
    hnew⟩ := h
  cases hnew
  have hsorted := env.sort_sorted compacted
  have hmin : ∀ op ∈ env.sortByTimestamp compacted, first.timestamp ≤ op.timestamp := by
    obtain ⟨rest, hrest⟩ := head?_eq_some_iff.mp hfirst
    rw [hrest] at hsorted ⊢
    intro op hop
    rcases mem_cons.mp hop with rfl | hop
    · exact UInt64.le_refl _
    · exact (pairwise_cons.mp hsorted).1 op hop
  have hmax : ∀ op ∈ env.sortByTimestamp compacted, op.timestamp ≤ last.timestamp := by
    obtain ⟨front, hfront⟩ := getLast?_eq_some_iff.mp hlast
    rw [hfront] at hsorted ⊢
    intro op hop
    rcases mem_append.mp hop with hop | hop
    · exact (pairwise_append.mp hsorted).2.2 op hop last (mem_singleton_self last)
    · rw [mem_singleton.mp hop]
      exact UInt64.le_refl _
  exact ⟨fun op hop => ⟨hmin op hop, hmax op hop⟩,
    ⟨first, mem_of_mem_head? hfirst, rfl⟩, ⟨last, mem_of_getLast? hlast, rfl⟩⟩

end prepare

/-- The descriptor at the place of its operations. -/
theorem describes_getElem? {R : OplogIndexSegmentDescriptor → List OperationBody → Prop}
    (h : Forall₂ R descriptors contents) {i : Nat} (hi : contents[i]? = some operations) :
    ∃ descriptor, descriptors[i]? = some descriptor ∧ R descriptor operations := by
  induction h generalizing i with
  | nil => cases hi
  | @cons descriptor _ _ _ hfirst _ ih =>
    cases i with
    | zero =>
      cases hi
      exact ⟨descriptor, rfl, hfirst⟩
    | succ i => exact ih hi

theorem describes_ordered (h : Forall₂ Describes descriptors contents) :
    ∀ descriptor ∈ descriptors, descriptor.min ≤ descriptor.max := by
  induction h with
  | nil => simp
  | cons hfirst _ ih => exact forall_mem_cons.mpr ⟨hfirst.ordered, ih⟩

/-! ### Batches that are saved one after another -/

section batches
variable (env : LogEnvironment)

/-- A batch of operations that is flushed and saved. -/
def saveBatch (batch : List OperationBody) (segment : OplogIndexSegment) :
    Option OplogIndexSegment :=
  (OperationLogSerializer.serializeAll batch).bind fun toSave => segment.save env toSave

/-- The operations that the segment of a batch holds. -/
def operationsOf (batch : List OperationBody) : List OperationBody :=
  ((OperationLogSerializer.serializeAll batch).bind fun toSave =>
    (prepare env 0 toSave).map (·.operations)).getD []

variable {log : SingleOperationLog} {segment : OplogIndexSegment}

/-- A batch adds a segment with the operations that are kept of it. -/
theorem saveBatch_ofLog {batch : List OperationBody}
    (h : saveBatch env batch (ofLog log) = some segment) :
    ∃ new : NewSegment, segment = ofLog { log with
        index := log.index ++ [new.descriptor]
        data := log.data ++ new.compressed } ∧
      Describes new.descriptor (operationsOf env batch) := by
  obtain ⟨toSave, hserialize, hsave⟩ := Option.bind_eq_some_iff.mp h
  rw [save_ofLog, write_eq_prepare, Option.map_map] at hsave
  obtain ⟨new, hprepare, rfl⟩ := map_eq_some_iff.mp hsave
  have hoperations := prepare_operations env log.data.length toSave
  rw [hprepare, map_some] at hoperations
  refine ⟨new, rfl, ?_⟩
  rw [operationsOf, hserialize, bind_some, ← hoperations, getD_some]
  exact describes_prepare hprepare

/-- The files after all batches. -/
theorem run_saveBatch {batches : List (List OperationBody)}
    (h : Run.run (saveBatch env) batches (ofLog log) = some segment) :
    ∃ log' added, segment = ofLog log' ∧ log'.index = log.index ++ added ∧
      Forall₂ Describes added (batches.map (operationsOf env)) := by
  induction batches generalizing log with
  | nil =>
    cases h
    exact ⟨log, [], rfl, (append_nil _).symm, .nil⟩
  | cons batch batches ih =>
    obtain ⟨next, hnext, hrest⟩ := Run.run_cons_eq_some.mp h
    obtain ⟨new, rfl, hdescribes⟩ := saveBatch_ofLog env hnext
    obtain ⟨log', added, rfl, hindex, hadded⟩ := ih hrest
    refine ⟨log', new.descriptor :: added, rfl, ?_, .cons hdescribes hadded⟩
    rw [hindex, append_assoc]
    rfl

end batches

/-! ### Segments after a timestamp -/

/-- The timestamp lies between two operations, or is that of one. -/
def SpansOver (operations : List OperationBody) (timestamp : UInt64) : Prop :=
  (∃ op ∈ operations, op.timestamp ≤ timestamp) ∧ ∃ op ∈ operations, timestamp ≤ op.timestamp

/-- Every segment with an operation after the timestamp is in the result. -/
def MissesNoSegment (segment : OplogIndexSegment) (contents : List (List OperationBody))
    (timestamp : UInt64) (result : OplogSegmentAfterTimestampsSearchResult) : Prop :=
  ∀ (i : Nat) (operations : List OperationBody), contents[i]? = some operations →
    (∃ op ∈ operations, timestamp < op.timestamp) →
    ∃ descriptor, segment.readAllIndex[i]? = some descriptor ∧ descriptor ∈ result.descriptors

section queries
variable {log : SingleOperationLog} {timestamp : UInt64}

/-- What a search that ends has found: nothing where there is nothing or nothing to search for, and
    otherwise the first segment, above the timestamp, or one with the timestamp in its range. -/
theorem binarySearchByTimestamp_cases
    (hordered : ∀ descriptor ∈ log.index, descriptor.min ≤ descriptor.max) {fuel : Nat}
    {result : OplogSegmentBinarySearchResult}
    (h : (ofLog log).binarySearchByTimestamp timestamp fuel = some result) :
    (result = ⟨false, 0⟩ ∧ (log.index = [] ∨ timestamp = 0)) ∨
      ∃ position < log.index.length, result = ⟨true, 40 * position⟩ ∧ timestamp ≠ 0 ∧
        (position = 0 ∧ timestamp < (log.readIndexAt 0).min ∨
          (log.readIndexAt position).Covers timestamp) := by
  by_cases hnone : log.index = [] ∨ timestamp = 0
  · left
    have hsize : FileUtils.size (ofLog log).index = 0 ∨ timestamp = 0 := by
      rw [size_index_ofLog]
      exact hnone.imp_left fun hempty => by rw [hempty]; rfl
    rw [binarySearchByTimestamp, if_pos hsize] at h
    exact ⟨(some.inj h).symm, hnone⟩
  · right
    obtain ⟨hne, hzero⟩ := not_or.mp hnone
    obtain ⟨position, hreturns, rfl⟩ :=
      (exists_binarySearchByTimestamp log timestamp hne hzero).mp ⟨fuel, h⟩
    obtain ⟨hlt, hposition⟩ := covers_of_returns hordered hne hreturns
    exact ⟨position, hlt, rfl, hzero, hposition⟩

/-- The segments from the one that is found on. -/
theorem getByAfterTimestamp_cases (hsize : 40 * log.index.length < 2 ^ 63)
    (hordered : ∀ descriptor ∈ log.index, descriptor.min ≤ descriptor.max) {fuel : Nat}
    {outcome : Option OplogSegmentAfterTimestampsSearchResult}
    (h : (ofLog log).getByAfterTimestamp timestamp fuel = some outcome) :
    ∃ position, outcome = some ⟨log.index.drop position, 40 * position⟩ ∧
      (position = 0 ∨
        position < log.index.length ∧ (log.readIndexAt position).Covers timestamp) := by
  obtain ⟨searchResult, hsearch, hread⟩ := map_eq_some_iff.mp h
  rcases binarySearchByTimestamp_cases hordered hsearch with
    ⟨rfl, -⟩ | ⟨position, hlt, rfl, -, hposition⟩
  · have hall := readAllIndexFrom_ofLog log hsize (Nat.zero_le _)
    dsimp only at hread
    rw [if_neg (by decide), ← Nat.mul_zero 40, hall] at hread
    exact ⟨0, hread.symm, .inl rfl⟩
  · have hfrom := readAllIndexFrom_ofLog log hsize (Nat.le_of_lt hlt)
    dsimp only at hread
    rw [if_pos rfl, hfrom] at hread
    exact ⟨position, hread.symm, hposition.imp And.left fun hcovers => ⟨hlt, hcovers⟩⟩

end queries

/-- A search that ends misses no segment when no segment in front of one that spans over the
    timestamp holds later operations. -/
theorem getByAfterTimestamp_missesNoSegment (env : LogEnvironment)
    (batches : List (List OperationBody)) (segment : OplogIndexSegment)
    (hsaved : Run.run (saveBatch env) batches created = some segment)
    (hsize : 40 * batches.length < 2 ^ 63) (timestamp : UInt64)
    (hearlier : ∀ i operations, (batches.map (operationsOf env))[i]? = some operations →
      SpansOver operations timestamp →
      ∀ earlier ∈ (batches.map (operationsOf env)).take i, ∀ op ∈ earlier,
        op.timestamp ≤ timestamp)
    (fuel : Nat) (outcome : Option OplogSegmentAfterTimestampsSearchResult)
    (hsearch : segment.getByAfterTimestamp timestamp fuel = some outcome) :
    ∃ result, outcome = some result ∧
      MissesNoSegment segment (batches.map (operationsOf env)) timestamp result := by
  rw [created_eq] at hsaved
  obtain ⟨log, added, rfl, hindex, hdescribes⟩ := run_saveBatch env hsaved
  rw [show SingleOperationLog.empty.index = [] from rfl, nil_append] at hindex
  subst hindex
  have hlength := hdescribes.length_eq
  rw [length_map] at hlength
  obtain ⟨position, rfl, hposition⟩ :=
    getByAfterTimestamp_cases (by omega) (describes_ordered hdescribes) hsearch
  refine ⟨_, rfl, ?_⟩
  intro i operations hoperations ⟨op, hop, hlater⟩
  obtain ⟨descriptor, hdescriptor, -⟩ := describes_getElem? hdescribes hoperations
  rw [readAllIndex_ofLog]
  refine ⟨descriptor, hdescriptor, ?_⟩
  -- the segment is not in front of the one that was found
  have hle : position ≤ i := by
    by_contra hlt
    rcases hposition with rfl | ⟨hposition, hcovers⟩
    · omega
    · obtain ⟨found, hfound⟩ : ∃ found,
          (batches.map (operationsOf env))[position]? = some found :=
        ⟨_, getElem?_eq_getElem (by rw [length_map]; omega)⟩
      obtain ⟨descriptor', hdescriptor', hdescribes'⟩ := describes_getElem? hdescribes hfound
      rw [readIndexAt_of_getElem? hdescriptor'] at hcovers
      have hspans : SpansOver found timestamp := by
        obtain ⟨first, hfirst, hmin⟩ := hdescribes'.min
        obtain ⟨last, hlast, hmax⟩ := hdescribes'.max
        exact ⟨⟨first, hfirst, hmin ▸ hcovers.1⟩, ⟨last, hlast, hmax ▸ hcovers.2⟩⟩
      have hfront : operations ∈ (batches.map (operationsOf env)).take position :=
        mem_of_getElem? ((getElem?_take_of_lt (Nat.lt_of_not_le hlt)).trans hoperations)
      have hle := hearlier position found hfound hspans operations hfront op hop
      exact absurd hlater (UInt64.not_lt.mpr hle)
  have hdrop : (log.index.drop position)[i - position]? = some descriptor := by
    rw [getElem?_drop, Nat.add_sub_cancel' hle]
    exact hdescriptor
  exact mem_of_getElem? hdrop

/-! ### Segments of one operation -/

section sets
open OperationLogSerializer

/-- A log with one more segment, which holds a `SET`. -/
def withSet (log : SingleOperationLog) (timestamp : UInt64) : SingleOperationLog :=
  { log with
    index := log.index ++ [⟨timestamp, timestamp, UInt64.ofNat log.data.length, 0, 23, 23, 0⟩]
    data := log.data ++ recordBytes (setOfA timestamp) }

/-- Two segments in order, and the timestamp of the second. -/
theorem missesNoSegment_in_order :
    ∃ result, (ofLog ([1, 5].foldl withSet .empty)).getByAfterTimestamp 5 2 = some (some result) ∧
      MissesNoSegment (ofLog ([1, 5].foldl withSet .empty))
        ([[setOfA 1], [setOfA 5]].map (operationsOf plainEnvironment)) 5 result := by
  have hcontents : [[setOfA 1], [setOfA 5]].map (operationsOf plainEnvironment) =
      [[setOfA 1], [setOfA 5]] := by
    decide +kernel
  have hsearch : (ofLog ([1, 5].foldl withSet .empty)).getByAfterTimestamp 5 2 =
      some (some ⟨([1, 5].foldl withSet .empty).index.drop 1, 40 * 1⟩) := by
    decide +kernel
  obtain ⟨result, hresult, hmisses⟩ := getByAfterTimestamp_missesNoSegment plainEnvironment
    [[setOfA 1], [setOfA 5]] (ofLog ([1, 5].foldl withSet .empty)) (by decide +kernel) (by decide) 5
    (by
      rw [hcontents]
      intro i operations hoperations _ earlier hearlier op hop
      -- the only segment that has another one in front of it is the second
      have hle : ∀ earlier ∈ [[setOfA 1], [setOfA 5]].take 1, ∀ op ∈ earlier, op.timestamp ≤ 5 := by
        decide
      rcases i with _ | _ | i
      · cases hearlier
      · exact hle earlier hearlier op hop
      · cases hoperations) 2 _ hsearch
  exact ⟨result, hresult ▸ hsearch, hmisses⟩

/-- Segments whose timestamps go backwards: the first one is missed. -/
theorem missesSegment_out_of_order :
    Run.run (saveBatch plainEnvironment) [[setOfA 10], [setOfA 1], [setOfA 5]] created =
        some (ofLog ([10, 1, 5].foldl withSet .empty)) ∧
      ∃ result, (ofLog ([10, 1, 5].foldl withSet .empty)).getByAfterTimestamp 5 2 =
          some (some result) ∧
        ¬ MissesNoSegment (ofLog ([10, 1, 5].foldl withSet .empty))
          ([[setOfA 10], [setOfA 1], [setOfA 5]].map (operationsOf plainEnvironment)) 5 result := by
  refine ⟨by decide +kernel, ⟨([10, 1, 5].foldl withSet .empty).index.drop 2, 40 * 2⟩,
    by decide +kernel, ?_⟩
  intro hmisses
  have hcontents : [[setOfA 10], [setOfA 1], [setOfA 5]].map (operationsOf plainEnvironment) =
      [[setOfA 10], [setOfA 1], [setOfA 5]] := by
    decide +kernel
  rw [hcontents] at hmisses
  obtain ⟨descriptor, hdescriptor, hmem⟩ :=
    hmisses 0 [setOfA 10] rfl ⟨setOfA 10, by decide, by decide⟩
  rw [readAllIndex_ofLog] at hdescriptor
  cases hdescriptor
  revert hmem
  decide

end sets

/-! ### Segments between two timestamps -/

/-- The timestamp is in the interval that is asked for. -/
def InInterval (fromTimestamp toTimestamp timestamp : UInt64) : Prop :=
  fromTimestamp ≤ timestamp ∧ timestamp ≤ toTimestamp

/-- Every operation in the interval is in a block that the result selects: in a segment whose
    descriptor it holds, or in the intermediate file when it says so. -/
def CoversInterval (descriptors : List OplogIndexSegmentDescriptor)
    (contents : List (List OperationBody)) (intermediate : List OperationBody)
    (fromTimestamp toTimestamp : UInt64) (result : OplogSegmentBetweenTimestampsSearchResult) :
    Prop :=
  (∀ (i : Nat) (operations : List OperationBody), contents[i]? = some operations →
    (∃ op ∈ operations, InInterval fromTimestamp toTimestamp op.timestamp) →
    ∃ descriptor, descriptors[i]? = some descriptor ∧ descriptor ∈ result.descriptors) ∧
  ∀ op ∈ intermediate, InInterval fromTimestamp toTimestamp op.timestamp →
    result.resultsOnlyInIntermediate = true ∨ result.resultsInDescriptorsAndIntermediate = true

section between
variable {log : SingleOperationLog} {fromTimestamp toTimestamp : UInt64}

/-- Where a search among sorted segments has ended. -/
def EndsAt (log : SingleOperationLog) (timestamp : UInt64) (position : Nat) : Prop :=
  position = 0 ∧ timestamp < (log.readIndexAt 0).min ∨ (log.readIndexAt position).Covers timestamp

section sorted
variable (hsorted : SortedDisjoint log.index)
include hsorted

section
variable {position i : Nat} {searched timestamp : UInt64} (h : EndsAt log searched position)
include h

/-- Segments with a timestamp of at least the one that was searched are not in front of where it
    ended. -/
theorem EndsAt.le (hposition : position < log.index.length) (hle : searched ≤ timestamp)
    (hcovers : timestamp ≤ (log.readIndexAt i).max) : position ≤ i := by
  by_contra hlt
  rcases h with ⟨rfl, -⟩ | ⟨hmin, -⟩
  · omega
  · have hnext := lt_of_sorted hsorted (Nat.lt_of_not_le hlt) hposition
    simp only [lt_iff_toNat_lt, le_iff_toNat_le] at hle hcovers hmin hnext
    omega

/-- And those with a timestamp of at most it are not behind. -/
theorem EndsAt.ge (hi : i < log.index.length) (hle : timestamp ≤ searched)
    (hcovers : (log.readIndexAt i).min ≤ timestamp) : i ≤ position := by
  by_contra hlt
  rcases h with ⟨-, hbelow⟩ | ⟨-, hmax⟩
  · have hmin := lt_of_below hsorted hbelow hi
    simp only [lt_iff_toNat_lt, le_iff_toNat_le] at hle hcovers hmin
    omega
  · have hnext := lt_of_sorted hsorted (Nat.lt_of_not_le hlt) hi
    simp only [lt_iff_toNat_lt, le_iff_toNat_le] at hle hcovers hmax hnext
    omega

end

/-- Both searches end where they have to. -/
theorem EndsAt.trans {first last : Nat} (hfirst : EndsAt log fromTimestamp first)
    (hlast : EndsAt log toTimestamp last) (hlt : first < log.index.length)
    (hle : fromTimestamp ≤ toTimestamp) : first ≤ last := by
  rcases hfirst with ⟨rfl, -⟩ | hcovers
  · exact Nat.zero_le _
  · exact hlast.ge hsorted hlt hle hcovers.1

end sorted

/-- The descriptors from one to another. -/
theorem mem_between {descriptors : List OplogIndexSegmentDescriptor} {first last i : Nat}
    {descriptor : OplogIndexSegmentDescriptor} (h : descriptors[i]? = some descriptor)
    (hfirst : first ≤ i) (hlast : i ≤ last) :
    descriptor ∈ (descriptors.drop first).take (last + 1 - first) := by
  have hat : ((descriptors.drop first).take (last + 1 - first))[i - first]? = some descriptor := by
    rw [getElem?_take_of_lt (by omega), getElem?_drop, Nat.add_sub_cancel' hfirst]
    exact h
  exact mem_of_getElem? hat

section selected
variable {contents : List (List OperationBody)} {intermediate : List OperationBody}

/-- Where nothing is found only the intermediate file is read, and a segment must not matter. -/
theorem coversInterval_intermediate_iff :
    CoversInterval log.index contents intermediate fromTimestamp toTimestamp
        ⟨false, true, false, 0, []⟩ ↔
      ∀ operations ∈ contents, ∀ op ∈ operations,
        ¬ InInterval fromTimestamp toTimestamp op.timestamp := by
  constructor
  · intro ⟨hsegments, _⟩ operations hoperations op hop hinterval
    obtain ⟨i, hi⟩ := mem_iff_getElem?.mp hoperations
    obtain ⟨_, _, hmem⟩ := hsegments i operations hi ⟨op, hop, hinterval⟩
    cases hmem
  · intro hnone
    refine ⟨fun i operations hi ⟨op, hop, hinterval⟩ => ?_, fun _ _ _ => .inl rfl⟩
    exact absurd hinterval (hnone operations (mem_of_getElem? hi) op hop)

/-- Where both ends are found the segments are covered, and the intermediate file is left out. -/
theorem coversInterval_found_iff
    (hcontents : Forall₂ (fun descriptor operations => ∀ op ∈ operations,
      descriptor.Covers op.timestamp) log.index contents) (hsorted : SortedDisjoint log.index)
        {first last offset : Nat}
    (hfirst : first < log.index.length) (hfrom : EndsAt log fromTimestamp first)
    (hto : EndsAt log toTimestamp last) :
    CoversInterval log.index contents intermediate fromTimestamp toTimestamp
        ⟨false, false, true, offset, (log.index.drop first).take (last + 1 - first)⟩ ↔
      ∀ op ∈ intermediate, ¬ InInterval fromTimestamp toTimestamp op.timestamp := by
  constructor
  · intro ⟨_, hintermediate⟩ op hop hinterval
    rcases hintermediate op hop hinterval with h | h <;> cases h
  · intro hnone
    refine ⟨?_, fun op hop hinterval => absurd hinterval (hnone op hop)⟩
    intro i operations hi ⟨op, hop, hinterval⟩
    obtain ⟨descriptor, hdescriptor, hcovers⟩ := describes_getElem? hcontents hi
    have hread := readIndexAt_of_getElem? hdescriptor
    have hlength : i < log.index.length := (List.getElem?_eq_some_iff.mp hdescriptor).1
    have hcovers := hcovers op hop
    rw [← hread] at hcovers
    -- the segment is between the ends, because its range meets the interval
    have hge : first ≤ i := hfrom.le hsorted hfirst hinterval.1 hcovers.2
    have hle : i ≤ last := hto.ge hsorted hlength hinterval.2 hcovers.1
    exact ⟨descriptor, hdescriptor, mem_between hdescriptor hge hle⟩

end selected

/-- Among sorted segments the blocks that are selected cover the interval exactly where there are no
    segments, where both ends are found and no operation of the intermediate file is asked for, and
    where the interval is zero and no segment holds a zero. -/
theorem getBetweenTimestamps_covers_iff (log : SingleOperationLog)
    (hsize : 40 * log.index.length < 2 ^ 63) (hsorted : SortedDisjoint log.index)
    (contents : List (List OperationBody))
    (hcontents : Forall₂ (fun descriptor operations => ∀ op ∈ operations,
      descriptor.Covers op.timestamp) log.index contents)
    (intermediate : List OperationBody) (fromTimestamp toTimestamp : UInt64)
    (hle : fromTimestamp ≤ toTimestamp) (fuel : Nat)
    (outcome : Option OplogSegmentBetweenTimestampsSearchResult)
    (hsearch : (ofLog log).getBetweenTimestamps fromTimestamp toTimestamp fuel = some outcome) :
    (∃ result, outcome = some result ∧
      CoversInterval log.index contents intermediate fromTimestamp toTimestamp result) ↔
    log.index = [] ∨
      (fromTimestamp ≠ 0 ∧
        ∀ op ∈ intermediate, ¬ InInterval fromTimestamp toTimestamp op.timestamp) ∨
      (fromTimestamp = 0 ∧ toTimestamp = 0 ∧
        ∀ operations ∈ contents, ∀ op ∈ operations, op.timestamp ≠ 0) := by
  simp only [getBetweenTimestamps, bind_eq_bind, bind_eq_some_iff] at hsearch
  obtain ⟨fromResult, hfrom, toResult, hto, houtcome⟩ := hsearch
  cases houtcome
  rcases binarySearchByTimestamp_cases hsorted.ordered hfrom with
    ⟨rfl, hnone⟩ | ⟨first, hfirst, rfl, hfromZero, hends⟩
  · rcases binarySearchByTimestamp_cases hsorted.ordered hto with
      ⟨rfl, hnone'⟩ | ⟨last, hlast, rfl, htoZero, _⟩
    · -- neither end is found
      rw [show (ofLog log).betweenSearchResults ⟨false, 0⟩ ⟨false, 0⟩ =
        some ⟨false, true, false, 0, []⟩ from rfl]
      simp only [some.injEq, exists_eq_left']
      rw [coversInterval_intermediate_iff]
      by_cases hempty : log.index = []
      · rw [hempty] at hcontents
        obtain rfl := forall₂_nil_left_iff.mp hcontents
        simp [hempty]
      · obtain rfl := hnone.resolve_left hempty
        obtain rfl := hnone'.resolve_left hempty
        simp [hempty, InInterval]
    · -- only the second end is found, which is the exception
      have hne : log.index ≠ [] := ne_nil_of_length_pos (Nat.zero_lt_of_lt hlast)
      obtain rfl := hnone.resolve_left hne
      rw [show (ofLog log).betweenSearchResults ⟨false, 0⟩ ⟨true, 40 * last⟩ = none from rfl]
      simp [hne, htoZero]
  · have hne : log.index ≠ [] := ne_nil_of_length_pos (Nat.zero_lt_of_lt hfirst)
    rcases binarySearchByTimestamp_cases hsorted.ordered hto with
      ⟨rfl, hnone'⟩ | ⟨last, hlast, rfl, _, hends'⟩
    · -- the second end is not zero, because the first is not
      obtain rfl := hnone'.resolve_left hne
      exact absurd (UInt64.le_zero_iff.mp hle) hfromZero
    · have hread := readAllIndexBetween_ofLog log hsize
        (EndsAt.trans hsorted hends hends' hfirst hle) hlast
      rw [show (ofLog log).betweenSearchResults ⟨true, 40 * first⟩ ⟨true, 40 * last⟩ =
        ((ofLog log).readAllIndexBetween (40 * first) (40 * last)).map fun descriptors =>
          ⟨false, false, true, 40 * first, descriptors⟩ from rfl, hread]
      simp only [map_some, some.injEq, exists_eq_left']
      rw [coversInterval_found_iff hcontents hsorted hfirst hends hends']
      simp [hne, hfromZero]

/-- Three segments, of which the interval meets the first two, and nothing in the intermediate
    file. -/
theorem coversInterval_first_two :
    ∃ result, (ofLog (logOfRanges [(1, 2), (5, 6), (9, 9)])).getBetweenTimestamps 2 5 2 =
        some (some result) ∧
      CoversInterval (logOfRanges [(1, 2), (5, 6), (9, 9)]).index
        [[setOfA 1, setOfA 2], [setOfA 5, setOfA 6], [setOfA 9]] [] 2 5 result := by
  have hsearch : (ofLog (logOfRanges [(1, 2), (5, 6), (9, 9)])).getBetweenTimestamps 2 5 2 =
      some ((ofLog (logOfRanges [(1, 2), (5, 6), (9, 9)])).betweenSearchResults
        ⟨true, 40 * 0⟩ ⟨true, 40 * 1⟩) := by
    decide +kernel
  have hcovers :=
    (getBetweenTimestamps_covers_iff (logOfRanges [(1, 2), (5, 6), (9, 9)]) (by decide)
    ⟨by decide, by decide⟩ [[setOfA 1, setOfA 2], [setOfA 5, setOfA 6], [setOfA 9]]
    (.cons (by decide) (.cons (by decide) (.cons (by decide) .nil))) [] 2 5 (by decide) 2 _
    hsearch).mpr (.inr (.inl ⟨by decide, by simp⟩))
  obtain ⟨result, hresult, hcovers⟩ := hcovers
  exact ⟨result, hresult ▸ hsearch, hcovers⟩

/-- One segment that begins at zero: to ask for its range is an exception. -/
theorem getBetweenTimestamps_throws_from_zero :
    SortedDisjoint (logOfRanges [(0, 5)]).index ∧
      (∀ op ∈ [setOfA 0, setOfA 5], (rangeOf 0 5).Covers op.timestamp) ∧
      (ofLog (logOfRanges [(0, 5)])).getBetweenTimestamps 0 5 1 = some none := by
  exact ⟨⟨by decide, by decide⟩, by decide, by decide +kernel⟩

end between

end OplogIndexSegment

end MemDb
