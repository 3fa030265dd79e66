import MemDb.Persistence.OplogIndexSegment
import Mathlib.Data.Nat.Find

/-! # Searching a timestamp among the segments

    `binarySearchByTimestamp` bisects the index file. A probe that lies below the timestamp becomes
    the lower end of the range itself, so that a range of one descriptor is probed again and again:
    the search ends exactly where a segment has the timestamp in its range, or all of them lie above
    it. It never reads outside the file, whether it ends or not.
-/

namespace MemDb

open Lib SingleOperationLog Nat Option UInt64
open List hiding get

/-- The timestamp lies in the range of the segment. -/
def OplogIndexSegmentDescriptor.Covers (descriptor : OplogIndexSegmentDescriptor)
    (timestamp : UInt64) : Prop :=
  descriptor.min ≤ timestamp ∧ timestamp ≤ descriptor.max

instance (descriptor : OplogIndexSegmentDescriptor) (timestamp : UInt64) :
    Decidable (descriptor.Covers timestamp) :=
  inferInstanceAs (Decidable (_ ∧ _))

/-- Every segment ends below those behind it. -/
structure SortedDisjoint (descriptors : List OplogIndexSegmentDescriptor) : Prop where
  ordered : ∀ descriptor ∈ descriptors, descriptor.min ≤ descriptor.max
  disjoint : descriptors.Pairwise fun earlier later => earlier.max < later.min

/-! ### The search in terms of positions -/

namespace SearchState

/-- Positions of descriptors as offsets in the file. -/
def offsets (state : SearchState) : SearchState :=
  ⟨40 * state.low, 40 * state.high, 40 * state.actual⟩

theorem middle_bounds {low high : Nat} (h : low < high) :
    low ≤ middle low high ∧ middle low high < high := by
  unfold middle
  split
  · omega
  · split <;> omega

theorem low_lt_middle {low high : Nat} (h : low + 1 < high) : low < middle low high := by
  unfold middle
  rw [if_neg (by omega)]
  split <;> omega

theorem middle_self (low : Nat) : middle low low = low := by
  simp [middle]

/-- The range and the probe lie inside the file. -/
structure Inside (nDescriptors : Nat) (state : SearchState) : Prop where
  low_le : state.low ≤ state.actual
  lt_high : state.actual < state.high ∨ state.high = state.low ∧ state.actual = state.low
  high_le : state.high ≤ nDescriptors
  actual_lt : state.actual < nDescriptors

variable {nDescriptors : Nat}

theorem inside_start (h : 0 < nDescriptors) :
    (start nDescriptors).Inside nDescriptors := by
  unfold start
  constructor
  · exact zero_le _
  · left
    dsimp only
    split <;> omega
  · exact le_refl _
  · dsimp only
    split <;> omega

/-- Both halves of a range that is not empty are inside. -/
theorem Inside.upper {state : SearchState} (h : state.Inside nDescriptors)
    (hrange : state.high ≠ state.low) :
    (SearchState.mk state.actual state.high (middle state.actual state.high)).Inside
      nDescriptors := by
  have hactual : state.actual < state.high := h.lt_high.resolve_right fun hempty => hrange hempty.1
  obtain ⟨hge, hlt⟩ := middle_bounds hactual
  exact ⟨hge, .inl hlt, h.high_le, lt_of_lt_of_le hlt h.high_le⟩

theorem Inside.lower {state : SearchState} (h : state.Inside nDescriptors) :
    (SearchState.mk state.low state.actual (middle state.low state.actual)).Inside
      nDescriptors := by
  have hle := h.low_le
  have hlt := h.actual_lt
  by_cases heq : state.low = state.actual
  · -- nothing is left of the range
    rw [← heq, middle_self]
    exact ⟨le_refl _, .inr ⟨rfl, rfl⟩, by dsimp only; omega, by dsimp only; omega⟩
  · obtain ⟨hge, hmiddle⟩ := middle_bounds (by omega : state.low < state.actual)
    exact ⟨hge, .inl hmiddle, by dsimp only; omega, by dsimp only; omega⟩

/-- How far the search is from its end: the width of the range, and whether its lower end is
    probed. -/
def width (state : SearchState) : Nat :=
  2 * (state.high - state.low) + if state.actual = state.low then 1 else 0

theorem width_bounds (state : SearchState) :
    2 * (state.high - state.low) ≤ state.width ∧
      state.width ≤ 2 * (state.high - state.low) + 1 := by
  unfold width
  split <;> omega

end SearchState

namespace SingleOperationLog

open SearchState

section order
variable {log : SingleOperationLog} {timestamp : UInt64}

theorem readIndexAt_of_getElem? {i : Nat} {descriptor : OplogIndexSegmentDescriptor}
    (h : log.index[i]? = some descriptor) : log.readIndexAt i = descriptor := by
  rw [readIndexAt, h, getD_some]

theorem readIndexAt_mem {i : Nat} (h : i < log.index.length) : log.readIndexAt i ∈ log.index := by
  rw [readIndexAt_of_getElem? (getElem?_eq_getElem h)]
  exact getElem_mem h

end order

/-! ### Where the search goes -/

/-- What a pass can do: go on in the upper or the lower part of the range, or end. -/
inductive Pass (log : SingleOperationLog) (timestamp : UInt64) (state : SearchState) :
    SearchState ⊕ Nat → Prop
  | upper (hrange : state.high ≠ state.low)
    (hmax : (log.readIndexAt state.actual).max < timestamp) :
    Pass log timestamp state (.inl ⟨state.actual, state.high, middle state.actual state.high⟩)
  | lower (hrange : state.high ≠ state.low)
    (hmin : timestamp < (log.readIndexAt state.actual).min) :
    Pass log timestamp state (.inl ⟨state.low, state.actual, middle state.low state.actual⟩)
  | leave (hexit : state.high = state.low ∨ (log.readIndexAt state.actual).Covers timestamp) :
    Pass log timestamp state (.inr state.actual)

section invariants
variable {log : SingleOperationLog} {timestamp : UInt64}
  (hordered : ∀ descriptor ∈ log.index, descriptor.min ≤ descriptor.max)
include hordered

/-- A pass whose probe lies inside the file, where no range of a segment is turned around. -/
theorem pass_of_searchStep {state : SearchState} (hinside : state.Inside log.index.length)
    {outcome : SearchState ⊕ Nat} (hstep : log.searchStep timestamp state = outcome) :
    Pass log timestamp state outcome := by
  have hprobed := hordered _ (readIndexAt_mem hinside.actual_lt)
  rw [← hstep]
  unfold searchStep
  by_cases hrange : state.high = state.low
  · have hleave : Pass log timestamp state (.inr state.actual) := .leave (.inl hrange)
    simpa [hrange] using hleave
  · simp only [lt_iff_toNat_lt, le_iff_toNat_le] at hprobed ⊢
    by_cases hhigher : (log.readIndexAt state.actual).max.toNat < timestamp.toNat
    · have hmin : (log.readIndexAt state.actual).min.toNat < timestamp.toNat := by omega
      simpa [hrange, hhigher, hmin] using Pass.upper hrange (lt_iff_toNat_lt.mpr hhigher)
    · by_cases hlower : timestamp.toNat < (log.readIndexAt state.actual).min.toNat
      · have hmax : timestamp.toNat < (log.readIndexAt state.actual).max.toNat := by omega
        simpa [hrange, hhigher, hlower, hmax] using
          Pass.lower hrange (lt_iff_toNat_lt.mpr hlower)
      · simpa [hrange, hhigher, hlower] using Pass.leave (.inr
          ⟨le_iff_toNat_le.mpr (by omega), le_iff_toNat_le.mpr (by omega)⟩)

/-- No pass leaves the file. -/
theorem inside_searchStep (state next : SearchState) (hinside : state.Inside log.index.length)
    (hstep : log.searchStep timestamp state = .inl next) : next.Inside log.index.length := by
  cases pass_of_searchStep hordered hinside hstep with
  | upper hrange _ => exact hinside.upper hrange
  | lower _ _ => exact hinside.lower

/-- A pass narrows the range, or has moved the probe away from its lower end; only a range of one
    descriptor below the timestamp stays as it is. -/
theorem width_searchStep {state next : SearchState} (hinside : state.Inside log.index.length)
    (hstuck : ¬ (state.high = state.low + 1 ∧ (log.readIndexAt state.low).max < timestamp))
    (hstep : log.searchStep timestamp state = .inl next) : next.width < state.width := by
  have hlow := hinside.low_le
  have hbefore := state.width_bounds
  have hafter := next.width_bounds
  cases pass_of_searchStep hordered hinside hstep with
  | upper hrange hmax =>
    have hhigh := hinside.lt_high.resolve_right fun hempty => hrange hempty.1
    by_cases hactual : state.actual = state.low
    · -- the lower end is probed; the next probe is another one
      have hwide : state.low + 1 < state.high := by
        rw [hactual] at hmax hhigh
        rcases lt_or_ge (state.low + 1) state.high with hwide | hnarrow
        · exact hwide
        · exact absurd ⟨by omega, hmax⟩ hstuck
      have hmiddle := low_lt_middle hwide
      unfold width
      dsimp only
      rw [hactual, if_neg (by omega), if_pos rfl]
      omega
    · dsimp only at hafter
      omega
  | lower hrange _ =>
    have hhigh := hinside.lt_high.resolve_right fun hempty => hrange hempty.1
    dsimp only at hafter
    omega

end invariants

/-! ### Where the search ends -/

/-- Segments below the timestamp are at `position` or before it, and segments above it behind it. -/
structure Splits (log : SingleOperationLog) (timestamp : UInt64) (position : Nat) : Prop where
  below : ∀ probe < log.index.length, (log.readIndexAt probe).max < timestamp → probe ≤ position
  above : ∀ probe < log.index.length, timestamp < (log.readIndexAt probe).min → position < probe

/-- The range of the search is inside the file, with a position in it. -/
structure Around (log : SingleOperationLog) (position : Nat) (state : SearchState) : Prop where
  inside : state.Inside log.index.length
  low_le : state.low ≤ position
  lt_high : position < state.high

variable {log : SingleOperationLog} {position : Nat} {timestamp : UInt64}

theorem around_start (h : position < log.index.length) :
    Around log position (start log.index.length) :=
  ⟨inside_start (zero_lt_of_lt h), zero_le _, h⟩

theorem Around.searchStep (hordered : ∀ descriptor ∈ log.index, descriptor.min ≤ descriptor.max)
    (hsplits : Splits log timestamp position) {state next : SearchState}
    (haround : Around log position state) (hstep : log.searchStep timestamp state = .inl next) :
    Around log position next := by
  have hinside := inside_searchStep hordered state next haround.inside hstep
  have hactual := haround.inside.actual_lt
  cases pass_of_searchStep hordered haround.inside hstep with
  | upper _ hmax => exact ⟨hinside, hsplits.below _ hactual hmax, haround.lt_high⟩
  | lower _ hmin => exact ⟨hinside, haround.low_le, hsplits.above _ hactual hmin⟩

/-- What has been probed of the ends of the range, in whatever order the segments are. -/
structure Probed (log : SingleOperationLog) (timestamp : UInt64) (state : SearchState) : Prop where
  inside : state.Inside log.index.length
  low : state.low = 0 ∨ (log.readIndexAt state.low).max < timestamp
  high : state.high = log.index.length ∨ timestamp < (log.readIndexAt state.high).min

section
variable (hordered : ∀ descriptor ∈ log.index, descriptor.min ≤ descriptor.max)
include hordered

theorem Probed.searchStep {state next : SearchState} (hprobed : Probed log timestamp state)
    (hstep : log.searchStep timestamp state = .inl next) : Probed log timestamp next := by
  have hinside := inside_searchStep hordered state next hprobed.inside hstep
  cases pass_of_searchStep hordered hprobed.inside hstep with
  | upper _ hmax => exact ⟨hinside, .inr hmax, hprobed.high⟩
  | lower _ hmin => exact ⟨hinside, hprobed.low, .inr hmin⟩

/-- What the search ends at has the timestamp in its range, or is the first segment and lies above
    it. -/
theorem covers_of_returns (hne : log.index ≠ [])
    (h : Loop.Returns (log.searchStep timestamp) (start log.index.length) position) :
    position < log.index.length ∧
      (position = 0 ∧ timestamp < (log.readIndexAt 0).min ∨
        (log.readIndexAt position).Covers timestamp) := by
  have hstart : Probed log timestamp (start log.index.length) :=
    ⟨inside_start (length_pos_iff.mpr hne), .inl rfl, .inl rfl⟩
  obtain ⟨last, hlast, hleave⟩ := h.invariant
    (fun state next hprobed hstep => hprobed.searchStep hordered hstep) hstart
  have hinside := hlast.inside
  cases pass_of_searchStep hordered hinside hleave with
  | leave hexit =>
    refine ⟨hinside.actual_lt, ?_⟩
    rcases hexit with hempty | hcovers
    · -- the range has become empty at its lower end, which has not been probed unless it is
      -- the first
      have hlow := hinside.low_le
      have hlt := hinside.actual_lt
      have hactual : last.actual = last.low := by
        rcases hinside.lt_high with hhigh | ⟨-, hactual⟩
        · omega
        · exact hactual
      have hmin := hlast.high.resolve_left (by omega)
      have hordered' := hordered _ (readIndexAt_mem hlt)
      rw [hempty, ← hactual] at hmin
      rcases hlast.low with hzero | hmax
      · rw [hactual, hzero] at hmin ⊢
        exact .inl ⟨rfl, hmin⟩
      · rw [← hactual] at hmax
        simp only [lt_iff_toNat_lt, le_iff_toNat_le] at hmin hmax hordered'
        omega
    · exact .inr hcovers

end

section sorted
variable {log : SingleOperationLog} {timestamp : UInt64} (hsorted : SortedDisjoint log.index)
include hsorted

theorem lt_of_sorted {i j : Nat} (hij : i < j) (hj : j < log.index.length) :
    (log.readIndexAt i).max < (log.readIndexAt j).min := by
  rw [readIndexAt_of_getElem? (getElem?_eq_getElem hj),
    readIndexAt_of_getElem? (getElem?_eq_getElem (lt_trans hij hj))]
  exact pairwise_iff_getElem.mp hsorted.disjoint i j (lt_trans hij hj) hj hij

variable {position : Nat}

/-- The segment with the timestamp in its range. -/
theorem splits_of_covers (hposition : position < log.index.length)
    (hcovers : (log.readIndexAt position).Covers timestamp) : Splits log timestamp position := by
  obtain ⟨hmin, hmax⟩ := hcovers
  simp only [le_iff_toNat_le] at hmin hmax
  constructor
  · intro probe hprobe hlt
    by_contra hgt
    have hnext := lt_of_sorted hsorted (Nat.lt_of_not_le hgt) hprobe
    have hordered := hsorted.ordered _ (readIndexAt_mem hprobe)
    simp only [lt_iff_toNat_lt, le_iff_toNat_le] at hlt hnext hordered
    omega
  · intro probe hprobe hlt
    by_contra hle
    rw [lt_iff_toNat_lt] at hlt
    rcases Nat.lt_or_eq_of_le (Nat.le_of_not_lt hle) with hbefore | rfl
    · have hnext := lt_of_sorted hsorted hbefore hposition
      have hordered := hsorted.ordered _ (readIndexAt_mem hprobe)
      simp only [lt_iff_toNat_lt, le_iff_toNat_le] at hnext hordered
      omega
    · omega

/-- The last segment below the timestamp. -/
theorem splits_of_gap (hposition : position < log.index.length)
    (hbelow : (log.readIndexAt position).max < timestamp)
    (habove : ∀ next < log.index.length, position < next →
      ¬ (log.readIndexAt next).max < timestamp) : Splits log timestamp position := by
  constructor
  · intro probe hprobe hlt
    by_contra hgt
    exact habove probe hprobe (Nat.lt_of_not_le hgt) hlt
  · intro probe hprobe hlt
    by_contra hle
    rw [lt_iff_toNat_lt] at hlt hbelow
    have hordered := hsorted.ordered _ (readIndexAt_mem hprobe)
    rcases Nat.lt_or_eq_of_le (Nat.le_of_not_lt hle) with hbefore | rfl
    · have hnext := lt_of_sorted hsorted hbefore hposition
      have hordered' := hsorted.ordered _ (readIndexAt_mem hposition)
      simp only [lt_iff_toNat_lt, le_iff_toNat_le] at hnext hordered hordered'
      omega
    · rw [le_iff_toNat_le] at hordered
      omega

/-- At most one segment has the timestamp in its range. -/
theorem covers_unique {i j : Nat} (hi : i < log.index.length) (hj : j < log.index.length)
    (hcovers : (log.readIndexAt i).Covers timestamp)
    (hcovers' : (log.readIndexAt j).Covers timestamp) : i = j := by
  obtain ⟨hmin, hmax⟩ := hcovers
  obtain ⟨hmin', hmax'⟩ := hcovers'
  simp only [le_iff_toNat_le] at hmin hmax hmin' hmax'
  rcases lt_trichotomy i j with hlt | rfl | hgt
  · have hnext := lt_iff_toNat_lt.mp (lt_of_sorted hsorted hlt hj)
    omega
  · rfl
  · have hnext := lt_iff_toNat_lt.mp (lt_of_sorted hsorted hgt hi)
    omega

/-- A segment with the timestamp in its range is found. -/
theorem returns_of_covers (hposition : position < log.index.length)
    (hcovers : (log.readIndexAt position).Covers timestamp) :
    Loop.Returns (log.searchStep timestamp) (start log.index.length) position := by
  have hsplits := splits_of_covers hsorted hposition hcovers
  have hstart := around_start hposition
  have hpass :
      ∀ state next, Around log position state → log.searchStep timestamp state = .inl next →
      Around log position next ∧ next.width < state.width := by
    intro state next haround hstep
    refine ⟨haround.searchStep hsorted.ordered hsplits hstep,
      width_searchStep hsorted.ordered haround.inside ?_ hstep⟩
    -- a range of one descriptor would be this one
    intro ⟨hone, hmax⟩
    have hlow := haround.low_le
    have hhigh := haround.lt_high
    obtain rfl : position = state.low := by omega
    exact absurd hmax (UInt64.not_lt.mpr hcovers.2)
  obtain ⟨result, hreturns⟩ :=
    Loop.exists_returns (Around log position) SearchState.width hpass hstart
  obtain ⟨last, hlast, hleave⟩ := hreturns.invariant
    (fun state next haround hstep => (hpass state next haround hstep).1) hstart
  cases pass_of_searchStep hsorted.ordered hlast.inside hleave with
  | leave hexit =>
    have hlow := hlast.low_le
    have hhigh := hlast.lt_high
    have hprobe := hexit.resolve_left (by omega)
    rw [covers_unique hsorted hposition hlast.inside.actual_lt hcovers hprobe]
    exact hreturns

/-- What lies below the first segment lies below all of them. -/
theorem lt_of_below (hbelow : timestamp < (log.readIndexAt 0).min) {probe : Nat}
    (hprobe : probe < log.index.length) : timestamp < (log.readIndexAt probe).min := by
  rcases Nat.eq_zero_or_pos probe with rfl | hpos
  · exact hbelow
  · have hnext := lt_of_sorted hsorted hpos hprobe
    have hordered := hsorted.ordered _ (readIndexAt_mem (zero_lt_of_lt hprobe))
    simp only [lt_iff_toNat_lt, le_iff_toNat_le] at hbelow hnext hordered ⊢
    omega

/-- With all segments above the timestamp the first one is found. -/
theorem returns_of_below (hne : 0 < log.index.length)
    (hbelow : timestamp < (log.readIndexAt 0).min) :
    Loop.Returns (log.searchStep timestamp) (start log.index.length) 0 := by
  -- every block lies above the timestamp, so each pass moves the upper end and none the lower
  have hpass : ∀ state next, state.Inside log.index.length ∧ state.low = 0 →
      log.searchStep timestamp state = .inl next →
      (next.Inside log.index.length ∧ next.low = 0) ∧ next.high < state.high := by
    intro state next ⟨hinside, hlow⟩ hstep
    have hinside' := inside_searchStep hsorted.ordered state next hinside hstep
    have habove := lt_of_below hsorted hbelow hinside.actual_lt
    cases pass_of_searchStep hsorted.ordered hinside hstep with
    | upper _ hmax =>
      have hordered := hsorted.ordered _ (readIndexAt_mem hinside.actual_lt)
      simp only [lt_iff_toNat_lt, le_iff_toNat_le] at habove hmax hordered
      omega
    | lower hrange _ =>
      exact ⟨⟨hinside', hlow⟩, hinside.lt_high.resolve_right fun hempty => hrange hempty.1⟩
  have hstart : (start log.index.length).Inside log.index.length ∧
      (start log.index.length).low = 0 := ⟨inside_start hne, rfl⟩
  obtain ⟨result, hreturns⟩ := Loop.exists_returns _ SearchState.high hpass hstart
  obtain ⟨last, ⟨hinside, hlow⟩, hleave⟩ := hreturns.invariant
    (fun state next hstate hstep => (hpass state next hstate hstep).1) hstart
  have habove := lt_of_below hsorted hbelow hinside.actual_lt
  cases pass_of_searchStep hsorted.ordered hinside hleave with
  | leave hexit =>
    have hempty := hexit.resolve_right fun hcovers => absurd habove (UInt64.not_lt.mpr hcovers.1)
    have hactual : last.actual = 0 := by
      rcases hinside.lt_high with hlt | ⟨-, heq⟩
      · omega
      · exact heq.trans hlow
    rw [hactual] at hreturns
    exact hreturns

/-- Behind a segment below the timestamp the search goes on for ever, unless another one has the
    timestamp in its range. -/
theorem not_returns_of_gap (hne : 0 < log.index.length)
    (hbelow : ¬ timestamp < (log.readIndexAt 0).min)
    (hcovers : ∀ probe < log.index.length, ¬ (log.readIndexAt probe).Covers timestamp)
    (result : Nat) :
    ¬ Loop.Returns (log.searchStep timestamp) (start log.index.length) result := by
  have hfirst : (log.readIndexAt 0).max < timestamp := by
    by_contra hge
    exact hcovers 0 hne ⟨UInt64.not_lt.mp hbelow, UInt64.not_lt.mp hge⟩
  -- the last segment below the timestamp
  obtain ⟨position, hposition, hlast, habove⟩ : ∃ position < log.index.length,
      (log.readIndexAt position).max < timestamp ∧ ∀ next < log.index.length, position < next →
        ¬ (log.readIndexAt next).max < timestamp := by
    let P := fun i => (log.readIndexAt i).max < timestamp
    have hle := findGreatest_le (P := P) (log.index.length - 1)
    have hspec : P (findGreatest P (log.index.length - 1)) :=
      findGreatest_spec (zero_le _) hfirst
    refine ⟨findGreatest P (log.index.length - 1), by omega, hspec, ?_⟩
    intro next hnext hlt
    have hgreatest : ¬ P next := findGreatest_is_greatest hlt (by omega)
    exact hgreatest
  have hsplits := splits_of_gap hsorted hposition hlast habove
  apply Loop.not_returns (Around log position) _ (around_start hposition)
  intro state haround
  have hlow := haround.low_le
  have hhigh := haround.lt_high
  cases hstep : log.searchStep timestamp state with
  | inl next => exact ⟨next, rfl, haround.searchStep hsorted.ordered hsplits hstep⟩
  | inr found =>
    cases pass_of_searchStep hsorted.ordered haround.inside hstep with
    | leave hexit =>
      exact absurd (hexit.resolve_left (by omega)) (hcovers _ haround.inside.actual_lt)

end sorted

end SingleOperationLog

/-! ### The search in the index file -/

namespace OplogIndexSegment

open SearchState

section search
variable (log : SingleOperationLog) (timestamp : UInt64)

/-- The middle of a range of offsets. -/
theorem middle_offsets (low high : Nat) :
    (40 * low / 40 + if (40 * high - 40 * low) / 40 = 1 then 0
      else if (40 * high - 40 * low) / 40 % 2 = 0 then (40 * high - 40 * low) / 40 / 2
      else (40 * high - 40 * low) / 40 / 2 + 1) * 40 = 40 * middle low high := by
  have hwidth : (40 * high - 40 * low) / 40 = high - low := by omega
  rw [hwidth, Nat.mul_div_cancel_left _ (by decide), Nat.mul_comm]
  rfl

/-- A pass over the file is one over the descriptors. -/
theorem searchStep_ofLog (state : SearchState) :
    (ofLog log).searchStep timestamp state.offsets =
      (log.searchStep timestamp state).map offsets (40 * ·) := by
  have hrange : 40 * state.high = 40 * state.low ↔ state.high = state.low := by omega
  unfold searchStep SingleOperationLog.searchStep offsets
  dsimp only
  rw [readIndexAt_ofLog]
  simp only [ne_eq, hrange]
  split
  · split
    · rw [Sum.map_inl, middle_offsets]
    · rw [Sum.map_inl, middle_offsets]
  · rfl

theorem searchStart_ofLog (hne : log.index ≠ []) :
    (ofLog log).searchStart = (start log.index.length).offsets := by
  have hpos := length_pos_iff.mpr hne
  unfold searchStart start offsets
  dsimp only
  rw [size_index_ofLog, Nat.mul_div_cancel_left _ (by decide)]
  have hhalf : (if log.index.length % 2 = 0 then log.index.length / 2
      else log.index.length / 2 + 1) ≠ 0 := by
    split <;> omega
  generalize (if log.index.length % 2 = 0 then log.index.length / 2
    else log.index.length / 2 + 1) = nDescriptorHalf at hhalf
  rw [if_neg hhalf, SearchState.mk.injEq]
  omega

/-- The search over the descriptors, and its result as an offset. -/
theorem binarySearchByTimestamp_ofLog (hne : log.index ≠ []) (htimestamp : timestamp ≠ 0)
    (fuel : Nat) :
    (ofLog log).binarySearchByTimestamp timestamp fuel =
      (Loop.run (log.searchStep timestamp) fuel (start log.index.length)).map fun position =>
        ⟨true, 40 * position⟩ := by
  have hpos := length_pos_iff.mpr hne
  have hsize : ¬ (FileUtils.size (ofLog log).index = 0 ∨ timestamp = 0) := by
    rw [size_index_ofLog]
    exact not_or.mpr ⟨by omega, htimestamp⟩
  rw [binarySearchByTimestamp, if_neg hsize, searchStart_ofLog log hne,
    Loop.run_map (searchStep_ofLog log timestamp), Option.map_map]
  rfl

/-- It ends where the loop does. -/
theorem exists_binarySearchByTimestamp (hne : log.index ≠ []) (htimestamp : timestamp ≠ 0)
    {result : OplogSegmentBinarySearchResult} :
    (∃ fuel, (ofLog log).binarySearchByTimestamp timestamp fuel = some result) ↔
      ∃ position, Loop.Returns (log.searchStep timestamp) (start log.index.length) position ∧
        result = ⟨true, 40 * position⟩ := by
  simp only [binarySearchByTimestamp_ofLog log timestamp hne htimestamp, map_eq_some_iff,
    Loop.returns_iff_run]
  constructor
  · intro ⟨fuel, position, hrun, heq⟩
    exact ⟨position, ⟨fuel, hrun⟩, heq.symm⟩
  · intro ⟨position, ⟨fuel, hrun⟩, heq⟩
    exact ⟨fuel, position, hrun, heq.symm⟩

end search

/-- What is expected of a search: it ends, has read descriptors of the file only, and returns the
    offset of a descriptor in front of which no segment reaches beyond the timestamp; of a segment
    with the timestamp in its range it is the offset. -/
def Locates (segment : OplogIndexSegment) (descriptors : List OplogIndexSegmentDescriptor)
    (timestamp : UInt64) : Prop :=
  ∃ fuel ptr, segment.binarySearchByTimestamp timestamp fuel = some ⟨true, ptr⟩ ∧
    (∀ state, Loop.Reaches (segment.searchStep timestamp) segment.searchStart state →
      state.actual + 40 ≤ FileUtils.size segment.index) ∧
    40 ∣ ptr ∧
    (∀ i descriptor, descriptors[i]? = some descriptor → timestamp < descriptor.max →
      ptr ≤ 40 * i) ∧
    ∀ i descriptor, descriptors[i]? = some descriptor → descriptor.Covers timestamp → ptr = 40 * i

section locates
variable {log : SingleOperationLog} {timestamp : UInt64}

/-- The search reads descriptors of the file, also where it does not end. -/
theorem reaches_inside (hordered : ∀ descriptor ∈ log.index, descriptor.min ≤ descriptor.max)
    (hne : log.index ≠ []) {state : SearchState}
    (h : Loop.Reaches ((ofLog log).searchStep timestamp) (ofLog log).searchStart state) :
    state.actual + 40 ≤ FileUtils.size (ofLog log).index := by
  rw [searchStart_ofLog log hne] at h
  obtain ⟨position, hreached, rfl⟩ := Loop.reaches_map (searchStep_ofLog log timestamp) h
  have hinside := hreached.invariant (inside_searchStep hordered)
    (inside_start (length_pos_iff.mpr hne))
  have hlt := hinside.actual_lt
  rw [size_index_ofLog, offsets]
  dsimp only
  omega

/-- Every segment ends at or below the timestamp, up to one that has it in its range or the
    first. -/
theorem locates_of_returns (hsorted : SortedDisjoint log.index) (hne : log.index ≠ [])
    (htimestamp : timestamp ≠ 0) {position : Nat}
    (hreturns : Loop.Returns (log.searchStep timestamp) (start log.index.length) position)
    (hbefore : ∀ i < position, ¬ timestamp < (log.readIndexAt i).max)
    (hcovers : ∀ i < log.index.length, (log.readIndexAt i).Covers timestamp → position = i) :
    (ofLog log).Locates log.index timestamp := by
  obtain ⟨fuel, hrun⟩ :=
    (exists_binarySearchByTimestamp log timestamp hne htimestamp).mpr ⟨position, hreturns, rfl⟩
  refine ⟨fuel, 40 * position, hrun, fun state => reaches_inside hsorted.ordered hne,
    dvd_mul_right 40 position, ?_, ?_⟩
  · intro i descriptor hdescriptor hlt
    by_contra hgt
    apply hbefore i (by omega)
    rwa [readIndexAt_of_getElem? hdescriptor]
  · intro i descriptor hdescriptor hcover
    have hlt := (List.getElem?_eq_some_iff.mp hdescriptor).1
    rw [← readIndexAt_of_getElem? hdescriptor] at hcover
    rw [hcovers i hlt hcover]

/-- Among sorted segments the search does what is expected exactly where all of them lie above the
    timestamp, or one of them has it in its range. Between two segments and behind the last one it
    does not end. -/
theorem locates_iff (log : SingleOperationLog) (timestamp : UInt64) (hne : log.index ≠ [])
    (hsorted : SortedDisjoint log.index) (htimestamp : 1 ≤ timestamp) :
    (ofLog log).Locates log.index timestamp ↔
      (∀ first ∈ log.index.head?, timestamp < first.min) ∨
        ∃ descriptor ∈ log.index, descriptor.Covers timestamp := by
  have hpos := length_pos_iff.mpr hne
  have hzero : timestamp ≠ 0 := by
    rintro rfl
    exact absurd htimestamp (by decide)
  have hhead : log.index.head? = some (log.readIndexAt 0) := by
    rw [readIndexAt_of_getElem? (getElem?_eq_getElem hpos),
      head?_eq_getElem?, getElem?_eq_getElem hpos]
  rw [hhead]
  simp only [mem_def, some.injEq, forall_eq']
  constructor
  · -- otherwise the timestamp lies behind a segment and in none
    intro ⟨fuel, ptr, hrun, _⟩
    obtain ⟨position, hreturns, -⟩ :=
      (exists_binarySearchByTimestamp log timestamp hne hzero).mp ⟨fuel, hrun⟩
    by_contra hneither
    obtain ⟨hbelow, hcovers⟩ := not_or.mp hneither
    refine not_returns_of_gap hsorted hpos hbelow ?_ position hreturns
    intro probe hprobe hcover
    exact hcovers ⟨_, readIndexAt_mem hprobe, hcover⟩
  · intro h
    rcases h with hbelow | ⟨descriptor, hmem, hcover⟩
    · apply locates_of_returns hsorted hne hzero
        (returns_of_below hsorted hpos hbelow)
      · intro i hi
        cases hi
      · intro i hi hcover
        exact absurd (lt_of_below hsorted hbelow hi)
          (UInt64.not_lt.mpr hcover.1)
    · obtain ⟨position, hposition, rfl⟩ := getElem_of_mem hmem
      rw [← readIndexAt_of_getElem? (getElem?_eq_getElem hposition)] at hcover
      apply locates_of_returns hsorted hne hzero
        (returns_of_covers hsorted hposition hcover)
      · intro i hi
        have hnext := lt_of_sorted hsorted hi hposition
        have hmin := hcover.1
        simp only [lt_iff_toNat_lt, le_iff_toNat_le] at hnext hmin ⊢
        omega
      · intro i hi hcover'
        exact covers_unique hsorted hposition hi hcover hcover'

end locates

/-- A descriptor of which nothing but the range is of interest. -/
def rangeOf (min max : UInt64) : OplogIndexSegmentDescriptor := ⟨min, max, 0, 0, 0, 0, 0⟩

/-- A log whose segments have the given ranges. -/
def logOfRanges (ranges : List (UInt64 × UInt64)) : SingleOperationLog :=
  ⟨[], 0, ranges.map fun range => rangeOf range.1 range.2, []⟩

theorem locates_second_of_three :
    (ofLog (logOfRanges [(1, 2), (5, 6), (9, 9)])).Locates
      (logOfRanges [(1, 2), (5, 6), (9, 9)]).index 5 :=
  (locates_iff (logOfRanges [(1, 2), (5, 6), (9, 9)]) 5 (by decide) ⟨by decide, by decide⟩
    (by decide)).mpr (.inr ⟨rangeOf 5 6, by decide, by decide⟩)

/-- One segment, and a timestamp behind it: the search does not end. -/
theorem not_locates_behind_last :
    SortedDisjoint (logOfRanges [(1, 2)]).index ∧
      (∀ fuel, (ofLog (logOfRanges [(1, 2)])).binarySearchByTimestamp 3 fuel = none) ∧
      ¬ (ofLog (logOfRanges [(1, 2)])).Locates (logOfRanges [(1, 2)]).index 3 := by
  have hsorted : SortedDisjoint (logOfRanges [(1, 2)]).index := ⟨by decide, by decide⟩
  have hcovers : ∀ probe < (logOfRanges [(1, 2)]).index.length,
      ¬ ((logOfRanges [(1, 2)]).readIndexAt probe).Covers 3 := by decide
  have hnever : ∀ result, ¬ ∃ fuel,
      (ofLog (logOfRanges [(1, 2)])).binarySearchByTimestamp 3 fuel = some result := by
    intro result hreturns
    obtain ⟨position, hreturns, -⟩ :=
      (exists_binarySearchByTimestamp (logOfRanges [(1, 2)]) 3 (by decide) (by decide)).mp hreturns
    exact not_returns_of_gap hsorted (by decide) (by decide) hcovers position
      hreturns
  refine ⟨hsorted, ?_, ?_⟩
  · intro fuel
    cases hresult : (ofLog (logOfRanges [(1, 2)])).binarySearchByTimestamp 3 fuel with
    | none => rfl
    | some result => exact absurd ⟨fuel, hresult⟩ (hnever result)
  · intro ⟨fuel, ptr, hrun, _⟩
    exact hnever ⟨true, ptr⟩ ⟨fuel, hrun⟩

end OplogIndexSegment

end MemDb
