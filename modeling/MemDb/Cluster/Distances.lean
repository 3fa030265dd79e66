import MemDb.Cluster.Groups

/-! # Distances on the ring

    `getDistance` goes the shorter way around the ring, and the distances in one direction are
    derived from it. The replicas of a partition number it by their distance to its first node. A
    node computes the number at another replica from its own one, and is wrong about the first node.
-/

namespace MemDb

open Lib.Cycle RingEntries Option UInt32

namespace RingEntries

/-- The remainder of a number between `-n` and `n`. -/
theorem emod_eq {x : Int} {n : Nat} (hlow : -n ≤ x) (hhigh : x < n) :
    x % n = if 0 ≤ x then x else x + n := by
  split
  · exact Int.emod_eq_of_lt (by omega) (by omega)
  · rw [← Int.add_emod_right, Int.emod_eq_of_lt (by omega) (by omega)]

section distances
variable {ring : RingEntries} {cells : List (Nat × RingEntry)} (h : ring.Holds cells)
include h

theorem Holds.getDistanceCounterClockwise_eq
    (hlinked : Linked (nextOf ring.heap) (backOf ring.heap) (cells.map Prod.fst)) (hne : cells ≠ [])
    (i : Int) {d : Nat} (hd : d < cells.length) :
    ring.getDistanceCounterClockwise (get cells i).2.nodeId (get cells (i + d)).2.nodeId =
      some (UInt32.ofNat ((cells.length - d) % cells.length)) := by
  unfold getDistanceCounterClockwise
  rw [h.getDistance_eq hlinked hne i hd, map_some, h.index_length]
  unfold shortestWay
  rcases Nat.eq_zero_or_pos d with rfl | hpos
  · simp
  · rw [Nat.mod_eq_of_lt (by omega)]
    split
    · rw [if_pos (by omega), Int.natAbs_natCast]
    · rw [if_neg (by omega), Int.natAbs_neg, Int.natAbs_natCast]

/-- The loop ends at once, also where the node has no links. -/
theorem Holds.getDistance_self {c : Nat × RingEntry} (hc : c ∈ cells) :
    ring.getDistance c.2.nodeId c.2.nodeId = some 0 := by
  obtain ⟨node, hnode, hentry⟩ := map_eq_some_iff.mp (h.entries c hc)
  simp [getDistance, distanceFrom, h.pointerTo_of_mem hc, hnode, hentry]

end distances

/-- The distances of the nodes at ranks `i` and `j`. The result of `getDistance` is the number of
    its rounds, up to the sign. -/
theorem distances_eq (entries : List RingEntry) (hnodeIds : (entries.map (·.nodeId)).Nodup)
    (hpositions : (entries.map (·.ringPosition)).Nodup) (i j : Nat) (hi : i < entries.length)
    (hj : j < entries.length) (a b : RingEntry) (ha : (clockwiseOrder entries)[i]? = some a)
    (hb : (clockwiseOrder entries)[j]? = some b) :
    ∃ ring clockwise counterClockwise distance, fromEntries entries = some ring ∧
      ring.getDistanceClockwise a.nodeId b.nodeId = some clockwise ∧
      ring.getDistanceCounterClockwise a.nodeId b.nodeId = some counterClockwise ∧
      ring.getDistance a.nodeId b.nodeId = some distance ∧
      (clockwise.toNat : Int) = ((j : Int) - i) % entries.length ∧
      (counterClockwise.toNat : Int) = ((i : Int) - j) % entries.length ∧
      distance = (if clockwise.toNat ≤ entries.length / 2 then (clockwise.toNat : Int)
        else -(counterClockwise.toNat : Int)) ∧
      distance.natAbs ≤ entries.length / 2 := by
  have hbound := length_le_of_nodeIds hnodeIds
  obtain ⟨ring, cells, hring, hordered, hcells, hn, hsnd, -⟩ :=
    exists_ring hnodeIds hpositions (by omega)
  have hget : ∀ k : Nat, k < entries.length → ∀ c, (clockwiseOrder entries)[k]? = some c →
      (get cells k).2 = c := by
    intro k hk c hc
    rw [hsnd, get_natCast (by rwa [length_clockwiseOrder])]
    exact some.inj ((List.getElem?_eq_getElem _).symm.trans hc)
  -- `b` is `d` steps clockwise of `a`
  obtain ⟨d, hd, hclockwise, hcounter⟩ : ∃ d : Nat, d < entries.length ∧
      (d : Int) = ((j : Int) - i) % entries.length ∧
      (((entries.length - d) % entries.length : Nat) : Int) = ((i : Int) - j) % entries.length := by
    rcases Nat.lt_trichotomy i j with hlt | rfl | hgt
    · refine ⟨j - i, by omega, ?_, ?_⟩
      · rw [emod_eq (by omega) (by omega), if_pos (by omega)]
        omega
      · rw [emod_eq (by omega) (by omega), if_neg (by omega), Nat.mod_eq_of_lt (by omega)]
        omega
    · exact ⟨0, by omega, by simp, by simp⟩
    · refine ⟨entries.length - (i - j), by omega, ?_, ?_⟩
      · rw [emod_eq (by omega) (by omega), if_neg (by omega)]
        omega
      · rw [emod_eq (by omega) (by omega), if_pos (by omega), Nat.mod_eq_of_lt (by omega)]
        omega
  obtain ⟨hdistance, hdistance', hdistance''⟩ :
      ring.getDistance a.nodeId b.nodeId = some (shortestWay entries.length d) ∧
      ring.getDistanceClockwise a.nodeId b.nodeId = some (UInt32.ofNat d) ∧
      ring.getDistanceCounterClockwise a.nodeId b.nodeId =
        some (UInt32.ofNat ((entries.length - d) % entries.length)) := by
    rw [← hget i hi a ha, ← hget j hj b hb]
    rcases hordered.holds.links with hlinked | ⟨hshort, -⟩
    · have hb' : get cells j = get cells (i + d) := by
        refine get_congr ?_
        rw [hn, hclockwise, Int.add_emod_emod, add_sub_cancel]
      rw [hb', ← hn]
      rw [← hn] at hd
      exact ⟨hordered.holds.getDistance_eq hlinked hcells i hd,
        hordered.holds.getDistanceClockwise_eq hlinked hcells i hd,
        hordered.holds.getDistanceCounterClockwise_eq hlinked hcells i hd⟩
    · -- one node without links
      obtain rfl : i = 0 := by omega
      obtain rfl : j = 0 := by omega
      obtain rfl : d = 0 := by omega
      have hself := hordered.holds.getDistance_self (get_mem hcells 0)
      simp [getDistanceClockwise, getDistanceCounterClockwise, hself, shortestWay]
  have hmod := Nat.mod_lt (entries.length - d) (by omega : 0 < entries.length)
  refine ⟨ring, _, _, _, hring, hdistance', hdistance'', hdistance, ?_⟩
  rw [toNat_ofNat_of_lt' (by show _ < 2 ^ 32; omega),
    toNat_ofNat_of_lt' (by show _ < 2 ^ 32; omega)]
  refine ⟨hclockwise, hcounter, ?_, ?_⟩
  · unfold shortestWay
    rcases Nat.eq_zero_or_pos d with rfl | hpos
    · simp
    · rw [Nat.mod_eq_of_lt (by omega)]
      split <;> split <;> omega
  · rw [natAbs_shortestWay]
    omega

/-- From the first of three nodes to the last one it is one step back. -/
theorem distances_three : ∃ ring distance, fromEntries [⟨1, 2⟩, ⟨4, 29⟩, ⟨2, 35⟩] = some ring ∧
    ring.getDistance 1 2 = some distance ∧ distance.natAbs ≤ 1 := by
  obtain ⟨ring, -, -, distance, hring, -, -, hdistance, -, -, -, hle⟩ :=
    distances_eq [⟨1, 2⟩, ⟨4, 29⟩, ⟨2, 35⟩] (by decide) (by decide) 0 2 (by decide) (by decide)
      ⟨1, 2⟩ ⟨2, 35⟩ (by decide) (by decide)
  exact ⟨ring, distance, hring, hdistance, hle⟩

end RingEntries

theorem toInt32_ofNat_le_zero_iff {k : Nat} (hk : k < 2 ^ 31) :
    (UInt32.ofNat k).toInt32 ≤ 0 ↔ k = 0 := by
  have htoInt : (UInt32.ofNat k).toInt32.toInt = k := Int32.toInt_ofNat_of_lt hk
  rw [Int32.le_iff_toInt_le, htoInt, Int32.toInt_zero]
  omega

/-- A node finds the number of its partition at another replica exactly when that is not the first
    one. -/
theorem oplogIdOfOtherNode_iff (entries : List RingEntry)
    (hnodeIds : (entries.map (·.nodeId)).Nodup)
    (hpositions : (entries.map (·.ringPosition)).Nodup) (r maxSize : UInt32) (hr : 2 ≤ r.toNat)
    (hlength : 2 * r.toNat - 1 ≤ entries.length) (head i k : Nat) (hi : i < r.toNat)
    (hk : k < r.toNat) (hother : k ≠ i) :
    ∃ partitions, Partitions.new entries r maxSize
        (get (clockwiseOrder entries) (head + i : Nat)).nodeId = some partitions ∧
      (partitions.getOplogIdOfOtherNodeBySelfOplogId true
        (get (clockwiseOrder entries) (head + k : Nat)).nodeId (UInt32.ofNat i) =
          some (UInt32.ofNat k) ↔ k ≠ 0) := by
  have hbound := length_le_of_nodeIds hnodeIds
  obtain ⟨partitions, -, cells, hnew, hrr, -, -, -, hsees, hn, hget⟩ := exists_sees (r := r)
    maxSize hnodeIds hpositions (by omega) (by omega) (head + i)
  refine ⟨partitions, hnew, ?_⟩
  have hofNat : ∀ d < 2 ^ 32, (UInt32.ofNat d).toNat = d := fun d => toNat_ofNat_of_lt'
  unfold Partitions.getOplogIdOfOtherNodeBySelfOplogId Partitions.isClockwiseNeighbor
    Partitions.getDistanceClockwise Partitions.getDistanceCounterClockwise
  rw [hrr, hsees.self]
  rcases Nat.lt_or_gt_of_ne hother with hlt | hgt
  · -- the other node comes before this one
    have hd : entries.length - (i - k) < cells.length := by omega
    have hcell : get (clockwiseOrder entries) (head + k : Nat) =
        (get cells (0 + (entries.length - (i - k) : Nat))).2 := by
      rw [hget]
      refine get_congr ?_
      rw [length_clockwiseOrder, ← Int.add_emod_right]
      congr 1
      omega
    rw [hcell, hsees.holds.getDistanceClockwise_eq hsees.linked hsees.nonempty 0 hd,
      hsees.holds.getDistanceCounterClockwise_eq hsees.linked hsees.nonempty 0 hd, hn,
      show (entries.length - (entries.length - (i - k))) % entries.length = i - k by
        rw [Nat.mod_eq_of_lt (by omega)]; omega]
    have hfar : ¬ UInt32.ofNat (entries.length - (i - k)) < r := by
      rw [lt_iff_toNat_lt, hofNat _ (by omega)]
      omega
    have hsub : UInt32.ofNat i - UInt32.ofNat (i - k) = UInt32.ofNat k := by
      rw [← ofNat_sub (Nat.sub_le i k), Nat.sub_sub_self (by omega)]
    simp only [map_some, hfar, decide_false, Bool.not_true, Bool.false_eq_true, if_false,
      bind_eq_bind, bind_some, ← toInt32_sub, hsub,
      toInt32_ofNat_le_zero_iff (show k < 2 ^ 31 by omega), toUInt32_toInt32]
    split
    · next hzero =>
      -- the last number is taken for the first one
      rw [hzero]
      simp only [ne_eq, not_true_eq_false, iff_false]
      intro heq
      have htoNat := congrArg toNat (some.inj heq)
      rw [UInt32.toNat_sub_of_le _ _ (UInt32.le_iff_toNat_le.mpr (by simp; omega))] at htoNat
      simp at htoNat
      omega
    · next hpos => simp [hpos]
  · have hd : k - i < cells.length := by omega
    have hcell :
        get (clockwiseOrder entries) (head + k : Nat) = (get cells (0 + (k - i : Nat))).2 := by
      rw [hget]
      congr 1
      omega
    rw [hcell, hsees.holds.getDistanceClockwise_eq hsees.linked hsees.nonempty 0 hd]
    have hnear : UInt32.ofNat (k - i) < r := by
      rw [lt_iff_toNat_lt, hofNat _ (by omega)]
      omega
    have hadd : UInt32.ofNat i + UInt32.ofNat (k - i) = UInt32.ofNat k := by
      rw [← ofNat_add, Nat.add_sub_cancel' (by omega)]
    have hin : ¬ UInt32.ofNat k ≥ r := by
      rw [ge_iff_le, le_iff_toNat_le, hofNat _ (by omega)]
      omega
    simp only [map_some, hnear, decide_true, Bool.not_true, Bool.false_eq_true, if_false,
      if_true, bind_eq_bind, bind_some, hadd, hin]
    simp
    omega

/-- The second of two replicas, from the first. -/
theorem oplogIdOfOtherNode_second :
    ∃ partitions, Partitions.new [⟨1, 2⟩, ⟨4, 29⟩, ⟨2, 35⟩] 2 100 1 = some partitions ∧
      partitions.getOplogIdOfOtherNodeBySelfOplogId true 4 0 = some 1 := by
  obtain ⟨partitions, hnew, hiff⟩ := oplogIdOfOtherNode_iff [⟨1, 2⟩, ⟨4, 29⟩, ⟨2, 35⟩] (by decide)
    (by decide) 2 100 (by decide) (by decide) 0 0 1 (by decide) (by decide) (by decide)
  exact ⟨partitions, hnew, hiff.mpr (by decide)⟩

/-- The first of two replicas, from the second: the first node has number 0 for its own partition,
    and node 4 asks it for number 1. -/
theorem oplogIdOfFirstNode :
    (Partitions.new [⟨1, 2⟩, ⟨4, 29⟩, ⟨2, 35⟩] 2 100 4).bind (fun partitions =>
      partitions.getOplogIdOfOtherNodeBySelfOplogId true 1 1) = some 1 := by
  decide

end MemDb
