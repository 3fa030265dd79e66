import MemDb.Cluster.Placement
import Mathlib.Data.Finset.Lattice.Lemmas

/-! # The groups of a node

    The nodes that hold the keys of one partition are consecutive on the ring, so that the groups of
    a node are arcs around it. Positions on the ring are counted clockwise from the node itself,
    which is at 0.
-/

namespace MemDb

open Lib Lib.Cycle RingEntries PartitionedCluster List Nat UInt32

/-! ### Sets of nodes -/

namespace ClusterNodes

theorem addNodesInPartition_spec (nodes : List UInt16) (partitionId : Nat)
    (clusterNodes : ClusterNodes) (h : partitionId < clusterNodes.nodesInPartitions.length) :
    ∃ clusterNodes', addNodesInPartition nodes partitionId clusterNodes = some clusterNodes' ∧
      clusterNodes.allNodesById ⊆ clusterNodes'.allNodesById ∧
      clusterNodes'.nodesInPartitions =
        clusterNodes.nodesInPartitions.modify partitionId (· ∪ nodes.toFinset) := by
  induction nodes generalizing clusterNodes with
  | nil =>
    refine ⟨clusterNodes, rfl, Finset.Subset.refl _, ?_⟩
    refine ext_getElem? fun j => ?_
    rw [getElem?_modify]
    cases clusterNodes.nodesInPartitions[j]? <;> simp
  | cons nodeId nodes ih =>
    obtain ⟨clusterNodes', hrest, hsubset, hgroups⟩ := ih (addNode { clusterNodes with
      nodesInPartitions :=
        clusterNodes.nodesInPartitions.modify partitionId (insert nodeId) } nodeId)
      (by simpa [addNode] using h)
    refine ⟨clusterNodes', ?_, (Finset.subset_insert _ _).trans hsubset, ?_⟩
    · rw [← hrest]
      simp [addNodesInPartition, addNodeInPartition, modifyPartition, h]
    · rw [hgroups]
      refine ext_getElem? fun j => ?_
      simp only [addNode, getElem?_modify]
      cases clusterNodes.nodesInPartitions[j]? with
      | none => rfl
      | some group =>
        by_cases hj : partitionId = j
        · simp [hj]
        · simp [hj]

theorem foldl_addNode (nodes : List UInt16) (clusterNodes : ClusterNodes) :
    nodes.foldl addNode clusterNodes =
      ⟨clusterNodes.allNodesById ∪ nodes.toFinset, clusterNodes.nodesInPartitions⟩ := by
  induction nodes generalizing clusterNodes with
  | nil => simp
  | cons nodeId nodes ih =>
    rw [foldl_cons, ih]
    simp [addNode]

end ClusterNodes

theorem toNodesFromRingEntries_eq {ringEntries : List RingEntry} {nodes : List UInt16}
    (h : ∀ entry ∈ ringEntries, entry.nodeId ∈ nodes) :
    PartitionedCluster.toNodesFromRingEntries ringEntries nodes = ringEntries.map (·.nodeId) := by
  induction ringEntries with
  | nil => rfl
  | cons entry ringEntries ih =>
    have hfind : nodes.find? (· == entry.nodeId) = some entry.nodeId := by
      cases hfound : nodes.find? (· == entry.nodeId) with
      | none =>
        have hnot := find?_eq_none.mp hfound _ (h entry mem_cons_self)
        simp at hnot
      | some nodeId =>
        have heq : nodeId = entry.nodeId := by simpa using find?_some hfound
        rw [heq]
    have hrest := ih fun other hother => h other (mem_cons_of_mem _ hother)
    unfold toNodesFromRingEntries at hrest ⊢
    simp only [filterMap_cons, hfind, hrest, map_cons]

/-! ### Arcs -/

section arcs
variable {ring : RingEntries} {cells : List (Nat × RingEntry)}

/-- The group of partition `j` of the node at the first cell: from the node `j` steps before it on,
    without the node itself. -/
def groupAt (cells : List (Nat × RingEntry)) (r j : Nat) : Finset UInt16 :=
  (((clockwise cells (-(j : Int)) (min (r - 1) (max 1 (cells.length - 1))) ++
    [(get cells (-(j : Int))).2]).filter ((get cells 0).2.nodeId ≠ ·.nodeId)).map
      (·.nodeId)).toFinset

theorem mem_clockwise_append {i : Int} {k : Nat} {entry : RingEntry} :
    entry ∈ clockwise cells i k ++ [(get cells i).2] ↔
      ∃ d : Nat, d ≤ k ∧ entry = (get cells (i + d)).2 := by
  rw [mem_append, mem_singleton]
  constructor
  · rintro (hmem | rfl)
    · obtain ⟨d, hd, rfl⟩ := mem_map.mp hmem
      refine ⟨d + 1, mem_range.mp hd, ?_⟩
      rw [cast_add, cast_one, ← add_assoc, add_right_comm]
    · exact ⟨0, zero_le _, by rw [cast_zero, add_zero]⟩
  · rintro ⟨_ | d, hd, rfl⟩
    · right
      rw [cast_zero, add_zero]
    · left
      refine mem_map.mpr ⟨d, mem_range.mpr hd, ?_⟩
      rw [cast_add, cast_one, ← add_assoc, add_right_comm]

variable {r a : Nat}

theorem mem_groupAt_iff {j : Nat} {nodeId : UInt16} :
    nodeId ∈ groupAt cells r j ↔ nodeId ≠ (get cells 0).2.nodeId ∧
      ∃ d : Nat, d ≤ min (r - 1) (max 1 (cells.length - 1)) ∧
        nodeId = (get cells (-(j : Int) + d)).2.nodeId := by
  unfold groupAt
  rw [mem_toFinset, mem_map]
  constructor
  · rintro ⟨entry, hentry, rfl⟩
    obtain ⟨hmem, hself⟩ := mem_filter.mp hentry
    obtain ⟨d, hd, rfl⟩ := mem_clockwise_append.mp hmem
    exact ⟨(of_decide_eq_true hself).symm, d, hd, rfl⟩
  · rintro ⟨hself, d, hd, rfl⟩
    exact ⟨_, mem_filter.mpr ⟨mem_clockwise_append.mpr ⟨d, hd, rfl⟩,
      decide_eq_true hself.symm⟩, rfl⟩

/-- The nodes of a group are on the ring. -/
theorem exists_of_mem_groupAt (hne : cells ≠ []) {j : Nat} {nodeId : UInt16}
    (h : nodeId ∈ groupAt cells r j) :
    ∃ a < cells.length, nodeId = (get cells (a : Nat)).2.nodeId := by
  obtain ⟨-, d, -, rfl⟩ := mem_groupAt_iff.mp h
  obtain ⟨a, ha, -, hget⟩ := exists_lt_get hne (-(j : Int) + d)
  exact ⟨a, ha, by rw [hget]⟩

/-- The node `d` steps after the head of partition `j`. -/
theorem RingEntries.Holds.nodeId_eq_iff (h : ring.Holds cells) (j : Nat) {d : Nat}
    (hd : d < cells.length) :
    (get cells (a : Nat)).2.nodeId = (get cells (-(j : Int) + d)).2.nodeId ↔
      (a + j) % cells.length = d := by
  have hne : cells ≠ [] := by
    rintro rfl
    simp at hd
  have hshift : (a : Int) % cells.length = (-(j : Int) + d) % cells.length ↔
      ((a : Int) + j) % cells.length = d % cells.length := by
    constructor
    · intro heq
      have := Int.ModEq.add_right (j : Int) heq
      rwa [show -(j : Int) + d + j = d by omega] at this
    · intro heq
      have := Int.ModEq.add_right (-(j : Int)) heq
      rwa [show (a : Int) + j + -(j : Int) = a by omega,
        show (d : Int) + -(j : Int) = -j + d by omega] at this
  rw [h.nodeId_get_eq_iff hne, hshift, ← cast_add, ← Int.natCast_mod, ← Int.natCast_mod,
    mod_eq_of_lt hd]
  exact Int.natCast_inj

theorem RingEntries.Holds.nodeId_inj (h : ring.Holds cells) {b : Nat} (ha : a < cells.length)
    (hb : b < cells.length) :
    (get cells (a : Nat)).2.nodeId = (get cells (b : Nat)).2.nodeId ↔ a = b := by
  have hiff := h.nodeId_eq_iff 0 (a := a) hb
  rwa [cast_zero, Int.neg_zero, zero_add, add_zero, mod_eq_of_lt ha] at hiff

/-- Which nodes of the ring are in a group. -/
theorem RingEntries.Holds.mem_groupAt (h : ring.Holds cells) (hr : 1 ≤ r) (j : Nat)
    (ha : a < cells.length) :
    (get cells (a : Nat)).2.nodeId ∈ groupAt cells r j ↔ a ≠ 0 ∧ (a + j) % cells.length < r := by
  have hself : (get cells (a : Nat)).2.nodeId ≠ (get cells 0).2.nodeId ↔ a ≠ 0 :=
    not_congr (h.nodeId_inj ha (b := 0) (by omega))
  rw [mem_groupAt_iff, hself]
  refine and_congr_right fun hpos => ?_
  have hlt : (a + j) % cells.length < cells.length := mod_lt _ (by omega)
  constructor
  · rintro ⟨d, hd, heq⟩
    have := (h.nodeId_eq_iff j (by omega)).mp heq
    omega
  · intro hmem
    exact ⟨(a + j) % cells.length, by omega, (h.nodeId_eq_iff j hlt).mpr rfl⟩

end arcs

/-! ### Setting up the groups -/

/-- What a node knows of the ring. -/
structure Partitions.Sees (partitions : Partitions) (cells : List (Nat × RingEntry)) : Prop where
  holds : partitions.ringEntries.Holds cells
  linked : Linked (nextOf partitions.ringEntries.heap) (backOf partitions.ringEntries.heap)
    (cells.map Prod.fst)
  nonempty : cells ≠ []
  self : partitions.selfEntry = (get cells 0).2
  nodesPerPartition : 1 ≤ partitions.nodesPerPartition.toNat

section setup
variable {cluster : PartitionedCluster} {cells : List (Nat × RingEntry)} {partitions : Partitions}

theorem Partitions.Sees.getNeighborsClockwiseByNodeId_eq (h : partitions.Sees cells) (i : Int) :
    partitions.getNeighborsClockwiseByNodeId (get cells i).2.nodeId =
      some (clockwise cells i
        (min (partitions.nodesPerPartition.toNat - 1) (max 1 (cells.length - 1)))) := by
  unfold Partitions.getNeighborsClockwiseByNodeId
  rw [h.holds.getNeighborsClockwise_eq h.linked h.nonempty, UInt32.toNat_sub_of_le]
  · rfl
  · exact le_iff_toNat_le.mpr h.nodesPerPartition

theorem Partitions.Sees.getRingEntriesPartitionExceptSelf_eq (h : cluster.partitions.Sees cells)
    (j : Nat) : ∃ ringEntries,
      cluster.getRingEntriesPartitionExceptSelf (get cells (-(j : Int))).2 = some ringEntries ∧
      (∀ entry ∈ ringEntries, entry.nodeId ≠ cluster.getNodeId ∧ ∃ c ∈ cells, c.2 = entry) ∧
      (ringEntries.map (·.nodeId)).toFinset =
        groupAt cells cluster.partitions.nodesPerPartition.toNat j := by
  unfold getRingEntriesPartitionExceptSelf getNodeId
  rw [h.getNeighborsClockwiseByNodeId_eq, h.holds.getByNodeId_eq (get_mem h.nonempty _), h.self]
  refine ⟨_, rfl, ?_, rfl⟩
  intro entry hentry
  obtain ⟨hmem, hself⟩ := mem_filter.mp hentry
  obtain ⟨d, -, rfl⟩ := mem_clockwise_append.mp hmem
  exact ⟨(of_decide_eq_true hself).symm, _, get_mem h.nonempty _, rfl⟩

theorem Partitions.Sees.getNeighborCounterClockwiseByNodeId_eq (h : partitions.Sees cells)
    (i : Nat) :
    partitions.getNeighborCounterClockwiseByNodeId (get cells (-(i : Int))).2.nodeId =
      some (some (get cells (-((i + 1 : Nat) : Int))).2) := by
  unfold Partitions.getNeighborCounterClockwiseByNodeId
  rw [h.holds.getNeighborCounterClockwise_eq h.linked h.nonempty,
    show -(i : Int) - 1 = -((i + 1 : Nat) : Int) by omega]

/-- One round of a loop over the partitions changes the group of one partition, the rounds after it
    change those behind it. -/
theorem map_modify_range {α : Type} (l : List α) (f : Nat → α → α) (i remaining j : Nat) :
    (l.modify i (f i))[j]?.map (fun x => if i + 1 ≤ j ∧ j < i + 1 + remaining then f j x else x) =
      l[j]?.map fun x => if i ≤ j ∧ j < i + (remaining + 1) then f j x else x := by
  rw [getElem?_modify]
  cases l[j]? with
  | none => rfl
  | some x =>
    simp only [Option.map_eq_map, Option.map_some]
    by_cases hj : i = j
    · subst hj
      simp
    · have hrange : (i + 1 ≤ j ∧ j < i + 1 + remaining) ↔ (i ≤ j ∧ j < i + (remaining + 1)) := by
        omega
      simp only [hj, if_false, hrange]

/-- The loop of `updateNeighborsWithNodes` fills one partition after another. -/
theorem Partitions.Sees.updateNeighborsFrom_spec (h : cluster.partitions.Sees cells)
    {nodes : List UInt16}
    (hnodes : ∀ c ∈ cells, c.2.nodeId ≠ cluster.getNodeId → c.2.nodeId ∈ nodes)
    (remaining : Nat) {i : Nat}
    (hi : i + remaining ≤ cluster.clusterNodes.nodesInPartitions.length) :
    ∃ cluster', PartitionedCluster.updateNeighborsFrom nodes remaining i (get cells (-(i : Int))).2
        cluster = some cluster' ∧ cluster'.partitions = cluster.partitions ∧
      cluster.clusterNodes.allNodesById ⊆ cluster'.clusterNodes.allNodesById ∧
      ∀ j, cluster'.clusterNodes.nodesInPartitions[j]? =
        cluster.clusterNodes.nodesInPartitions[j]?.map fun group =>
          if i ≤ j ∧ j < i + remaining then
            group ∪ groupAt cells cluster.partitions.nodesPerPartition.toNat j
          else group := by
  -- round `i` stands at the head of partition `i`, the node `i` steps before the observer
  induction remaining generalizing i cluster with
  | zero =>
    refine ⟨cluster, rfl, rfl, Finset.Subset.refl _, fun j => ?_⟩
    have hnone : ¬ (i ≤ j ∧ j < i + 0) := by omega
    simp only [hnone, if_false, Option.map_id_fun', id]
  | succ remaining ih =>
    obtain ⟨ringEntries, hentries, hothers, hgroup⟩ := h.getRingEntriesPartitionExceptSelf_eq i
    have htoNodes : toNodesFromRingEntries ringEntries nodes =
        ringEntries.map (·.nodeId) := by
      refine toNodesFromRingEntries_eq ?_
      intro entry hentry
      obtain ⟨hself, c, hc, rfl⟩ := hothers entry hentry
      exact hnodes c hc hself
    obtain ⟨clusterNodes, hadd, hsubset, hmodify⟩ := ClusterNodes.addNodesInPartition_spec
      (ringEntries.map (·.nodeId)) i cluster.clusterNodes (by omega)
    have hback := h.getNeighborCounterClockwiseByNodeId_eq i
    have hnext : (PartitionedCluster.mk cluster.partitions clusterNodes).partitions.Sees cells := h
    obtain ⟨cluster', hrest, hpartitions, hsubset', hgroups⟩ := ih hnext hnodes (i := i + 1)
      (by rw [hmodify, length_modify]; omega)
    refine ⟨cluster', ?_, hpartitions, hsubset.trans hsubset', fun j => ?_⟩
    · rw [PartitionedCluster.updateNeighborsFrom]
      simp only [hentries, htoNodes, hadd, hback, Option.bind_eq_bind, Option.bind_some]
      exact hrest
    · rw [hgroups, hmodify, hgroup]
      exact map_modify_range _ (fun j group =>
        group ∪ groupAt cells cluster.partitions.nodesPerPartition.toNat j) i remaining j

/-- The groups of a node are the arcs around it. -/
theorem Partitions.Sees.setUpGroups_spec (h : partitions.Sees cells) (nodes : List UInt16)
    (hnodes : ∀ c ∈ cells, c.2.nodeId ≠ partitions.selfEntry.nodeId → c.2.nodeId ∈ nodes) :
    ∃ cluster, PartitionedCluster.setUpGroups partitions nodes = some cluster ∧
      cluster.partitions = partitions ∧ nodes.toFinset ⊆ cluster.clusterNodes.allNodesById ∧
      cluster.clusterNodes.nodesInPartitions = (range partitions.nodesPerPartition.toNat).map
          (groupAt cells partitions.nodesPerPartition.toNat) := by
  unfold setUpGroups updateNeighborsWithNodes
  simp only [ClusterNodes.foldl_addNode, ClusterNodes.setNumberPartitions, nil_append,
    Finset.empty_union, h.self]
  have hstart : (PartitionedCluster.mk partitions ⟨nodes.toFinset,
      replicate partitions.nodesPerPartition.toNat ∅⟩).partitions.Sees cells := h
  obtain ⟨cluster, hloop, hpartitions, hsubset, hgroups⟩ := hstart.updateNeighborsFrom_spec hnodes
    partitions.nodesPerPartition.toNat (i := 0) (by simp)
  refine ⟨cluster, hloop, hpartitions, hsubset, ext_getElem? fun j => ?_⟩
  rw [hgroups, getElem?_map]
  by_cases hj : j < partitions.nodesPerPartition.toNat
  · simp [hj]
  · simp [hj]

end setup

/-! ### The group of a key -/

section keys
variable {entries : List RingEntry} {r : UInt32} (maxSize : UInt32)

/-- A node that starts with a ring counts its positions from itself. -/
theorem exists_sees (hnodeIds : (entries.map (·.nodeId)).Nodup)
    (hpositions : (entries.map (·.ringPosition)).Nodup) (hlength : 2 ≤ entries.length)
    (hr : 1 ≤ r.toNat) (k : Nat) :
    ∃ partitions start cells,
      Partitions.new entries r maxSize (get (clockwiseOrder entries) k).nodeId = some partitions ∧
      partitions.nodesPerPartition = r ∧ partitions.maxSize = maxSize ∧
      partitions.ringEntries.Ordered start ∧ start ~r cells ∧ partitions.Sees cells ∧
      cells.length = entries.length ∧
      ∀ a : Int, (get cells a).2 = get (clockwiseOrder entries) (k + a) := by
  obtain ⟨ring, start, hring, hordered, hstart, hn, hsnd, -⟩ :=
    exists_ring hnodeIds hpositions (by omega)
  have hself := hordered.holds.getByNodeId_eq (get_mem hstart k)
  rw [hsnd] at hself
  have hget : ∀ a : Int, (get (start.rotate k) a).2 = get (clockwiseOrder entries) (k + a) := by
    intro a
    rw [get_rotate hstart, hsnd, add_comm]
  have hholds := hordered.holds.of_isRotated ⟨k, rfl⟩
  refine ⟨⟨ring, get (clockwiseOrder entries) k, r, maxSize⟩, start, start.rotate k, ?_, rfl, rfl,
    hordered, ⟨k, rfl⟩, ?_, by rw [length_rotate, hn], hget⟩
  · simp [Partitions.new, hring, hself]
  · refine ⟨hholds, hholds.linked (by rw [length_rotate]; omega), ?_, ?_, hr⟩
    · exact fun hnil => hstart (rotate_eq_nil_iff.mp hnil)
    · rw [hget, add_zero]

/-- For a replica `i` steps after the owner, the arcs that start `min i (n - i)` and `i` steps
    before it are the same only when the shortest way to the owner is the way back, or all nodes are
    replicas. -/
theorem arcs_agree_iff {n r i : Nat} (hi : i < r) (hr : r ≤ n) :
    (∀ a, 0 < a → a < n → ((a + min i (n - i)) % n < r ↔ (a + i) % n < r)) ↔ 2 * i ≤ n ∨ r = n := by
  constructor
  · intro h
    by_contra hcontra
    have ha := h (i - 1) (by omega) (by omega)
    rw [show i - 1 + min i (n - i) = n - 1 by omega, mod_eq_of_lt (by omega),
      show i - 1 + i = (2 * i - 1 - n) + n by omega, add_mod_right, mod_eq_of_lt (by omega)]
      at ha
    omega
  · rintro (hle | rfl) a hpos ha
    · rw [show min i (n - i) = i by omega]
    · have hlt := mod_lt (a + min i (r - i)) (show r > 0 by omega)
      have hlt' := mod_lt (a + i) (show r > 0 by omega)
      omega

variable {ringPosition : UInt32}

theorem IsReplica.mem (hne : clockwiseOrder entries ≠ []) {r : Nat} {replica : RingEntry}
    (h : IsReplica entries ringPosition r replica) : replica ∈ entries := by
  obtain ⟨m, k, -, -, rfl⟩ := h
  exact (clockwiseOrder_perm entries).mem_iff.mp (get_mem hne _)

section
variable (hnodeIds : (entries.map (·.nodeId)).Nodup)
  (hpositions : (entries.map (·.ringPosition)).Nodup)
  {m : Nat} (howner : IsOwner entries ringPosition (get (clockwiseOrder entries) m))
include hnodeIds hpositions howner

/-- The replicas, counted from the replica `i` steps after the owner. -/
theorem isReplica_offset_iff {r : Nat} (hr : r ≤ entries.length) (hpos : 0 < entries.length)
    (i a : Nat) : (∃ replica, IsReplica entries ringPosition r replica ∧
      replica.nodeId = (get (clockwiseOrder entries) ((m : Int) + i + a)).nodeId) ↔
      (a + i) % entries.length < r := by
  have hne : clockwiseOrder entries ≠ [] := by
    rw [← length_pos_iff, length_clockwiseOrder]
    exact hpos
  have hget : get (clockwiseOrder entries) ((m : Int) + i + a) =
      get (clockwiseOrder entries) ((m : Int) + ((a + i) % entries.length : Nat)) := by
    refine get_congr ?_
    rw [length_clockwiseOrder, Int.natCast_mod, Int.add_emod_emod, cast_add, add_assoc,
      add_comm (i : Int)]
  rw [← isReplica_iff hnodeIds hpositions howner hr (mod_lt _ hpos), ← hget]
  constructor
  · rintro ⟨replica, hreplica, heq⟩
    have hsame := inj_on_of_nodup_map hnodeIds (hreplica.mem hne)
      ((clockwiseOrder_perm entries).mem_iff.mp (get_mem hne _)) heq
    rwa [← hsame]
  · intro hreplica
    exact ⟨_, hreplica, rfl⟩

/-- A group of the replica `i` steps after the owner consists of the other replicas exactly when
    its arc has the same positions. -/
theorem groupAt_replicas_iff {r i : Nat} (hr : 1 ≤ r) (hrn : r ≤ entries.length)
    {ring : RingEntries} {cells : List (Nat × RingEntry)} (hholds : ring.Holds cells)
    (hn : cells.length = entries.length)
    (hget : ∀ a : Int, (get cells a).2 = get (clockwiseOrder entries) ((m : Int) + i + a))
    (j : Nat) :
    (∀ nodeId, nodeId ∈ groupAt cells r j ↔
        nodeId ≠ (get (clockwiseOrder entries) ((m : Int) + i)).nodeId ∧
          ∃ replica, IsReplica entries ringPosition r replica ∧ replica.nodeId = nodeId) ↔
      ∀ a, 0 < a → a < entries.length →
        ((a + j) % entries.length < r ↔ (a + i) % entries.length < r) := by
  have hcells : cells ≠ [] := length_pos_iff.mp (by omega)
  have hne : clockwiseOrder entries ≠ [] := by
    rw [← length_pos_iff, length_clockwiseOrder]
    omega
  -- both sides of the equivalence, for the node `a` steps clockwise
  have hmem : ∀ a < entries.length,
      (get (clockwiseOrder entries) ((m : Int) + i + (a : Nat))).nodeId ∈ groupAt cells r j ↔
        a ≠ 0 ∧ (a + j) % entries.length < r := by
    intro a ha
    have := hholds.mem_groupAt hr j (a := a) (by omega)
    rwa [hget, hn] at this
  have hreplica := isReplica_offset_iff hnodeIds hpositions howner hrn (by omega) i
  have hother : ∀ a < entries.length,
      (get (clockwiseOrder entries) ((m : Int) + i + (a : Nat))).nodeId ≠
        (get (clockwiseOrder entries) ((m : Int) + i)).nodeId ↔ a ≠ 0 := by
    intro a ha
    have hinj := hholds.nodeId_inj (a := a) (b := 0) (by omega) (by omega)
    rw [hget, hget, cast_zero, add_zero] at hinj
    exact not_congr hinj
  constructor
  · intro hall a hpos ha
    have := hall (get (clockwiseOrder entries) ((m : Int) + i + (a : Nat))).nodeId
    rw [hmem a ha, hother a ha, hreplica] at this
    simpa [ne_of_gt hpos] using this
  · intro hall nodeId
    constructor
    · intro hgroup
      obtain ⟨a, ha, rfl⟩ := exists_of_mem_groupAt hcells hgroup
      rw [hn] at ha
      rw [hget] at hgroup ⊢
      obtain ⟨hpos, hlt⟩ := (hmem a ha).mp hgroup
      exact ⟨(hother a ha).mpr hpos, (hreplica a).mpr ((hall a (by omega) ha).mp hlt)⟩
    · rintro ⟨hnotSelf, replica, hrep, rfl⟩
      obtain ⟨a, ha, rfl⟩ := exists_offset hne (m + i) (hrep.mem hne)
      rw [cast_add] at hnotSelf hrep ⊢
      have hpos := (hother a ha).mp hnotSelf
      have hlt := (hreplica a).mp ⟨_, hrep, rfl⟩
      exact (hmem a ha).mpr ⟨hpos, (hall a (by omega) ha).mpr hlt⟩

end

/-- The group that a replica `i` steps after the owner uses for a key consists of the other replicas
    exactly when the replica is at most half the ring away, or all nodes are replicas. -/
theorem group_of_key_iff (calculateMD5 : SimpleString → UInt64) (key : SimpleString)
    {ringPosition : UInt32} (hnodeIds : (entries.map (·.nodeId)).Nodup)
    (hpositions : (entries.map (·.ringPosition)).Nodup) (hlength : 2 ≤ entries.length)
    (hr : r.toNat ≤ entries.length)
    (hposition : Partitions.hashToPosition calculateMD5 maxSize key = some ringPosition) {m i : Nat}
    (howner : IsOwner entries ringPosition (get (clockwiseOrder entries) m)) (hi : i < r.toNat)
    (self : RingEntry) (hself : self = get (clockwiseOrder entries) ((m : Int) + i))
    (nodes : List UInt16)
    (hnodes : ∀ entry ∈ entries, entry.nodeId ≠ self.nodeId → entry.nodeId ∈ nodes) :
    ∃ partitions cluster partitionId group,
      Partitions.new entries r maxSize self.nodeId = some partitions ∧
      PartitionedCluster.setUpGroups partitions nodes = some cluster ∧
      cluster.getPartitionIdByKey calculateMD5 key = some partitionId ∧
      cluster.clusterNodes.nodesInPartitions[partitionId.toNat]? = some group ∧
      ((∀ nodeId, nodeId ∈ group ↔ nodeId ≠ self.nodeId ∧
          ∃ replica, IsReplica entries ringPosition r.toNat replica ∧ replica.nodeId = nodeId) ↔
        2 * i ≤ entries.length ∨ r.toNat = entries.length) := by
  subst hself
  have hbound := length_le_of_nodeIds hnodeIds
  have hne := clockwiseOrder_ne_nil hlength
  obtain ⟨partitions, -, cells, hnew, hrr, -, -, -, hsees, hn, hget⟩ := exists_sees (r := r)
    maxSize hnodeIds hpositions hlength (by omega) (m + i)
  rw [cast_add] at hnew hget
  -- the partition id of the key is its distance to the owner, by the shortest way
  obtain ⟨partitions', hnew', -, hdistance⟩ := getDistanceOfKey_eq calculateMD5 (r := r) hnodeIds
    hpositions hlength hposition howner (i := i) (by omega)
  obtain rfl := Option.some.inj (hnew'.symm.trans hnew)
  have hself : partitions'.selfEntry = get (clockwiseOrder entries) ((m : Int) + i) := by
    rw [hsees.self, hget, add_zero]
  obtain ⟨cluster, hsetup, hpartitions, -, hgroups⟩ := hsees.setUpGroups_spec nodes (by
    intro c hc hother
    obtain ⟨a, -, rfl⟩ := exists_get_of_mem hc
    rw [hget] at hother ⊢
    rw [hself] at hother
    exact hnodes _ ((clockwiseOrder_perm entries).mem_iff.mp (get_mem hne _)) hother)
  have hid : (UInt32.ofNat (min i (entries.length - i))).toNat = min i (entries.length - i) :=
    toNat_ofNat_of_lt' (by show _ < 2 ^ 32; omega)
  refine ⟨partitions', cluster, UInt32.ofNat (min i (entries.length - i)),
    groupAt cells r.toNat (min i (entries.length - i)), hnew, hsetup, ?_, ?_, ?_⟩
  · unfold getPartitionIdByKey
    rw [hpartitions, hdistance]
  · rw [hgroups, hid, hrr, getElem?_map, getElem?_range (by omega), Option.map_some]
  · -- the partition id is the shortest way to the owner, the replica is `i` steps after it
    rw [← arcs_agree_iff hi hr]
    exact groupAt_replicas_iff hnodeIds hpositions howner (by omega) hr hsees.holds hn hget _

/-- Two of three nodes hold each key: the second replica of the key `ah`, at 30, finds the owner,
    node 4. -/
theorem group_of_key_three : ∃ partitions cluster partitionId group,
    Partitions.new [⟨1, 2⟩, ⟨4, 29⟩, ⟨2, 35⟩] 2 100 2 = some partitions ∧
    PartitionedCluster.setUpGroups partitions [1, 4] = some cluster ∧
    cluster.getPartitionIdByKey md5Number [97, 104] = some partitionId ∧
    cluster.clusterNodes.nodesInPartitions[partitionId.toNat]? = some group ∧
    ∀ nodeId, nodeId ∈ group ↔ nodeId ≠ 2 ∧
      ∃ replica, IsReplica [⟨1, 2⟩, ⟨4, 29⟩, ⟨2, 35⟩] 30 2 replica ∧ replica.nodeId = nodeId := by
  have howner : IsOwner [⟨1, 2⟩, ⟨4, 29⟩, ⟨2, 35⟩] 30
      (get (clockwiseOrder [⟨1, 2⟩, ⟨4, 29⟩, ⟨2, 35⟩]) ((1 : Nat) : Int)) :=
    ⟨by decide, .inl (by decide)⟩
  obtain ⟨partitions, cluster, partitionId, group, hnew, hsetup, hid, hgroup, hiff⟩ :=
    group_of_key_iff 100 md5Number [97, 104] (r := 2) (by decide) (by decide) (by decide)
      (by decide) (by decide) howner (i := 1) (by decide) ⟨2, 35⟩ (by decide) [1, 4] (by decide)
  exact ⟨partitions, cluster, partitionId, group, hnew, hsetup, hid, hgroup,
    hiff.mpr (.inl (by decide))⟩

/-- Four of five nodes hold each key. Node 4 is three steps after node 1, which owns the key `d`,
    and two steps before it; its group for the key lacks the owner and has node 5, which does not
    hold the key. -/
theorem group_of_key_without_owner :
    ((Partitions.new [⟨1, 10⟩, ⟨2, 20⟩, ⟨3, 30⟩, ⟨4, 40⟩, ⟨5, 50⟩] 4 100 4).bind fun partitions =>
      (PartitionedCluster.setUpGroups partitions [1, 2, 3, 5]).bind fun cluster =>
        (cluster.getPartitionIdByKey md5Number [100]).bind fun partitionId =>
          cluster.clusterNodes.nodesInPartitions[partitionId.toNat]?) = some {2, 3, 5} := by
  decide

end keys

end MemDb
