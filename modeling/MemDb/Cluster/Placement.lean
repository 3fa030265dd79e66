import MemDb.Cluster.OrderedRing
import MemDb.Cluster.Partitions

/-! # Where keys are held

    The replicas of a key are its owner and the nodes that follow it clockwise. A node takes a key
    for its own when it is less than `nodesPerPartition` steps away from the owner, in either
    direction. The two agree only when keys have one replica or are held by all nodes.
-/

namespace MemDb

open Lib.Cycle RingEntries Option

/-- The entries that should hold the keys at a position: its owner and the next `r - 1` entries. -/
def IsReplica (entries : List RingEntry) (ringPosition : UInt32) (r : Nat) (entry : RingEntry) :
    Prop :=
  ∃ m k : Nat, k < r ∧ IsOwner entries ringPosition (get (clockwiseOrder entries) m) ∧
    entry = get (clockwiseOrder entries) ((m : Int) + k)

section ring
variable {entries : List RingEntry}

theorem clockwiseOrder_ne_nil (hlength : 2 ≤ entries.length) : clockwiseOrder entries ≠ [] := by
  intro hnil
  have hperm := (clockwiseOrder_perm entries).length_eq
  rw [hnil, List.length_nil] at hperm
  omega

theorem length_clockwiseOrder (entries : List RingEntry) :
    (clockwiseOrder entries).length = entries.length :=
  (clockwiseOrder_perm entries).length_eq

theorem nodup_of_nodeIds (hnodeIds : (entries.map (·.nodeId)).Nodup) :
    (clockwiseOrder entries).Nodup :=
  (clockwiseOrder_perm entries).nodup_iff.mpr (List.Nodup.of_map _ hnodeIds)

/-- The ring of the entries, as a list that looks like the sorted entries from everywhere. -/
theorem exists_ring (hnodeIds : (entries.map (·.nodeId)).Nodup)
    (hpositions : (entries.map (·.ringPosition)).Nodup) (hpos : 0 < entries.length) :
    ∃ ring cells, fromEntries entries = some ring ∧ ring.Ordered cells ∧ cells ≠ [] ∧
      cells.length = entries.length ∧ (∀ i, (get cells i).2 = get (clockwiseOrder entries) i) ∧
      (∀ e, e ∈ cells.map Prod.snd ↔ e ∈ entries) ∧ ∀ ringPosition entry,
        IsOwner entries ringPosition entry →
          ring.getRingEntryBelongsToPosition ringPosition = some entry := by
  obtain ⟨ring, cells, hring, hsnd, hordered⟩ := fromEntries_spec hnodeIds hpositions
  have hn : cells.length = entries.length := by
    rw [← length_clockwiseOrder, ← hsnd, List.length_map]
  have hcells : cells ≠ [] := List.length_pos_iff.mp (by omega)
  have hmem : ∀ e, e ∈ cells.map Prod.snd ↔ e ∈ entries := by
    intro e
    rw [hsnd, (clockwiseOrder_perm entries).mem_iff]
  refine ⟨ring, cells, hring, hordered, hcells, hn, fun i => ?_, hmem, ?_⟩
  · rw [← get_map Prod.snd hcells, hsnd]
  · intro ringPosition entry howner
    obtain ⟨found, hlookup, howner'⟩ :=
      hordered.getRingEntryBelongsToPosition_spec hcells ringPosition
    rw [hlookup, (howner'.congr hmem).unique hpositions howner]

/-- Every entry is reached from the owner. -/
theorem exists_offset (hne : clockwiseOrder entries ≠ []) (m : Nat) {entry : RingEntry}
    (hentry : entry ∈ entries) :
    ∃ i < entries.length, entry = get (clockwiseOrder entries) ((m : Int) + (i : Nat)) := by
  have hmem : entry ∈ (clockwiseOrder entries).rotate m :=
    List.mem_rotate.mpr ((clockwiseOrder_perm entries).mem_iff.mpr hentry)
  rw [rotate_eq_map hne] at hmem
  obtain ⟨i, hi, rfl⟩ := List.mem_map.mp hmem
  rw [List.mem_range, length_clockwiseOrder] at hi
  exact ⟨i, hi, rfl⟩

/-- The replicas are the first entries counted from the owner. -/
theorem isReplica_iff (hnodeIds : (entries.map (·.nodeId)).Nodup)
    (hpositions : (entries.map (·.ringPosition)).Nodup) {ringPosition : UInt32} {m : Nat}
    (howner : IsOwner entries ringPosition (get (clockwiseOrder entries) m)) {r i : Nat}
    (hr : r ≤ entries.length) (hi : i < entries.length) :
    IsReplica entries ringPosition r (get (clockwiseOrder entries) ((m : Int) + i)) ↔ i < r := by
  have hne : clockwiseOrder entries ≠ [] := by
    rw [← List.length_pos_iff, length_clockwiseOrder]
    omega
  constructor
  · rintro ⟨m', k, hk, howner', heq⟩
    have hsame := (get_inj (nodup_of_nodeIds hnodeIds) hne).mp (howner'.unique hpositions howner)
    have hmod := (get_inj (nodup_of_nodeIds hnodeIds) hne).mp heq
    have hshift : ((m' : Int) + k) % (clockwiseOrder entries).length =
        (m + k) % (clockwiseOrder entries).length := Int.ModEq.add_right _ hsame
    rw [hshift, length_clockwiseOrder, add_emod_inj m hi (by omega)] at hmod
    omega
  · intro hlt
    exact ⟨m, i, hlt, howner, rfl⟩

end ring

/-! ### Distances of keys -/

theorem natAbs_shortestWay (n d : Nat) : (shortestWay n d).natAbs = min d (n - d) := by
  unfold shortestWay
  split <;> omega

theorem length_le_of_nodeIds {entries : List RingEntry}
    (hnodeIds : (entries.map (·.nodeId)).Nodup) : entries.length ≤ 2 ^ 16 := by
  have hle := RingEntries.length_nodeIds_le hnodeIds
  rwa [List.length_map] at hle

section keys
variable {entries : List RingEntry} (calculateMD5 : SimpleString → UInt64) {r maxSize : UInt32}
  {key : SimpleString} {ringPosition : UInt32}

/-- The distance of a key at the node `i` steps clockwise of its owner. -/
theorem getDistanceOfKey_eq (hnodeIds : (entries.map (·.nodeId)).Nodup)
    (hpositions : (entries.map (·.ringPosition)).Nodup) (hlength : 2 ≤ entries.length)
    (hposition : Partitions.hashToPosition calculateMD5 maxSize key = some ringPosition) {m i : Nat}
    (howner : IsOwner entries ringPosition (get (clockwiseOrder entries) m))
    (hi : i < entries.length) :
    ∃ partitions, Partitions.new entries r maxSize
        (get (clockwiseOrder entries) ((m : Int) + i)).nodeId = some partitions ∧
      partitions.nodesPerPartition = r ∧
      partitions.getDistanceOfKey calculateMD5 key =
        some (UInt32.ofNat (min i (entries.length - i))) := by
  obtain ⟨ring, cells, hring, hordered, hcells, hn, hget, -, hlookup⟩ :=
    exists_ring hnodeIds hpositions (by omega)
  have hlinked := hordered.holds.linked (by omega)
  have hself := hordered.holds.getByNodeId_eq (get_mem hcells ((m : Int) + i))
  rw [hget] at hself
  -- from here on clockwise to the owner
  have hdistance := hordered.holds.getDistance_eq hlinked hcells (i := (m : Int) + i)
    (d := (entries.length - i) % entries.length) (by rw [hn]; exact Nat.mod_lt _ (by omega))
  have harrive : get (clockwiseOrder entries)
      ((m : Int) + i + ((entries.length - i) % entries.length : Nat)) =
        get (clockwiseOrder entries) m := by
    refine get_congr ?_
    rw [length_clockwiseOrder]
    rcases Nat.eq_zero_or_pos i with rfl | hpos
    · simp
    · rw [Nat.mod_eq_of_lt (by omega), show (m : Int) + i + ((entries.length - i : Nat) : Int) =
        m + entries.length by omega, Int.add_emod_right]
  rw [hget, hget, harrive, hn] at hdistance
  refine ⟨⟨ring, get (clockwiseOrder entries) ((m : Int) + i), r, maxSize⟩, ?_, rfl, ?_⟩
  · simp [Partitions.new, hring, hself]
  · simp only [Partitions.getDistanceOfKey, Partitions.getRingPositionByKey, hposition,
      hlookup _ _ howner, hdistance, bind_eq_bind, bind_some]
    rw [natAbs_shortestWay]
    rcases Nat.eq_zero_or_pos i with rfl | hpos
    · simp
    · rw [Nat.mod_eq_of_lt (by omega), show min (entries.length - i)
        (entries.length - (entries.length - i)) = min i (entries.length - i) by omega]
      rfl

/-- `canHoldKey` at the node of an entry. -/
def canHoldKeyAt (entries : List RingEntry) (r maxSize : UInt32) (key : SimpleString)
    (entry : RingEntry) : Option Bool :=
  (Partitions.new entries r maxSize entry.nodeId).bind fun partitions =>
    partitions.canHoldKey calculateMD5 key

section
variable (hnodeIds : (entries.map (·.nodeId)).Nodup)
  (hpositions : (entries.map (·.ringPosition)).Nodup) (hlength : 2 ≤ entries.length)
include hnodeIds hpositions hlength

theorem canHoldKeyAt_eq
    (hposition : Partitions.hashToPosition calculateMD5 maxSize key = some ringPosition) {m i : Nat}
    (howner : IsOwner entries ringPosition (get (clockwiseOrder entries) m))
    (hi : i < entries.length) :
    canHoldKeyAt calculateMD5 entries r maxSize key (get (clockwiseOrder entries) ((m : Int) + i)) =
      some (decide (min i (entries.length - i) < r.toNat)) := by
  obtain ⟨partitions, hnew, hr, hdistance⟩ := getDistanceOfKey_eq calculateMD5 (r := r) hnodeIds
    hpositions hlength hposition howner hi
  have hbound := length_le_of_nodeIds hnodeIds
  unfold canHoldKeyAt
  rw [hnew, bind_some, Partitions.canHoldKey, hdistance, map_some, hr]
  refine congrArg some (decide_eq_decide.mpr ?_)
  rw [UInt32.lt_iff_toNat_lt, UInt32.toNat_ofNat_of_lt' (by show _ < 2 ^ 32; omega)]

/-- The owner as a position of the sorted list. -/
theorem exists_owner (ringPosition : UInt32) :
    ∃ m : Nat, IsOwner entries ringPosition (get (clockwiseOrder entries) m) := by
  obtain ⟨ring, cells, -, hordered, hcells, -, hget, hmem, -⟩ :=
    exists_ring hnodeIds hpositions (by omega)
  obtain ⟨m, -, howner, -⟩ := hordered.exists_owner hcells ringPosition
  rw [hget] at howner
  exact ⟨m, howner.congr hmem⟩

end

/-- The number of nodes at the given distances from the owner. -/
theorem countP_entries (hne : clockwiseOrder entries ≠ []) (m : Nat) (p : RingEntry → Bool) :
    entries.countP p = (List.range entries.length).countP fun i : Nat =>
      p (get (clockwiseOrder entries) ((m : Int) + i)) := by
  have hperm : ((clockwiseOrder entries).rotate m).Perm entries :=
    (List.rotate_perm _ _).trans (clockwiseOrder_perm entries)
  rw [← hperm.countP_eq, rotate_eq_map hne, List.countP_map, length_clockwiseOrder]
  rfl

theorem countP_range_lt {k n : Nat} (hk : k ≤ n) :
    (List.range n).countP (fun i => decide (i < k)) = k := by
  obtain ⟨d, rfl⟩ := Nat.exists_eq_add_of_le hk
  rw [List.range_add, List.countP_append, List.countP_eq_length.mpr (by simp),
    List.countP_eq_zero.mpr (by simp), List.length_range, Nat.add_zero]

/-- The nodes that accept a key are its replicas, as many as they should be, exactly when there is
    one replica of each key or all nodes are replicas. -/
theorem replicas_accept_iff (hnodeIds : (entries.map (·.nodeId)).Nodup)
    (hpositions : (entries.map (·.ringPosition)).Nodup) (hlength : 2 ≤ entries.length)
    (hpos : 1 ≤ r.toNat) (hr : r.toNat ≤ entries.length)
    (hposition : Partitions.hashToPosition calculateMD5 maxSize key = some ringPosition) :
    ((∀ entry ∈ entries, ∃ accepts,
        canHoldKeyAt calculateMD5 entries r maxSize key entry = some accepts ∧
          (accepts = true ↔ IsReplica entries ringPosition r.toNat entry)) ∧
      (entries.countP fun entry =>
        canHoldKeyAt calculateMD5 entries r maxSize key entry == some true) = r.toNat) ↔
    r.toNat = 1 ∨ r.toNat = entries.length := by
  have hne := clockwiseOrder_ne_nil hlength
  obtain ⟨m, howner⟩ := exists_owner hnodeIds hpositions hlength ringPosition
  have haccepts : ∀ i < entries.length, canHoldKeyAt calculateMD5 entries r maxSize key
      (get (clockwiseOrder entries) ((m : Int) + (i : Nat))) =
        some (decide (min i (entries.length - i) < r.toNat)) :=
    fun i hi => canHoldKeyAt_eq calculateMD5 hnodeIds hpositions hlength hposition howner hi
  constructor
  · rintro ⟨hplaced, -⟩
    by_contra hcontra
    -- the node before the owner accepts the key
    have hi : entries.length - 1 < entries.length := by omega
    obtain ⟨accepts, hcan, hreplica⟩ := hplaced _
      ((clockwiseOrder_perm entries).mem_iff.mp
        (get_mem hne ((m : Int) + (entries.length - 1 : Nat))))
    rw [haccepts _ hi] at hcan
    rw [isReplica_iff hnodeIds hpositions howner hr hi, ← some.inj hcan, decide_eq_true_iff]
      at hreplica
    omega
  · intro hcases
    have hsame : ∀ i < entries.length, min i (entries.length - i) < r.toNat ↔ i < r.toNat := by
      intro i hi
      omega
    refine ⟨?_, ?_⟩
    · intro entry hentry
      obtain ⟨i, hi, rfl⟩ := exists_offset hne m hentry
      refine ⟨_, haccepts i hi, ?_⟩
      rw [isReplica_iff hnodeIds hpositions howner hr hi, decide_eq_true_iff, hsame i hi]
    · rw [countP_entries hne m]
      have hcount :
          ∀ i ∈ List.range entries.length, (canHoldKeyAt calculateMD5 entries r maxSize key
          (get (clockwiseOrder entries) ((m : Int) + (i : Nat))) == some true) =
            decide (i < r.toNat) := by
        intro i hi
        rw [List.mem_range] at hi
        rw [haccepts i hi]
        simp only [beq_eq_decide, some.injEq, decide_eq_true_eq, hsame i hi]
      rw [List.countP_congr fun i hi => by rw [hcount i hi], countP_range_lt hr]

/-- What `calculateMD5` returns for the texts `ah`, `d`, `4` and `5`. -/
def md5Number (input : SimpleString) : UInt64 :=
  ((List.lookup input [([97, 104], 4392140347305353130), ([100], 9401229660759851413),
    ([52], 12141694122699515677), ([53], 16490558405368226629)]).getD 0)

/-- With three replicas all three nodes hold the key `ah`, which is at 30. -/
theorem replicas_accept_three :
    ((∀ entry ∈ [⟨1, 2⟩, ⟨4, 29⟩, ⟨2, 35⟩], ∃ accepts,
        canHoldKeyAt md5Number [⟨1, 2⟩, ⟨4, 29⟩, ⟨2, 35⟩] 3 100 [97, 104] entry = some accepts ∧
          (accepts = true ↔ IsReplica [⟨1, 2⟩, ⟨4, 29⟩, ⟨2, 35⟩] 30 3 entry)) ∧
      ([⟨1, 2⟩, ⟨4, 29⟩, ⟨2, 35⟩].countP fun entry =>
        canHoldKeyAt md5Number [⟨1, 2⟩, ⟨4, 29⟩, ⟨2, 35⟩] 3 100 [97, 104] entry == some true) =
          3) :=
  (replicas_accept_iff md5Number (r := 3) (by decide) (by decide) (by decide) (by decide)
    (by decide) (by decide)).mpr (.inr (by decide))

/-- Three nodes and two replicas: all three nodes accept the key `ah` of node 4. -/
theorem three_nodes_accept :
    ([⟨1, 2⟩, ⟨4, 29⟩, ⟨2, 35⟩].countP fun entry =>
      canHoldKeyAt md5Number [⟨1, 2⟩, ⟨4, 29⟩, ⟨2, 35⟩] 2 100 [97, 104] entry == some true) =
        3 := by
  decide

end keys

end MemDb
