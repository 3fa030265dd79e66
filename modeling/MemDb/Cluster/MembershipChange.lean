import MemDb.Cluster.Groups

/-! # Nodes that join and leave

    When a node leaves, the others take it out of their groups and put no other node in its place;
    when a node joins, they put it into the groups that it belongs to and take out a node that they
    guess from the end of the group. Both are compared with the groups of a node that starts with
    the new ring.
-/

namespace MemDb

open Lib Lib.Cycle RingEntries PartitionedCluster List Option Nat UInt32

/-! ### Positions -/

/-- A node `d` steps clockwise of the observer leaves a ring of `n`. -/
theorem leave_arcs_iff {n r d : Nat} (hd : 0 < d) (hdn : d < n) (hr : 2 ≤ r) (hrn : r ≤ n) :
    (∀ j < r, ∀ a, 0 < a → a < n - 1 → ((skip d a + j) % n < r ↔ (a + j) % (n - 1) < r)) ↔
      r = n ∨ (r ≤ d ∧ d + r ≤ n) := by
  unfold skip
  constructor
  · intro h
    by_contra hcontra
    rcases lt_or_ge d r with hlow | hhigh
    · -- the last node of the first group is replaced
      have := h 0 (by omega) (r - 1) (by omega) (by omega)
      rw [if_neg (by omega), mod_eq_of_lt (by omega), mod_eq_of_lt (by omega)] at this
      omega
    · -- the first node of the last group is replaced
      have := h (r - 1) (by omega) (n - r) (by omega) (by omega)
      rw [if_pos (by omega), mod_eq_of_lt (by omega), show n - r + (r - 1) = n - 1 by omega,
        mod_self] at this
      omega
  · intro h j hj a ha han
    have hsmall := mod_of_lt_two_mul (m := a + j) (n := n - 1) (by omega)
    split
    · have hbig := mod_of_lt_two_mul (m := a + j) (n := n) (by omega)
      rw [hsmall, hbig]
      split <;> split <;> omega
    · have hbig := mod_of_lt_two_mul (m := a + 1 + j) (n := n) (by omega)
      rw [hsmall, hbig]
      split <;> split <;> omega

/-- Whether the new node, `d` steps clockwise of the observer, is behind the head of partition
    `j`. -/
def Displaces (n r d j : Nat) : Prop := 0 < (d + j) % n ∧ (d + j) % n < r

/-- The position of the node that the new one displaces in partition `j`. -/
def displaced (n r j : Nat) : Nat := if 2 * (r - 1 - j) ≤ n then r - j else r - 2 - j

/-- A node joins, so that there are `n + 1` nodes and it is `d` steps clockwise of the observer. -/
theorem join_arcs_iff {n r d : Nat} (hd : 0 < d) (hdn : d ≤ n) (hr : 2 ≤ r) (hrn : r ≤ n) :
    (∀ j < r, (Displaces (n + 1) r d j ∧ d ≠ displaced (n + 1) r j ↔ (d + j) % (n + 1) < r) ∧
      ∀ a, 0 < a → a < n →
        ((a + j) % n < r ∧ ¬ (Displaces (n + 1) r d j ∧ skip d a = displaced (n + 1) r j) ↔
          (skip d a + j) % (n + 1) < r)) ↔
      r + d ≤ n + 1 ∧ 2 * (r - 1) ≤ n + 1 := by
  unfold Displaces displaced skip
  constructor
  · intro h
    have hfirst : r + d ≤ n + 1 := by
      by_contra hcontra
      -- the new node is itself the head of a partition
      have := (h (n + 1 - d) (by omega)).1
      rw [show d + (n + 1 - d) = n + 1 by omega, mod_self] at this
      omega
    refine ⟨hfirst, ?_⟩
    by_contra hcontra
    -- the wrong node is taken out of the first group
    have := (h 0 (by omega)).2 (r - 1) (by omega) (by omega)
    rw [if_neg (by omega), if_neg (by omega), mod_eq_of_lt (by omega), mod_eq_of_lt (by omega),
      mod_eq_of_lt (by omega)] at this
    omega
  · rintro ⟨hfirst, hsecond⟩ j hj
    rw [if_pos (by omega), mod_eq_of_lt (show d + j < n + 1 by omega)]
    refine ⟨by omega, ?_⟩
    intro a ha han
    have hsmall := mod_of_lt_two_mul (m := a + j) (n := n) (by omega)
    split
    · have hbig := mod_of_lt_two_mul (m := a + j) (n := n + 1) (by omega)
      rw [hsmall, hbig]
      split <;> split <;> omega
    · have hbig := mod_of_lt_two_mul (m := a + 1 + j) (n := n + 1) (by omega)
      rw [hsmall, hbig]
      split <;> split <;> omega

/-! ### A node leaves -/

section insert
variable {big small : RingEntries} {p q : List (Nat × RingEntry)} {x : Nat × RingEntry}

theorem length_insert : (p ++ x :: q).length = (p ++ q).length + 1 := by
  simp
  omega

variable {a r j : Nat} {cells : List (Nat × RingEntry)}

theorem skip_lt {n : Nat} (d : Nat) (ha : a < n) : skip d a < n + 1 := by
  unfold skip
  split <;> omega

theorem skip_ne (d a : Nat) : skip d a ≠ d := by
  unfold skip
  split <;> omega

theorem skip_inj {d b : Nat} : skip d a = skip d b ↔ a = b := by
  unfold skip
  split <;> split <;> omega

/-- The positions of the bigger ring are those of the smaller one and the one in between. -/
theorem forall_skip {n d : Nat} (hd : d ≤ n) {P : Nat → Prop} :
    (∀ b < n + 1, P b) ↔ P d ∧ ∀ a < n, P (skip d a) := by
  constructor
  · intro h
    exact ⟨h d (by omega), fun a ha => h _ (skip_lt d ha)⟩
  · rintro ⟨hself, hothers⟩ b hb
    rcases lt_trichotomy b d with hlt | rfl | hgt
    · have := hothers b (by omega)
      rwa [skip, if_pos hlt] at this
    · exact hself
    · have := hothers (b - 1) (by omega)
      rwa [skip, if_neg (by omega), Nat.sub_add_cancel (by omega)] at this

theorem exists_skip_iff {n d : Nat} {P : Nat → Prop} (ha : a < n) :
    (∃ b < n, skip d a = skip d b ∧ P b) ↔ P a := by
  simp only [skip_inj]
  constructor
  · rintro ⟨_, -, rfl, hP⟩
    exact hP
  · intro hP
    exact ⟨a, ha, rfl, hP⟩

theorem skip_eq_zero_iff {d : Nat} (hd : 0 < d) : skip d a = 0 ↔ a = 0 := by
  unfold skip
  split <;> omega

theorem get_zero_insert (x : Nat × RingEntry) (hp : p ≠ []) :
    get (p ++ x :: q) 0 = get (p ++ q) 0 := by
  obtain ⟨c, p, rfl⟩ := exists_cons_of_ne_nil hp
  rfl

/-- The nodes of the group are those at the positions `P`. -/
def Marks (cells : List (Nat × RingEntry)) (P : Nat → Prop) (group : Finset UInt16) : Prop :=
  ∀ nodeId, nodeId ∈ group ↔ ∃ a < cells.length, P a ∧ (get cells (a : Nat)).2.nodeId = nodeId

section marks
variable {ring : RingEntries} {P Q : Nat → Prop} {group group' : Finset UInt16}

section
variable (h : ring.Holds cells)
include h

theorem Marks.mem_iff (hgroup : Marks cells P group) (ha : a < cells.length) :
    (get cells (a : Nat)).2.nodeId ∈ group ↔ P a := by
  rw [hgroup]
  constructor
  · rintro ⟨b, hb, hP, heq⟩
    exact (h.nodeId_inj hb ha).mp heq ▸ hP
  · intro hP
    exact ⟨a, ha, hP, rfl⟩

/-- Groups are the same if they have the same positions. -/
theorem Marks.eq_iff (hgroup : Marks cells P group) (hgroup' : Marks cells Q group') :
    group = group' ↔ ∀ a < cells.length, (P a ↔ Q a) := by
  constructor
  · rintro rfl a ha
    rw [← hgroup.mem_iff h ha, hgroup'.mem_iff h ha]
  · intro hall
    ext nodeId
    rw [hgroup, hgroup']
    exact exists_congr fun a => and_congr_right fun ha => and_congr_left' (hall a ha)

theorem marks_groupAt (hr : 1 ≤ r) (hne : cells ≠ []) (j : Nat) :
    Marks cells (fun a => a ≠ 0 ∧ (a + j) % cells.length < r) (groupAt cells r j) := by
  intro nodeId
  constructor
  · intro hmem
    obtain ⟨a, ha, rfl⟩ := exists_of_mem_groupAt hne hmem
    exact ⟨a, ha, (h.mem_groupAt hr j ha).mp hmem, rfl⟩
  · rintro ⟨a, ha, hP, rfl⟩
    exact (h.mem_groupAt hr j ha).mpr hP

theorem Marks.erase (hgroup : Marks cells P group) {d : Nat} (hd : d < cells.length) :
    Marks cells (fun a => P a ∧ a ≠ d) (group.erase (get cells (d : Nat)).2.nodeId) := by
  intro nodeId
  rw [Finset.mem_erase, hgroup]
  constructor
  · rintro ⟨hne, a, ha, hP, rfl⟩
    exact ⟨a, ha, ⟨hP, fun heq => hne (heq ▸ rfl)⟩, rfl⟩
  · rintro ⟨a, ha, ⟨hP, hne⟩, rfl⟩
    exact ⟨fun heq => hne ((h.nodeId_inj ha hd).mp heq), a, ha, hP, rfl⟩

end

theorem Marks.insert (hgroup : Marks cells P group) {d : Nat} (hd : d < cells.length) :
    Marks cells (fun a => P a ∨ a = d) (insert (get cells (d : Nat)).2.nodeId group) := by
  intro nodeId
  rw [Finset.mem_insert, hgroup]
  constructor
  · rintro (rfl | ⟨a, ha, hP, rfl⟩)
    · exact ⟨d, hd, .inr rfl, rfl⟩
    · exact ⟨a, ha, .inl hP, rfl⟩
  · rintro ⟨a, ha, hP | rfl, rfl⟩
    · exact .inr ⟨a, ha, hP, rfl⟩
    · exact .inl rfl

/-- A group of the smaller ring, in the bigger one. -/
theorem Marks.skip (hgroup : Marks (p ++ q) P group) (x : Nat × RingEntry) :
    Marks (p ++ x :: q) (fun b => ∃ a < (p ++ q).length, b = skip p.length a ∧ P a) group := by
  intro nodeId
  rw [hgroup]
  constructor
  · rintro ⟨a, ha, hP, rfl⟩
    exact ⟨_, length_insert ▸ skip_lt p.length ha, ⟨a, ha, rfl, hP⟩, by rw [get_insert x ha]⟩
  · rintro ⟨_, -, ⟨a, ha, rfl, hP⟩, rfl⟩
    exact ⟨a, ha, hP, by rw [get_insert x ha]⟩

end marks

theorem erase_groupAt_iff (hbig : big.Holds (p ++ x :: q)) (hsmall : small.Holds (p ++ q))
    (hp : p ≠ []) (hr : 1 ≤ r) (j : Nat) :
    (groupAt (p ++ x :: q) r j).erase x.2.nodeId = groupAt (p ++ q) r j ↔
      ∀ a, 0 < a → a < (p ++ q).length →
        ((skip p.length a + j) % ((p ++ q).length + 1) < r ↔ (a + j) % (p ++ q).length < r) := by
  have hpos : 0 < p.length := length_pos_iff.mpr hp
  have herased := (marks_groupAt hbig hr (by simp) j).erase hbig (d := p.length) (by simp)
  rw [get_insert_self x] at herased
  rw [herased.eq_iff hbig ((marks_groupAt hsmall hr (by simp [hp]) j).skip x), length_insert,
    forall_skip (d := p.length) (by simp), and_iff_right (by simp [(skip_ne p.length _).symm])]
  refine forall_congr' fun a => ?_
  rw [imp.swap (a := 0 < a)]
  refine imp_congr_right fun hlt => ?_
  rw [exists_skip_iff hlt]
  grind [skip_eq_zero_iff (a := a) hpos, skip_ne p.length a]

/-! ### A node joins -/

/-- What `updateNeighborsWithNewNode` makes of the group of a partition. -/
def updatedGroup (cells : List (Nat × RingEntry)) (r : Nat) (newNode : UInt16) (j : Nat)
    (group : Finset UInt16) : Finset UInt16 :=
  if (clockwise cells (-(j : Int)) (r - 1)).any (·.nodeId == newNode) then
    (insert newNode group).erase (get cells (displaced cells.length r j : Nat)).2.nodeId
  else group

theorem RingEntries.Holds.any_clockwise_iff (h : big.Holds cells) {d : Nat} (hr : r ≤ cells.length)
    (j : Nat) :
    (clockwise cells (-(j : Int)) (r - 1)).any
      (·.nodeId == (get cells (d : Nat)).2.nodeId) = true ↔ Displaces cells.length r d j := by
  unfold Displaces
  rw [List.any_eq_true]
  constructor
  · rintro ⟨entry, hentry, heq⟩
    obtain ⟨k, hk, rfl⟩ := mem_map.mp hentry
    rw [mem_range] at hk
    rw [beq_iff_eq, add_assoc, ← cast_one, ← cast_add] at heq
    have := (h.nodeId_eq_iff j (by omega)).mp heq.symm
    omega
  · rintro ⟨hpos, hlt⟩
    refine ⟨_, mem_map.mpr ⟨(d + j) % cells.length - 1, mem_range.mpr (by omega), rfl⟩, ?_⟩
    rw [beq_iff_eq, add_assoc, ← cast_one, ← cast_add,
      show 1 + ((d + j) % cells.length - 1) = (d + j) % cells.length by omega]
    exact ((h.nodeId_eq_iff j (by omega)).mpr rfl).symm

theorem getLast?_clockwise (cells : List (Nat × RingEntry)) (i : Int) (k : Nat) :
    (clockwise cells i (k + 1)).getLast? = some (get cells (i + 1 + k)).2 := by
  unfold clockwise
  rw [range_succ, map_append, map_singleton, getLast?_concat]

/-- The node that is taken out comes right after or right before the end of the group. -/
theorem Partitions.Sees.getOldNodeIdPartitionMember_eq {cluster : PartitionedCluster}
    (h : cluster.partitions.Sees cells) (hr : 2 ≤ r) (hrn : r ≤ cells.length) (hj : j < r) :
    cluster.getOldNodeIdPartitionMember (clockwise cells (-(j : Int)) (r - 1)) =
      some (get cells (displaced cells.length r j : Nat)).2.nodeId := by
  have hlast : (clockwise cells (-(j : Int)) (r - 1)).getLast? =
      some (get cells (0 + (r - 1 - j : Nat))).2 := by
    obtain ⟨k, rfl⟩ := Nat.exists_eq_add_of_le hr
    rw [show 2 + k - 1 = k + 1 by omega, getLast?_clockwise,
      show -(j : Int) + 1 + k = 0 + (k + 1 - j : Nat) by omega]
  have hdistance := h.holds.getDistance_eq h.linked h.nonempty 0 (d := r - 1 - j) (by omega)
  have hnext := h.holds.getNeighborClockwise_eq h.linked h.nonempty (0 + ((r - 1 - j : Nat) : Int))
  have hback := h.holds.getNeighborCounterClockwise_eq h.linked h.nonempty
    (0 + ((r - 1 - j : Nat) : Int))
  unfold getOldNodeIdPartitionMember Partitions.getDistance
    Partitions.getNeighborClockwiseByNodeId Partitions.getNeighborCounterClockwiseByNodeId
  simp only [hlast, h.self, hdistance, bind_eq_bind, bind_some]
  unfold displaced
  by_cases hnear : 2 * (r - 1 - j) ≤ cells.length
  · have hsign : 0 ≤ shortestWay cells.length (r - 1 - j) := by
      unfold shortestWay
      split <;> omega
    rw [if_pos hsign, if_pos hnear, hnext, bind_some, map_some,
      show (0 : Int) + (r - 1 - j : Nat) + 1 = (r - j : Nat) by omega]
  · have hsign : ¬ 0 ≤ shortestWay cells.length (r - 1 - j) := by
      unfold shortestWay
      split <;> omega
    rw [if_neg hsign, if_neg hnear, hback, bind_some, map_some,
      show (0 : Int) + (r - 1 - j : Nat) - 1 = (r - 2 - j : Nat) by omega]

theorem displaced_lt {n : Nat} (hr : r ≤ n) : displaced (n + 1) r j < n + 1 := by
  unfold displaced
  split <;> omega

section
variable (hbig : big.Holds (p ++ x :: q))
include hbig

theorem RingEntries.Holds.displaces_iff (hrn : r ≤ (p ++ q).length) (j : Nat) :
    (clockwise (p ++ x :: q) (-(j : Int)) (r - 1)).any (·.nodeId == x.2.nodeId) = true ↔
      Displaces ((p ++ q).length + 1) r p.length j := by
  have hany := hbig.any_clockwise_iff (r := r) (d := p.length) (by rw [length_insert]; omega) j
  rwa [get_insert_self x, length_insert] at hany

/-- The positions of the group that takes the new node in. -/
theorem marks_updatedGroup (hsmall : small.Holds (p ++ q)) (hp : p ≠ []) (hr : 1 ≤ r)
    (hrn : r ≤ (p ++ q).length) (j : Nat) :
    Marks (p ++ x :: q) (fun b =>
        ((∃ a < (p ++ q).length, b = skip p.length a ∧ a ≠ 0 ∧ (a + j) % (p ++ q).length < r) ∨
          Displaces ((p ++ q).length + 1) r p.length j ∧ b = p.length) ∧
        ¬ (Displaces ((p ++ q).length + 1) r p.length j ∧ b = displaced ((p ++ q).length + 1) r j))
      (updatedGroup (p ++ x :: q) r x.2.nodeId j (groupAt (p ++ q) r j)) := by
  have hgroup := (marks_groupAt hsmall hr (by simp [hp]) j).skip x
  unfold updatedGroup
  rw [length_insert, ← hbig.displaces_iff hrn]
  split
  · next hbehind =>
    have hupdated := (hgroup.insert (d := p.length) (by simp)).erase hbig
      (d := displaced ((p ++ q).length + 1) r j) (by rw [length_insert]; exact displaced_lt hrn)
    rw [get_insert_self x] at hupdated
    simpa [hbehind] using hupdated
  · next hahead => simpa [hahead] using hgroup

theorem updatedGroup_iff (hsmall : small.Holds (p ++ q)) (hp : p ≠ []) (hr : 1 ≤ r)
    (hrn : r ≤ (p ++ q).length) (j : Nat) :
    updatedGroup (p ++ x :: q) r x.2.nodeId j (groupAt (p ++ q) r j) = groupAt (p ++ x :: q) r j ↔
      (Displaces ((p ++ q).length + 1) r p.length j ∧
          p.length ≠ displaced ((p ++ q).length + 1) r j ↔
        (p.length + j) % ((p ++ q).length + 1) < r) ∧
      ∀ a, 0 < a → a < (p ++ q).length →
        ((a + j) % (p ++ q).length < r ∧ ¬ (Displaces ((p ++ q).length + 1) r p.length j ∧
            skip p.length a = displaced ((p ++ q).length + 1) r j) ↔
          (skip p.length a + j) % ((p ++ q).length + 1) < r) := by
  have hpos : 0 < p.length := length_pos_iff.mpr hp
  rw [(marks_updatedGroup hbig hsmall hp hr hrn j).eq_iff hbig (marks_groupAt hbig hr (by simp) j),
    length_insert, forall_skip (d := p.length) (by simp)]
  refine and_congr (by grind [skip_ne]) ?_
  refine forall_congr' fun a => ?_
  rw [imp.swap (a := 0 < a)]
  refine imp_congr_right fun hlt => ?_
  rw [exists_skip_iff hlt]
  grind [skip_eq_zero_iff (a := a) hpos, skip_ne p.length a]

end

end insert

/-! ### Handling a change -/

section handlers
variable {cluster : PartitionedCluster} {cells : List (Nat × RingEntry)}

section
variable (h : cluster.partitions.Sees cells) (hr : 2 ≤ cluster.partitions.nodesPerPartition.toNat)
  (hrn : cluster.partitions.nodesPerPartition.toNat ≤ cells.length) (newNode : UInt16)
include h hr hrn

theorem Partitions.Sees.updatePartitionWithNewNode_spec {j : Nat}
    (hj : j < cluster.partitions.nodesPerPartition.toNat)
    (hgroups : j < cluster.clusterNodes.nodesInPartitions.length) :
    ∃ cluster', PartitionedCluster.updatePartitionWithNewNode newNode j (get cells (-(j : Int))).2
        cluster = some cluster' ∧ cluster'.partitions = cluster.partitions ∧
      cluster'.clusterNodes.nodesInPartitions = cluster.clusterNodes.nodesInPartitions.modify j
        (updatedGroup cells cluster.partitions.nodesPerPartition.toNat newNode j) := by
  have hneighbors := h.getNeighborsClockwiseByNodeId_eq (-(j : Int))
  rw [show min (cluster.partitions.nodesPerPartition.toNat - 1) (max 1 (cells.length - 1)) =
    cluster.partitions.nodesPerPartition.toNat - 1 by omega] at hneighbors
  have hold := h.getOldNodeIdPartitionMember_eq hr hrn hj
  unfold updatePartitionWithNewNode updatedGroup
  simp only [hneighbors, bind_eq_bind, bind_some]
  split
  · refine ⟨⟨cluster.partitions, insert newNode cluster.clusterNodes.allNodesById,
      (cluster.clusterNodes.nodesInPartitions.modify j (insert newNode)).modify j
        (·.erase (get cells (displaced cells.length
          cluster.partitions.nodesPerPartition.toNat j : Nat)).2.nodeId)⟩, ?_, rfl, ?_⟩
    · simp [ClusterNodes.addNodeInPartition, ClusterNodes.removeNodeFromPartition,
        ClusterNodes.modifyPartition, ClusterNodes.addNode, hgroups, hold]
    · show modify _ _ _ = _
      rw [modify_modify_eq]
      rfl
  · refine ⟨cluster, rfl, rfl, ext_getElem? fun k => ?_⟩
    rw [getElem?_modify]
    cases cluster.clusterNodes.nodesInPartitions[k]? <;> simp

/-- The loop of `updateNeighborsWithNewNode` goes through one partition after another. -/
theorem Partitions.Sees.updateNewNodeFrom_spec (remaining : Nat) {i : Nat}
    (hi : i + remaining ≤ cluster.partitions.nodesPerPartition.toNat)
    (hgroups : i + remaining ≤ cluster.clusterNodes.nodesInPartitions.length) :
    ∃ cluster', PartitionedCluster.updateNewNodeFrom newNode remaining i (get cells (-(i : Int))).2
        cluster = some cluster' ∧
      ∀ j, cluster'.clusterNodes.nodesInPartitions[j]? =
        cluster.clusterNodes.nodesInPartitions[j]?.map fun group =>
          if i ≤ j ∧ j < i + remaining then
            updatedGroup cells cluster.partitions.nodesPerPartition.toNat newNode j group
          else group := by
  -- the loop goes counterclockwise from the observer and updates one partition a round
  induction remaining generalizing i cluster with
  | zero =>
    refine ⟨cluster, rfl, fun j => ?_⟩
    have hnone : ¬ (i ≤ j ∧ j < i + 0) := by omega
    simp only [hnone, if_false, Option.map_id_fun', id]
  | succ remaining ih =>
    obtain ⟨cluster₁, hupdate, hpartitions, hmodify⟩ :=
      h.updatePartitionWithNewNode_spec hr hrn newNode (j := i) (by omega) (by omega)
    rw [← hpartitions] at h hr hrn hi
    have hback := h.getNeighborCounterClockwiseByNodeId_eq i
    obtain ⟨cluster', hrest, hgroups'⟩ := ih h hr hrn (i := i + 1) (by omega)
      (by rw [hmodify, length_modify]; omega)
    refine ⟨cluster', ?_, fun j => ?_⟩
    · rw [updateNewNodeFrom]
      simp only [hupdate, hback, bind_eq_bind, bind_some]
      exact hrest
    · rw [hgroups', hmodify, hpartitions]
      exact map_modify_range _
        (updatedGroup cells cluster.partitions.nodesPerPartition.toNat newNode) i remaining j

end

variable {p q : List (Nat × RingEntry)} {partitions : Partitions} {x : Nat × RingEntry}

theorem Partitions.Sees.deleteByNodeId_spec (h : partitions.Sees (p ++ x :: q)) (hp : p ≠ []) :
    ∃ partitions', partitions.deleteByNodeId x.2.nodeId = some partitions' ∧
      partitions'.Sees (p ++ q) ∧ partitions'.selfEntry = partitions.selfEntry ∧
      partitions'.nodesPerPartition = partitions.nodesPerPartition := by
  have hpos : 0 < p.length := length_pos_iff.mpr hp
  have hrot : (p ++ x :: q) ~r (q ++ p) ++ [x] := by
    have hrotated : (p ++ [x]) ++ q ~r q ++ (p ++ [x]) := isRotated_append
    simpa using hrotated
  have hothers : q ++ p ≠ [] := by simp [hp]
  obtain ⟨ring', hdelete, hholds, hlinked, -, -⟩ := (h.holds.of_isRotated hrot).delete hothers
  have hback : (q ++ p) ~r (p ++ q) := isRotated_append
  refine ⟨{ partitions with ringEntries := ring' }, ?_, ⟨hholds.of_isRotated hback,
    hlinked.of_isRotated (by simpa using hothers) (hback.map _), by simp [hp], ?_,
    h.nodesPerPartition⟩, rfl, rfl⟩
  · rw [Partitions.deleteByNodeId, hdelete, map_some]
  · rw [← get_zero_insert x hp]
    exact h.self

theorem Partitions.Sees.addByNode_spec (calculateMD5 : SimpleString → UInt64)
    {cells' : List (Nat × RingEntry)} (h : partitions.Sees cells)
    (hordered : partitions.ringEntries.Ordered cells') (hrot : cells' ~r cells)
    (hlength : 2 ≤ cells.length) (hmaxSize : partitions.maxSize ≠ 0) {newNode : UInt16}
    (hnew : ∀ c ∈ cells, c.2.nodeId ≠ newNode) :
    ∃ partitions' p q x, partitions.addByNode calculateMD5 newNode = some (partitions', x.2) ∧
      p ≠ [] ∧ cells = p ++ q ∧ x.2.nodeId = newNode ∧ partitions'.Sees (p ++ x :: q) ∧
      partitions'.selfEntry = partitions.selfEntry ∧
      partitions'.nodesPerPartition = partitions.nodesPerPartition := by
  obtain ⟨ringPosition, hposition⟩ : ∃ ringPosition, Partitions.hashToPosition calculateMD5
      partitions.maxSize (Partitions.nodeIdToString newNode) = some ringPosition := by
    unfold Partitions.hashToPosition
    rw [if_neg hmaxSize]
    exact ⟨_, rfl⟩
  have hlength' := hrot.perm.length_eq
  have hnodeId : ∀ c ∈ cells', c.2.nodeId ≠ (RingEntry.mk newNode ringPosition).nodeId :=
    fun c hc => hnew c (hrot.perm.mem_iff.mp hc)
  obtain ⟨ring', before, after, rfl, hadd, hholds⟩ := hordered.add_holds (by omega) hnodeId
  obtain ⟨p, q, hp, rfl, hrot'⟩ := exists_insert_of_isRotated hrot h.nonempty
    (partitions.ringEntries.heap.next, (⟨newNode, ringPosition⟩ : RingEntry))
  have hpos : 0 < p.length := length_pos_iff.mpr hp
  have hholds' := hholds.of_isRotated hrot'
  refine ⟨{ partitions with ringEntries := ring' }, p, q,
    (partitions.ringEntries.heap.next, ⟨newNode, ringPosition⟩), ?_, hp, rfl, rfl,
    ⟨hholds', hholds'.linked ?_, by simp, ?_, h.nodesPerPartition⟩, rfl, rfl⟩
  · simp [Partitions.addByNode, hposition, hadd]
  · rw [length_insert]
    omega
  · rw [get_zero_insert _ hp]
    exact h.self

theorem map_range_eq_iff {β : Type} {f g : Nat → β} {n : Nat} :
    (range n).map f = (range n).map g ↔ ∀ j < n, f j = g j := by
  rw [map_inj_left]
  simp only [mem_range]

/-- A node is as far away as there are nodes in front of it. -/
theorem Partitions.Sees.getDistanceClockwise_split (h : partitions.Sees (p ++ x :: q)) :
    partitions.getDistanceClockwise x.2.nodeId = some (UInt32.ofNat p.length) := by
  have hdistance := h.holds.getDistanceClockwise_eq h.linked h.nonempty 0 (d := p.length) (by simp)
  rw [zero_add, get_insert_self x, ← h.self] at hdistance
  exact hdistance

/-- The groups after another node has left. -/
theorem Partitions.Sees.handleDeletion_iff (h : cluster.partitions.Sees (p ++ x :: q)) (hp : p ≠ [])
    (hr : 2 ≤ cluster.partitions.nodesPerPartition.toNat)
    (hrn : cluster.partitions.nodesPerPartition.toNat ≤ (p ++ x :: q).length) {nodes : List UInt16}
    (hnodes : ∀ c ∈ p ++ x :: q, c.2.nodeId ≠ cluster.getNodeId → c.2.nodeId ∈ nodes)
    (hsetup : PartitionedCluster.setUpGroups cluster.partitions nodes = some cluster) :
    ∃ cluster' full, cluster.handleDeletion x.2.nodeId = some cluster' ∧
      PartitionedCluster.setUpGroups cluster'.partitions nodes = some full ∧
      (cluster'.clusterNodes.nodesInPartitions = full.clusterNodes.nodesInPartitions ↔
        cluster.partitions.nodesPerPartition.toNat = (p ++ x :: q).length ∨
          (cluster.partitions.nodesPerPartition.toNat ≤ p.length ∧
            p.length + cluster.partitions.nodesPerPartition.toNat ≤ (p ++ x :: q).length)) := by
  have hpos : 0 < p.length := length_pos_iff.mpr hp
  obtain ⟨cluster₀, hsetup₀, -, hall, hgroups⟩ := h.setUpGroups_spec nodes hnodes
  obtain rfl := some.inj (hsetup₀.symm.trans hsetup)
  obtain ⟨partitions', hdelete, hsees, hself, hsame⟩ := h.deleteByNodeId_spec hp
  obtain ⟨full, hfull, -, -, hfullGroups⟩ := hsees.setUpGroups_spec nodes (by
    intro c hc hother
    rw [hself] at hother
    refine hnodes c ?_ hother
    rcases mem_append.mp hc with hmem | hmem
    · exact mem_append_left _ hmem
    · exact mem_append_right _ (mem_cons_of_mem _ hmem))
  -- the node that leaves is known, since all nodes of the ring but the observer are
  have hknown : cluster₀.clusterNodes.existsByNodeId x.2.nodeId = true := by
    refine decide_eq_true (hall (mem_toFinset.mpr (hnodes x (by simp) ?_)))
    have hinj := h.holds.nodeId_inj (a := p.length) (b := 0) (by simp) (by simp)
    rw [get_insert_self x] at hinj
    rw [getNodeId, h.self]
    exact fun heq => hpos.ne' (hinj.mp heq)
  refine ⟨⟨partitions',
    (cluster₀.clusterNodes.deleteNodeById x.2.nodeId).deleteNodeById x.2.nodeId⟩,
    full, ?_, hfull, ?_⟩
  · simp [handleDeletion, hknown, updateNeighborsWithDeletedNode,
      hdelete]
  · have hlt : p.length < (p ++ q).length + 1 := by
      rw [length_append]
      omega
    rw [hfullGroups, hsame, length_insert,
      ← leave_arcs_iff hpos hlt hr (by rwa [← length_insert])]
    simp only [ClusterNodes.deleteNodeById, hgroups, List.map_map, Nat.add_sub_cancel]
    rw [map_range_eq_iff]
    refine forall₂_congr fun j hj => ?_
    rw [← erase_groupAt_iff h.holds hsees.holds hp (by omega) j]
    simp

/-- The groups after a node has joined in the neighbourhood. -/
theorem Partitions.Sees.updateNeighborsWithNewNode_iff {partitions' : Partitions}
    (h : cluster.partitions.Sees (p ++ q)) (hp : p ≠ [])
    (hr : 2 ≤ cluster.partitions.nodesPerPartition.toNat)
    (hrn : cluster.partitions.nodesPerPartition.toNat ≤ (p ++ q).length) {nodes : List UInt16}
    (hnodes : ∀ c ∈ p ++ q, c.2.nodeId ≠ cluster.getNodeId → c.2.nodeId ∈ nodes)
    (hsetup : PartitionedCluster.setUpGroups cluster.partitions nodes = some cluster)
    (hsees : partitions'.Sees (p ++ x :: q))
    (hself : partitions'.selfEntry = cluster.partitions.selfEntry)
    (hsame : partitions'.nodesPerPartition = cluster.partitions.nodesPerPartition) :
    ∃ cluster' full,
      PartitionedCluster.updateNeighborsWithNewNode x.2.nodeId
        ⟨partitions', cluster.clusterNodes.addNode x.2.nodeId⟩ = some cluster' ∧
      PartitionedCluster.setUpGroups partitions' (x.2.nodeId :: nodes) = some full ∧
      (cluster'.clusterNodes.nodesInPartitions = full.clusterNodes.nodesInPartitions ↔
        cluster.partitions.nodesPerPartition.toNat + p.length ≤ (p ++ q).length + 1 ∧
          2 * (cluster.partitions.nodesPerPartition.toNat - 1) ≤ (p ++ q).length + 1) := by
  have hpos : 0 < p.length := length_pos_iff.mpr hp
  obtain ⟨cluster₀, hsetup₀, -, -, hgroups⟩ := h.setUpGroups_spec nodes hnodes
  obtain rfl := some.inj (hsetup₀.symm.trans hsetup)
  -- the groups of a node that starts with the new ring
  obtain ⟨full, hfull, -, -, hfullGroups⟩ := hsees.setUpGroups_spec (x.2.nodeId :: nodes) (by
    intro c hc hother
    rw [hself] at hother
    rcases mem_append.mp hc with hmem | hmem
    · exact mem_cons_of_mem _ (hnodes c (mem_append_left _ hmem) hother)
    · rcases mem_cons.mp hmem with rfl | hmem'
      · exact mem_cons_self
      · exact mem_cons_of_mem _ (hnodes c (mem_append_right _ hmem') hother))
  have hstart : (PartitionedCluster.mk partitions'
      (cluster₀.clusterNodes.addNode x.2.nodeId)).partitions.Sees (p ++ x :: q) := hsees
  have hlength : (cluster₀.clusterNodes.addNode x.2.nodeId).nodesInPartitions.length =
      partitions'.nodesPerPartition.toNat := by
    show cluster₀.clusterNodes.nodesInPartitions.length = _
    rw [hgroups, length_map, length_range, hsame]
  -- the groups that the update leaves
  obtain ⟨cluster', hupdate, hgroups'⟩ := hstart.updateNewNodeFrom_spec
    (by show 2 ≤ partitions'.nodesPerPartition.toNat; rwa [hsame])
    (by show partitions'.nodesPerPartition.toNat ≤ _; rw [hsame, length_insert]; omega) x.2.nodeId
    partitions'.nodesPerPartition.toNat (i := 0) (by simp) (by simp [hlength])
  refine ⟨cluster', full, ?_, hfull, ?_⟩
  · unfold updateNeighborsWithNewNode
    rw [hsees.self]
    exact hupdate
  · have hresult : cluster'.clusterNodes.nodesInPartitions =
        (range cluster₀.partitions.nodesPerPartition.toNat).map fun j =>
          updatedGroup (p ++ x :: q) cluster₀.partitions.nodesPerPartition.toNat x.2.nodeId j
            (groupAt (p ++ q) cluster₀.partitions.nodesPerPartition.toNat j) := by
      refine ext_getElem? fun j => ?_
      rw [hgroups', ClusterNodes.addNode, hgroups, hsame, getElem?_map, getElem?_map]
      by_cases hj : j < cluster₀.partitions.nodesPerPartition.toNat
      · simp [hj]
      · simp [hj]
    rw [hresult, hfullGroups, hsame, map_range_eq_iff,
      ← join_arcs_iff hpos (by simp) hr hrn]
    exact forall₂_congr fun j hj => updatedGroup_iff hsees.holds h.holds hp (by omega) hrn j

end handlers

/-- After a change, the groups of a node are those of a node that starts with the new ring exactly
    - when another node leaves that is at least `r` steps away in both directions, or `r` was the
    number of all nodes;
    - when a node joins in the neighbourhood, if it is not among the `r - 1` nodes before this one
    and `r` nodes are at most a half circle. -/
theorem groups_after_change_iff (calculateMD5 : SimpleString → UInt64) (entries : List RingEntry)
    (r maxSize : UInt32) (hnodeIds : (entries.map (·.nodeId)).Nodup)
    (hpositions : (entries.map (·.ringPosition)).Nodup) (hlength : 2 ≤ entries.length)
    (hr : 2 ≤ r.toNat) (hrn : r.toNat ≤ entries.length) (self : RingEntry) (hself : self ∈ entries)
    (nodes : List UInt16)
    (hnodes : ∀ entry ∈ entries, entry.nodeId ≠ self.nodeId → entry.nodeId ∈ nodes) :
    ∃ partitions cluster, Partitions.new entries r maxSize self.nodeId = some partitions ∧
      PartitionedCluster.setUpGroups partitions nodes = some cluster ∧
      (∀ deleted ∈ entries, deleted ≠ self →
        ∃ cluster' full d, cluster.handleDeletion deleted.nodeId = some cluster' ∧
          PartitionedCluster.setUpGroups cluster'.partitions nodes = some full ∧
          partitions.getDistanceClockwise deleted.nodeId = some d ∧
          (cluster'.clusterNodes.nodesInPartitions = full.clusterNodes.nodesInPartitions ↔
            r.toNat = entries.length ∨
              (r.toNat ≤ d.toNat ∧ d.toNat + r.toNat ≤ entries.length))) ∧
      ∀ newNode, (∀ entry ∈ entries, entry.nodeId ≠ newNode) → maxSize ≠ 0 →
        ∃ partitions' entry isNeighbor,
          partitions.addByNode calculateMD5 newNode = some (partitions', entry) ∧
          partitions'.isNeighbor newNode = some isNeighbor ∧
          (isNeighbor = true →
            ∃ cluster' full d, cluster.handleNewNode calculateMD5 newNode = some cluster' ∧
              PartitionedCluster.setUpGroups partitions' (newNode :: nodes) = some full ∧
              partitions'.getDistanceClockwise newNode = some d ∧
              (cluster'.clusterNodes.nodesInPartitions = full.clusterNodes.nodesInPartitions ↔
                r.toNat + d.toNat ≤ entries.length + 1 ∧
                  2 * (r.toNat - 1) ≤ entries.length + 1)) := by
  have hne := clockwiseOrder_ne_nil hlength
  have hbound := length_le_of_nodeIds hnodeIds
  -- positions are counted from the node itself, which is at the first cell
  obtain ⟨k, -, hk⟩ := exists_offset hne 0 hself
  rw [cast_zero, zero_add] at hk
  subst hk
  obtain ⟨partitions, start, cells, hpartitions, rfl, rfl, hordered, hrot, hsees, hn, hget⟩ :=
    exists_sees (r := r) maxSize hnodeIds hpositions hlength (by omega) k
  have hmem : ∀ c ∈ cells, c.2 ∈ entries := by
    intro c hc
    obtain ⟨a, -, rfl⟩ := exists_get_of_mem hc
    rw [hget]
    exact (clockwiseOrder_perm entries).mem_iff.mp (get_mem hne _)
  have hselfEntry : partitions.selfEntry = get (clockwiseOrder entries) k := by
    rw [hsees.self, hget, add_zero]
  have hothers : ∀ c ∈ cells, c.2.nodeId ≠ partitions.selfEntry.nodeId → c.2.nodeId ∈ nodes := by
    intro c hc hother
    rw [hselfEntry] at hother
    exact hnodes _ (hmem c hc) hother
  obtain ⟨cluster, hsetup, hsame, -, -⟩ := hsees.setUpGroups_spec nodes hothers
  subst hsame
  refine ⟨cluster.partitions, cluster, hpartitions, hsetup, ?_, ?_⟩
  · intro deleted hdeleted hother
    -- a node leaves: it cuts the cells in two parts, and is as far away as the first one is long
    obtain ⟨a, ha, rfl⟩ := exists_offset hne k hdeleted
    rw [← hget] at hother ⊢
    obtain ⟨p, q, hsplit⟩ := append_of_mem (get_mem hsees.nonempty (a : Int))
    generalize get cells a = x at hother hsplit ⊢
    subst hsplit
    have hp : p ≠ [] := by
      rintro rfl
      refine hother ?_
      rw [← hselfEntry, hsees.self]
      rfl
    obtain ⟨cluster', full, hhandle, hfull, hiff⟩ :=
      hsees.handleDeletion_iff hp hr (by omega) hothers hsetup
    refine ⟨cluster', full, UInt32.ofNat p.length, hhandle, hfull,
      hsees.getDistanceClockwise_split, ?_⟩
    have hlt : p.length < 2 ^ 32 := by
      rw [length_insert, length_append] at hn
      omega
    rw [toNat_ofNat_of_lt' hlt, ← hn]
    exact hiff
  · intro newNode hnew hmaxSize
    -- a node joins: the cells before and after its place on the ring are the old ones
    obtain ⟨partitions', p, q, x, hadd, hp, rfl, rfl, hsees', hself', hsame'⟩ :=
      hsees.addByNode_spec calculateMD5 hordered hrot (by omega) hmaxSize
        (fun c hc => hnew _ (hmem c hc))
    have hdistance := hsees'.holds.getDistance_eq hsees'.linked hsees'.nonempty 0
      (d := p.length) (by simp)
    rw [zero_add, get_insert_self x, ← hsees'.self] at hdistance
    obtain ⟨cluster', full, hupdate, hfull, hiff⟩ :=
      hsees.updateNeighborsWithNewNode_iff hp hr (by omega) hothers hsetup hsees' hself' hsame'
    obtain ⟨isNeighbor, hisNeighbor⟩ : ∃ isNeighbor,
        partitions'.isNeighbor x.2.nodeId = some isNeighbor := by
      rw [Partitions.isNeighbor, Partitions.getDistance, hdistance]
      exact ⟨_, rfl⟩
    refine ⟨partitions', x.2, isNeighbor, hadd, hisNeighbor, ?_⟩
    rintro rfl
    refine ⟨cluster', full, UInt32.ofNat p.length, ?_, hfull, hsees'.getDistanceClockwise_split, ?_⟩
    · have hnotSelf : partitions'.selfEntry.nodeId ≠ x.2.nodeId := by
        rw [hself', hselfEntry]
        exact hnew _ ((clockwiseOrder_perm entries).mem_iff.mp (get_mem hne _))
      simp only [handleNewNode, getNodeId, hadd, hisNeighbor,
        hnotSelf, bind_eq_bind, bind_some, if_false, not_true_eq_false]
      exact hupdate
    · have hlt : p.length < 2 ^ 32 := by
        rw [length_append] at hn
        omega
      rw [toNat_ofNat_of_lt' hlt, ← hn]
      exact hiff

/-- Two of four nodes hold each key: node 1 keeps the right groups when node 3, across the ring,
    leaves, and when node 5 joins right after it, at 29. -/
theorem groups_after_change_four :
    ∃ partitions cluster, Partitions.new [⟨1, 20⟩, ⟨2, 40⟩, ⟨3, 60⟩, ⟨4, 80⟩] 2 100 1 =
      some partitions ∧ PartitionedCluster.setUpGroups partitions [2, 3, 4] = some cluster ∧
      (∃ cluster' full, cluster.handleDeletion 3 = some cluster' ∧
        PartitionedCluster.setUpGroups cluster'.partitions [2, 3, 4] = some full ∧
        cluster'.clusterNodes.nodesInPartitions = full.clusterNodes.nodesInPartitions) ∧
      ∃ partitions' cluster' full, cluster.handleNewNode md5Number 5 = some cluster' ∧
        PartitionedCluster.setUpGroups partitions' [5, 2, 3, 4] = some full ∧
        cluster'.clusterNodes.nodesInPartitions = full.clusterNodes.nodesInPartitions := by
  obtain ⟨partitions, cluster, hnew, hsetup, hleave, hjoin⟩ := groups_after_change_iff md5Number
    [⟨1, 20⟩, ⟨2, 40⟩, ⟨3, 60⟩, ⟨4, 80⟩] 2 100 (by decide) (by decide) (by decide) (by decide)
    (by decide) ⟨1, 20⟩ (by decide) [2, 3, 4] (by decide)
  refine ⟨partitions, cluster, hnew, hsetup, ?_, ?_⟩
  · obtain ⟨cluster', full, d, hhandle, hfull, hdistance, hiff⟩ :=
      hleave ⟨3, 60⟩ (by decide) (by decide)
    refine ⟨cluster', full, hhandle, hfull, hiff.mpr ?_⟩
    have hconcrete : (Partitions.new [⟨1, 20⟩, ⟨2, 40⟩, ⟨3, 60⟩, ⟨4, 80⟩] 2 100 1).bind
        (·.getDistanceClockwise 3) = some 2 := by decide
    rw [hnew, bind_some, hdistance] at hconcrete
    cases hconcrete
    decide
  · obtain ⟨partitions', entry, isNeighbor, hadd, hneighbor, hchange⟩ :=
      hjoin 5 (by decide) (by decide)
    have hconcrete : ((Partitions.new [⟨1, 20⟩, ⟨2, 40⟩, ⟨3, 60⟩, ⟨4, 80⟩] 2 100 1).bind
        (·.addByNode md5Number 5)).bind (fun added => (added.1.isNeighbor 5).bind fun isNeighbor =>
          (added.1.getDistanceClockwise 5).map fun d => (isNeighbor, d)) =
            some (true, 1) := by decide
    rw [hnew, bind_some, hadd, bind_some, hneighbor, bind_some] at hconcrete
    obtain ⟨d, hd, hpair⟩ := map_eq_some_iff.mp hconcrete
    cases hpair
    obtain ⟨cluster', full, d, hhandle, hfull, hdistance, hiff⟩ := hchange rfl
    cases hdistance.symm.trans hd
    exact ⟨partitions', cluster', full, hhandle, hfull, hiff.mpr (by decide)⟩

/-- Two of three nodes hold each key. When node 2 leaves, node 1 is alone in its partition, where a
    node that starts with the new ring puts node 3. When node 4 joins right before node 1, at 77, it
    is missing in the partition of which it is the head. -/
theorem groups_differ_after_change :
    (((Partitions.new [⟨1, 10⟩, ⟨2, 20⟩, ⟨3, 30⟩] 2 100 1).bind
        (PartitionedCluster.setUpGroups · [2, 3])).bind fun cluster =>
      (cluster.handleDeletion 2).bind fun cluster' =>
        (PartitionedCluster.setUpGroups cluster'.partitions [2, 3]).map fun full =>
          (cluster'.clusterNodes.nodesInPartitions, full.clusterNodes.nodesInPartitions)) =
      some ([∅, {3}], [{3}, {3}]) ∧
    (((Partitions.new [⟨1, 10⟩, ⟨2, 20⟩, ⟨3, 30⟩] 2 100 1).bind
        (PartitionedCluster.setUpGroups · [2, 3])).bind fun cluster =>
      (cluster.handleNewNode md5Number 4).bind fun cluster' =>
        (PartitionedCluster.setUpGroups cluster'.partitions [4, 2, 3]).map fun full =>
          (cluster'.clusterNodes.nodesInPartitions, full.clusterNodes.nodesInPartitions)) =
      some ([{2}, {3}], [{2}, {4}]) := by
  decide

end MemDb
