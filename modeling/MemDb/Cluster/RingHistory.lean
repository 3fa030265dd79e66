import MemDb.Cluster.OrderedRing
import MemDb.Lib.Run

/-! # The history of a ring

    Nodes join and leave, and every node of the cluster follows this on a ring of its own. Which
    entry a position belongs to depends on the members of the ring only, as long as none joins below
    or leaves at the head; after that, lookups at two nodes that know the same members can differ.
-/

namespace MemDb

open Lib Lib.Run List Option

/-- What changes a ring. -/
inductive RingOperation where
  | add (ringEntryToAdd : RingEntry)
  | deleteByNodeId (nodeId : UInt16)
deriving DecidableEq, Repr

namespace RingOperation

def apply : RingOperation → RingEntries → Option RingEntries
  | .add ringEntryToAdd, ring => ring.add ringEntryToAdd
  | .deleteByNodeId nodeId, ring => ring.deleteByNodeId nodeId

/-- The members after the operation. -/
def members : RingOperation → List RingEntry → List RingEntry
  | .add ringEntryToAdd, others =>
    if others.any (·.nodeId == ringEntryToAdd.nodeId) then others else ringEntryToAdd :: others
  | .deleteByNodeId nodeId, others => others.filter (·.nodeId ≠ nodeId)

/-- The ring together with its members. -/
def step (operation : RingOperation) (state : RingEntries × List RingEntry) :
    Option (RingEntries × List RingEntry) :=
  (operation.apply state.1).map fun ring => (ring, operation.members state.2)

/-- A new member does not take the position of another, and there is a member before it unless there
    is at most one; a member that leaves has another one before it. -/
def safe : RingOperation → List RingEntry → Bool
  | .add ringEntryToAdd, others =>
    others.any (·.nodeId == ringEntryToAdd.nodeId) ||
      (others.all (·.ringPosition ≠ ringEntryToAdd.ringPosition) &&
        (others.length ≤ 1 || others.any (·.ringPosition < ringEntryToAdd.ringPosition)))
  | .deleteByNodeId nodeId, others =>
    others.any fun deleted => deleted.nodeId == nodeId &&
      others.any (·.ringPosition < deleted.ringPosition)

end RingOperation

/-- The ring and its members after safe operations on a ring that `fromEntries` has built. -/
def RingEntries.Reached (ring : RingEntries) (members : List RingEntry) : Prop :=
  ∃ entries start operations, (entries.map (·.nodeId)).Nodup ∧
    (entries.map (·.ringPosition)).Nodup ∧ fromEntries entries = some start ∧
    Guarded RingOperation.step (fun operation state => operation.safe state.2 = true) operations
      (start, entries) ∧
    run RingOperation.step operations (start, entries) = some (ring, members)

namespace RingEntries

section history
variable {ring : RingEntries} {members : List RingEntry}

/-- The members are the entries of an ordered ring. -/
def Tracks (ring : RingEntries) (members : List RingEntry) : Prop :=
  ∃ cells, ring.Ordered cells ∧ (cells.map Prod.snd).Perm members

theorem Tracks.add (h : ring.Tracks members) {entry : RingEntry}
    (hsafe : (RingOperation.add entry).safe members = true) {ring' : RingEntries}
    (hadd : ring.add entry = some ring') :
    ring'.Tracks ((RingOperation.add entry).members members) := by
  obtain ⟨cells, hordered, hperm⟩ := h
  have hmem : ∀ {c}, c ∈ cells → c.2 ∈ members :=
    fun hc => hperm.mem_iff.mp (mem_map_of_mem hc)
  rw [RingOperation.members]
  split
  · next hknown =>
    -- nothing happens
    obtain ⟨e, he, hnodeId⟩ := any_eq_true.mp hknown
    obtain ⟨c, hc, rfl⟩ := mem_map.mp (hperm.mem_iff.mpr he)
    have hpointer := hordered.holds.pointerTo_of_mem hc
    rw [beq_iff_eq.mp hnodeId] at hpointer
    rw [RingEntries.add, hpointer] at hadd
    cases hadd
    exact ⟨cells, hordered, hperm⟩
  · next hnew =>
    have hnodeId : ∀ c ∈ cells, c.2.nodeId ≠ entry.nodeId := by
      intro c hc heq
      exact hnew (any_eq_true.mpr ⟨c.2, hmem hc, beq_iff_eq.mpr heq⟩)
    unfold RingOperation.safe at hsafe
    rw [Bool.or_eq_true, Bool.and_eq_true] at hsafe
    obtain ⟨hfree, hbefore⟩ := hsafe.resolve_left hnew
    have hfree' : ∀ c ∈ cells, c.2.ringPosition ≠ entry.ringPosition := by
      intro c hc
      exact of_decide_eq_true (all_eq_true.mp hfree c.2 (hmem hc))
    obtain ⟨ring₁, before, after, rfl, hadd', hspec⟩ := hordered.add_spec hnodeId hfree'
    cases hadd'.symm.trans hadd
    rcases hspec with hordered' | ⟨-, hlength, hbelow, -⟩
    · refine ⟨_, hordered', ?_⟩
      rw [map_append] at hperm ⊢
      exact perm_middle.trans (hperm.cons entry)
    · -- there is a member before the new one
      exfalso
      rw [Bool.or_eq_true] at hbefore
      rcases hbefore with hshort | hlower
      · have := hperm.length_eq
        rw [length_map] at this
        have := of_decide_eq_true hshort
        omega
      · obtain ⟨e, he, hlt⟩ := any_eq_true.mp hlower
        obtain ⟨c, hc, rfl⟩ := mem_map.mp (hperm.mem_iff.mpr he)
        exact UInt32.lt_asymm (hbelow c hc) (of_decide_eq_true hlt)

theorem Tracks.deleteByNodeId (h : ring.Tracks members) {nodeId : UInt16}
    (hsafe : (RingOperation.deleteByNodeId nodeId).safe members = true) {ring' : RingEntries}
    (hdelete : ring.deleteByNodeId nodeId = some ring') :
    ring'.Tracks ((RingOperation.deleteByNodeId nodeId).members members) := by
  obtain ⟨cells, hordered, hperm⟩ := h
  obtain ⟨deleted, hdeleted, hboth⟩ := any_eq_true.mp hsafe
  obtain ⟨hnodeId, hlower⟩ := Bool.and_eq_true_iff.mp hboth
  obtain ⟨lower, hlower', hlt⟩ := any_eq_true.mp hlower
  obtain ⟨c, hc, rfl⟩ := mem_map.mp (hperm.mem_iff.mpr hdeleted)
  obtain ⟨c', hc', rfl⟩ := mem_map.mp (hperm.mem_iff.mpr hlower')
  obtain rfl := beq_iff_eq.mp hnodeId
  obtain ⟨before, after, rfl⟩ := append_of_mem hc
  -- the lower member comes first
  have hne : before ≠ [] := by
    rintro rfl
    rcases mem_cons.mp hc' with rfl | hafter
    · exact UInt32.lt_irrefl _ (of_decide_eq_true hlt)
    · exact UInt32.lt_asymm (of_decide_eq_true hlt)
        ((pairwise_cons.mp hordered.sorted).1 c' hafter)
  obtain ⟨ring₁, hdelete', hordered'⟩ := hordered.deleteByNodeId_spec hne
  cases hdelete'.symm.trans hdelete
  refine ⟨_, hordered', ?_⟩
  refine List.Perm.trans ?_ (hperm.filter _)
  have hothers : ∀ d ∈ before ++ after, d.2.nodeId ≠ c.2.nodeId := by
    have hmiddle : (before ++ c :: after).Perm (c :: (before ++ after)) := perm_middle
    have hnodup := (hmiddle.map (·.2.nodeId)).nodup_iff.mp hordered.holds.nodeIds
    rw [map_cons, nodup_cons] at hnodup
    intro d hd heq
    exact hnodup.1 (mem_map.mpr ⟨d, hd, heq⟩)
  have hkeep : ∀ l : List (Nat × RingEntry), (∀ d ∈ l, d.2.nodeId ≠ c.2.nodeId) →
      (l.map Prod.snd).filter (·.nodeId ≠ c.2.nodeId) = l.map Prod.snd := by
    intro l hl
    rw [filter_eq_self]
    intro e he
    obtain ⟨d, hd, rfl⟩ := mem_map.mp he
    exact decide_eq_true (hl d hd)
  rw [map_append, map_append, map_cons, filter_append, filter_cons_of_neg,
    hkeep before fun d hd => hothers d (mem_append_left _ hd),
    hkeep after fun d hd => hothers d (mem_append_right _ hd)]
  simp

theorem Reached.tracks (h : ring.Reached members) : ring.Tracks members := by
  obtain ⟨entries, start, operations, hnodeIds, hpositions, hstart, hguarded, hrun⟩ := h
  obtain ⟨start', cells, hstart', hsnd, hordered⟩ := fromEntries_spec hnodeIds hpositions
  have hperm : (cells.map Prod.snd).Perm entries := hsnd ▸ clockwiseOrder_perm entries
  cases hstart'.symm.trans hstart
  have hstep : ∀ (operation : RingOperation) (state state' : RingEntries × List RingEntry),
      state.1.Tracks state.2 → operation.safe state.2 = true → operation.step state = some state' →
        state'.1.Tracks state'.2 := by
    intro operation state state' htracks hsafe hstep
    obtain ⟨ring', hring', rfl⟩ := map_eq_some_iff.mp hstep
    cases operation with
    | add entry => exact htracks.add hsafe hring'
    | deleteByNodeId nodeId => exact htracks.deleteByNodeId hsafe hring'
  exact invariant hstep ⟨_, hordered, hperm⟩ hguarded hrun

theorem Tracks.owner (h : ring.Tracks members) (hne : members ≠ []) (ringPosition : UInt32) :
    ∃ entry, ring.getRingEntryBelongsToPosition ringPosition = some entry ∧
      IsOwner members ringPosition entry := by
  obtain ⟨cells, hordered, hperm⟩ := h
  have hcells : cells ≠ [] := by
    rintro rfl
    exact hne (nil_perm.mp hperm)
  obtain ⟨entry, hlookup, howner⟩ := hordered.getRingEntryBelongsToPosition_spec hcells ringPosition
  exact ⟨entry, hlookup, howner.congr fun e => hperm.mem_iff⟩

theorem Tracks.positions (h : ring.Tracks members) : (members.map (·.ringPosition)).Nodup := by
  obtain ⟨cells, hordered, hperm⟩ := h
  refine (hperm.map _).nodup_iff.mp (pairwise_map.mpr (pairwise_map.mpr ?_))
  refine hordered.sorted.imp ?_
  intro c c' hlt heq
  exact UInt32.lt_irrefl _ (heq ▸ hlt)

/-- After safe operations every position belongs to the member before it, or to the last one if
    there is none, and all nodes that know the same members agree on it. -/
theorem lookups_agree (h : ring.Reached members) (hne : members ≠ []) (ringPosition : UInt32) :
    (∃ entry, ring.getRingEntryBelongsToPosition ringPosition = some entry ∧
      IsOwner members ringPosition entry) ∧
    ∀ ring' members', RingEntries.Reached ring' members' → members'.Perm members →
      ring'.getRingEntryBelongsToPosition ringPosition =
        ring.getRingEntryBelongsToPosition ringPosition := by
  obtain ⟨entry, hlookup, howner⟩ := h.tracks.owner hne ringPosition
  refine ⟨⟨entry, hlookup, howner⟩, ?_⟩
  intro ring' members' h' hperm
  have hne' : members' ≠ [] := by
    rintro rfl
    exact hne (nil_perm.mp hperm)
  obtain ⟨entry', hlookup', howner'⟩ := h'.tracks.owner hne' ringPosition
  have hsame := howner.unique h.tracks.positions (howner'.congr fun e => hperm.mem_iff)
  rw [hlookup, hlookup', hsame]

theorem Reached.of_checkedRun {entries : List RingEntry} {operations : List RingOperation}
    (hnodeIds : (entries.map (·.nodeId)).Nodup) (hpositions : (entries.map (·.ringPosition)).Nodup)
    (h : ((fromEntries entries).bind fun start => checkedRun RingOperation.step
      (fun operation state => operation.safe state.2) operations (start, entries)) =
        some (ring, members)) : ring.Reached members := by
  obtain ⟨start, hstart, hchecked⟩ := bind_eq_some_iff.mp h
  obtain ⟨hrun, hguarded⟩ := checkedRun_eq_some hchecked
  exact ⟨entries, start, operations, hnodeIds, hpositions, hstart, hguarded, hrun⟩

/-- One node leaves and another joins. -/
theorem reached_three : ∃ ring : RingEntries, ring.Reached [⟨5, 40⟩, ⟨1, 2⟩, ⟨2, 35⟩] := by
  have hmembers : ((fromEntries [⟨1, 2⟩, ⟨4, 29⟩, ⟨2, 35⟩]).bind fun start => checkedRun
      RingOperation.step (fun operation state => operation.safe state.2)
        [.deleteByNodeId 4, .add ⟨5, 40⟩] (start, [⟨1, 2⟩, ⟨4, 29⟩, ⟨2, 35⟩])).map Prod.snd =
      some [⟨5, 40⟩, ⟨1, 2⟩, ⟨2, 35⟩] := by decide
  obtain ⟨⟨ring, members⟩, hrun, rfl⟩ := map_eq_some_iff.mp hmembers
  exact ⟨ring, Reached.of_checkedRun (by decide) (by decide) hrun⟩

theorem lookups_agree_three : ∃ ring : RingEntries,
    ring.Reached [⟨5, 40⟩, ⟨1, 2⟩, ⟨2, 35⟩] ∧
      ∃ entry, ring.getRingEntryBelongsToPosition 1 = some entry ∧
        IsOwner [⟨5, 40⟩, ⟨1, 2⟩, ⟨2, 35⟩] 1 entry := by
  obtain ⟨ring, hreached⟩ := reached_three
  exact ⟨ring, hreached, (lookups_agree hreached (by decide) 1).1⟩

/-- A fifth node joins below the head of a ring of four: the position of node 3 now belongs to it,
    while a node that starts with all five leaves it to node 3. After the head has left, positions
    still belong to it. -/
theorem owner_after_join_below_head :
    (((fromEntries [⟨1, 2⟩, ⟨4, 29⟩, ⟨2, 35⟩, ⟨3, 62⟩]).bind (RingEntries.add ⟨5, 1⟩)).bind
      (getRingEntryBelongsToPosition · 62) = some ⟨5, 1⟩ ∧
    (fromEntries [⟨1, 2⟩, ⟨4, 29⟩, ⟨2, 35⟩, ⟨3, 62⟩, ⟨5, 1⟩]).bind
      (getRingEntryBelongsToPosition · 62) = some ⟨3, 62⟩) ∧
    ((fromEntries [⟨1, 2⟩, ⟨4, 29⟩, ⟨2, 35⟩, ⟨3, 62⟩]).bind (RingEntries.deleteByNodeId 1)).bind
      (getRingEntryBelongsToPosition · 2) = some ⟨1, 2⟩ := by
  decide

/-! ### The links -/

/-- The indexed nodes in the order in which the links lead around the ring from the head, clockwise
    and back; their positions grow, but for one place. -/
def IsCircle (ring : RingEntries) : Prop :=
  ∃ cells, ring.Holds cells ∧ ring.head = cells.head?.map Prod.fst ∧
    Cycle.Linked (nextOf ring.heap) (backOf ring.heap) (cells.map Prod.fst) ∧
    ∃ sorted, cells ~r sorted ∧ sorted.Pairwise fun c c' => c.2.ringPosition < c'.2.ringPosition

/-- After safe operations the ring is a circle. -/
theorem isCircle_of_reached (h : ring.Reached members) (hlength : 2 ≤ members.length) :
    ring.IsCircle := by
  obtain ⟨cells, hordered, hperm⟩ := h.tracks
  have hcells := hperm.length_eq
  rw [length_map] at hcells
  exact ⟨cells, hordered.holds, hordered.head, hordered.holds.linked (by omega), cells,
    List.IsRotated.refl _, hordered.sorted⟩

theorem isCircle_three : ∃ ring : RingEntries,
    ring.Reached [⟨5, 40⟩, ⟨1, 2⟩, ⟨2, 35⟩] ∧ ring.IsCircle := by
  obtain ⟨ring, hreached⟩ := reached_three
  exact ⟨ring, hreached, isCircle_of_reached hreached (by decide)⟩

/-- The head of a ring of three leaves: the head is no longer an indexed node. -/
theorem not_isCircle_without_head : ∃ ring, (fromEntries [⟨1, 2⟩, ⟨4, 29⟩, ⟨2, 35⟩]).bind
    (RingEntries.deleteByNodeId 1) = some ring ∧ ¬ ring.IsCircle := by
  obtain ⟨ring, hring, hzero, hindex⟩ : ∃ ring, (fromEntries [⟨1, 2⟩, ⟨4, 29⟩, ⟨2, 35⟩]).bind
      (RingEntries.deleteByNodeId 1) = some ring ∧ ring.head = some 0 ∧
        ring.indexByNodeId = [(2, 2), (4, 1)] := by
    decide +kernel
  refine ⟨ring, hring, ?_⟩
  rintro ⟨cells, hholds, hcells, -⟩
  obtain ⟨c, hc, hpointer⟩ := map_eq_some_iff.mp (hcells.symm.trans hzero)
  have hmem := hholds.index.mem_iff.mpr (mem_map_of_mem (mem_of_head? hc))
  rw [hindex, hpointer] at hmem
  simp at hmem

end history

end RingEntries

end MemDb
