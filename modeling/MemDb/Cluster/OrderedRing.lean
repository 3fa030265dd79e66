import MemDb.Cluster.Ring

/-! # Rings in the order of their positions

    As long as the head of a ring is the entry with the smallest position, a lookup returns the
    entry that a position belongs to: the one before it, or the last one if there is none.
    `fromEntries` builds such a ring. `add` keeps it so unless the new entry belongs before the head
    of a ring of at least two, and `deleteByNodeId` unless it deletes the head.
-/

namespace MemDb

open Lib Lib.Cycle Function Nat Option
open List hiding get

namespace RingEntries

/-! ### Sorted rings -/

/-- The ring holds the cells in the order of their positions, starting at the head. -/
structure Ordered (ring : RingEntries) (cells : List (Nat × RingEntry)) : Prop where
  holds : ring.Holds cells
  head : ring.head = cells.head?.map Prod.fst
  sorted : cells.Pairwise fun c c' => c.2.ringPosition < c'.2.ringPosition
  /-- The next node is a new one. -/
  allocated : ∀ c ∈ cells, c.1 < ring.heap.next

section ordered
variable {ring : RingEntries} {cells : List (Nat × RingEntry)} {k m : Nat} {entry : RingEntry}
  {ringPosition : UInt32}

theorem Ordered.lt_iff (h : ring.Ordered cells) {j : Nat} (hj : j < cells.length)
    (hk : k < cells.length) :
    (get cells j).2.ringPosition < (get cells k).2.ringPosition ↔ j < k := by
  have hlt : ∀ {a b : Nat} (ha : a < cells.length) (hb : b < cells.length), a < b →
      (get cells a).2.ringPosition < (get cells b).2.ringPosition := by
    intro a b ha hb hab
    rw [get_natCast ha, get_natCast hb]
    exact pairwise_iff_getElem.mp h.sorted a b ha hb hab
  constructor
  · intro hpos
    rcases lt_trichotomy j k with hjk | rfl | hkj
    · exact hjk
    · exact absurd hpos (UInt32.lt_irrefl _)
    · exact absurd hpos (UInt32.lt_asymm (hlt hk hj hkj))
  · exact hlt hj hk

theorem Ordered.head_eq (h : ring.Ordered cells) (hne : cells ≠ []) :
    ring.head = some (get cells 0).1 := by
  rw [h.head, head?_eq_get hne, map_some]

/-- A position splits a sorted list. -/
theorem exists_split (hsorted : cells.Pairwise fun c c' => c.2.ringPosition < c'.2.ringPosition)
    (ringPosition : UInt32) :
    ∃ before after, cells = before ++ after ∧ (∀ c ∈ before, c.2.ringPosition ≤ ringPosition) ∧
      ∀ c ∈ after, ringPosition < c.2.ringPosition := by
  induction cells with
  | nil => exact ⟨[], [], rfl, by simp, by simp⟩
  | cons c cells ih =>
    obtain ⟨hfirst, hrest⟩ := pairwise_cons.mp hsorted
    obtain ⟨before, after, hsplit, hbefore, hafter⟩ := ih hrest
    by_cases hle : c.2.ringPosition ≤ ringPosition
    · refine ⟨c :: before, after, by rw [hsplit]; rfl, ?_, hafter⟩
      exact forall_mem_cons.mpr ⟨hle, hbefore⟩
    · have hgt := UInt32.not_le.mp hle
      refine ⟨[], c :: cells, rfl, by simp, forall_mem_cons.mpr ⟨hgt, ?_⟩⟩
      intro c' hc'
      exact UInt32.lt_trans hgt (hfirst c' hc')

/-! ### Lookups -/

/-- The entry that a position belongs to. -/
structure IsOwner (members : List RingEntry) (ringPosition : UInt32) (entry : RingEntry) :
    Prop where
  mem : entry ∈ members
  closest : (entry.ringPosition ≤ ringPosition ∧ ∀ other ∈ members,
      other.ringPosition ≤ ringPosition → other.ringPosition ≤ entry.ringPosition) ∨
    (∀ other ∈ members, ringPosition < other.ringPosition ∧
      other.ringPosition ≤ entry.ringPosition)

/-- A position has one owner. -/
theorem IsOwner.unique {members : List RingEntry}
    (hpositions : (members.map (·.ringPosition)).Nodup) {entry' : RingEntry}
    (h : IsOwner members ringPosition entry) (h' : IsOwner members ringPosition entry') :
    entry = entry' := by
  refine inj_on_of_nodup_map hpositions h.mem h'.mem ?_
  rcases h.closest with ⟨hle, hgreatest⟩ | hlast
  · rcases h'.closest with ⟨hle', hgreatest'⟩ | hlast'
    · exact UInt32.le_antisymm (hgreatest' entry h.mem hle) (hgreatest entry' h'.mem hle')
    · exact absurd hle (UInt32.not_le.mpr (hlast' entry h.mem).1)
  · rcases h'.closest with ⟨hle', -⟩ | hlast'
    · exact absurd hle' (UInt32.not_le.mpr (hlast entry' h'.mem).1)
    · exact UInt32.le_antisymm (hlast' entry h.mem).2 (hlast entry' h'.mem).2

theorem IsOwner.congr {members members' : List RingEntry} (hmem : ∀ e, e ∈ members ↔ e ∈ members')
    (h : IsOwner members ringPosition entry) :
    IsOwner members' ringPosition entry := by
  obtain ⟨hentry, hclosest⟩ := h
  simp only [hmem] at hentry hclosest
  exact ⟨hentry, hclosest⟩

section
variable (h : ring.Ordered cells)
include h

/-- The loop of `getRingEntryBelongsToPosition` ends at the first cell that the position comes right
    after, or at the last one. -/
theorem Ordered.lookup_eq (hlength : 2 ≤ cells.length) (hm : m < cells.length)
    (hstop : ((get cells m).2.ringPosition ≤ ringPosition ∧
      ringPosition < (get cells (m + 1)).2.ringPosition) ∨ m + 1 = cells.length)
    (hpass : ∀ j < m, ¬ ((get cells j).2.ringPosition ≤ ringPosition ∧
      ringPosition < (get cells (j + 1)).2.ringPosition)) (steps : Nat) (hk : k + steps = m) :
    lookup ring.heap (get cells 0).1 ringPosition (cells.length + 1 - k) (get cells k).1 =
      some (get cells m).2 := by
  have hne : cells ≠ [] := by
    rintro rfl
    simp at hlength
  have hlinked := h.holds.linked hlength
  -- after `k` rounds the walk is at cell `k`; it stops at the first gap or at the end
  induction steps generalizing k with
  | zero =>
    obtain rfl : k = m := by omega
    rw [show cells.length + 1 - k = (cells.length - k) + 1 by omega, lookup]
    simp only [h.holds.read_get hlinked hne, bind_eq_bind, bind_some]
    split
    · rfl
    · next hgap =>
      have hlast := hstop.resolve_left hgap
      have hhead : (get cells ((k : Int) + 1)).1 = (get cells 0).1 := by
        rw [show (k : Int) + 1 = 0 + cells.length by omega, get_add_length]
      rw [if_pos hhead]
      rfl
  | succ steps ih =>
    rw [show cells.length + 1 - k = (cells.length + 1 - (k + 1)) + 1 by omega, lookup]
    simp only [h.holds.read_get hlinked hne, bind_eq_bind, bind_some]
    have hnotHead : (get cells ((k : Int) + 1)).1 ≠ (get cells 0).1 := by
      have hinj := get_natCast_inj h.holds.pointers (j := k + 1) (k := 0)
        (by rw [length_map]; omega) (by rw [length_map]; omega)
      rw [get_map _ hne, get_map _ hne] at hinj
      intro heq
      have := hinj.mp (by push_cast; exact heq)
      omega
    rw [if_neg (hpass k (by omega)), if_neg hnotHead]
    have hrest := ih (k := k + 1) (by omega)
    rw [cast_add, cast_one] at hrest
    exact hrest

theorem Ordered.le_iff {j : Nat} (hj : j < cells.length) (hk : k < cells.length) :
    (get cells j).2.ringPosition ≤ (get cells k).2.ringPosition ↔ j ≤ k := by
  rw [← UInt32.not_lt, h.lt_iff hk hj, not_lt]

/-- The entries that are not after a position come first. -/
theorem Ordered.exists_bound (ringPosition : UInt32) :
    ∃ bound ≤ cells.length, ∀ k : Nat, k < cells.length →
      ((get cells k).2.ringPosition ≤ ringPosition ↔ k < bound) := by
  obtain ⟨before, after, rfl, hbefore, hafter⟩ := exists_split h.sorted ringPosition
  refine ⟨before.length, by simp, ?_⟩
  intro k hk
  rw [get_natCast hk]
  rcases Nat.lt_or_ge k before.length with hlt | hge
  · rw [getElem_append_left hlt]
    exact iff_of_true (hbefore _ (getElem_mem _)) hlt
  · rw [getElem_append_right hge]
    exact iff_of_false (UInt32.not_le.mpr (hafter _ (getElem_mem _))) (by omega)

/-- The owner of a position is where the loop ends. -/
theorem Ordered.exists_owner (hne : cells ≠ []) (ringPosition : UInt32) :
    ∃ m < cells.length, IsOwner (cells.map Prod.snd) ringPosition (get cells (m : Nat)).2 ∧
      (((get cells (m : Nat)).2.ringPosition ≤ ringPosition ∧
        ringPosition < (get cells ((m : Nat) + 1)).2.ringPosition) ∨ m + 1 = cells.length) ∧
      ∀ j < m, ¬ ((get cells (j : Nat)).2.ringPosition ≤ ringPosition ∧
        ringPosition < (get cells ((j : Nat) + 1)).2.ringPosition) := by
  have hpos : 0 < cells.length := length_pos_iff.mpr hne
  obtain ⟨bound, hle, hbound⟩ := h.exists_bound ringPosition
  have hsucc : ∀ j : Nat, j + 1 < cells.length →
      (ringPosition < (get cells ((j : Int) + 1)).2.ringPosition ↔ bound ≤ j + 1) := by
    intro j hj
    rw [← UInt32.not_le, ← Nat.cast_succ, hbound _ hj, not_lt]
  -- the last entry that is not after the position, or the last one if all are
  obtain ⟨m, hm, hcases⟩ : ∃ m < cells.length, m + 1 = bound ∨ bound = 0 ∧
      m + 1 = cells.length := by
    rcases bound with _ | bound
    · exact ⟨cells.length - 1, by omega, by omega⟩
    · exact ⟨bound, by omega, .inl rfl⟩
  refine ⟨m, hm, ⟨mem_map_of_mem (get_mem hne _), ?_⟩, ?_, ?_⟩
  · have hmembers : ∀ other ∈ cells.map Prod.snd,
        ∃ j < cells.length, other = (get cells (j : Nat)).2 := by
      intro other hother
      obtain ⟨c, hc, rfl⟩ := mem_map.mp hother
      obtain ⟨j, hj, rfl⟩ := exists_get_of_mem hc
      exact ⟨j, hj, rfl⟩
    rcases hcases with hlast | ⟨rfl, hend⟩
    · refine .inl ⟨(hbound m hm).mpr (by omega), ?_⟩
      intro other hother hnot
      obtain ⟨k, hk, rfl⟩ := hmembers other hother
      rw [hbound k hk] at hnot
      exact (h.le_iff hk hm).mpr (by omega)
    · refine .inr fun other hother => ?_
      obtain ⟨k, hk, rfl⟩ := hmembers other hother
      refine ⟨UInt32.not_le.mp fun hnot => ?_, (h.le_iff hk hm).mpr (by omega)⟩
      exact absurd ((hbound k hk).mp hnot) (Nat.not_lt_zero k)
  · rcases Nat.lt_or_ge (m + 1) cells.length with hlt | hge
    · exact .inl ⟨(hbound m hm).mpr (by omega), (hsucc m hlt).mpr (by omega)⟩
    · exact .inr (by omega)
  · rintro k hk ⟨hlow, hhigh⟩
    rw [hbound k (by omega)] at hlow
    rw [hsucc k (by omega)] at hhigh
    omega

/-- In an ordered ring every position is looked up right. -/
theorem Ordered.getRingEntryBelongsToPosition_spec (hne : cells ≠ []) (ringPosition : UInt32) :
      ∃ entry, ring.getRingEntryBelongsToPosition ringPosition = some entry ∧
        IsOwner (cells.map Prod.snd) ringPosition entry := by
  have hpos : 0 < cells.length := length_pos_iff.mpr hne
  obtain ⟨m, hm, howner, hstop, hpass⟩ := h.exists_owner hne ringPosition
  refine ⟨_, ?_, howner⟩
  unfold getRingEntryBelongsToPosition
  rw [h.head_eq hne, h.holds.index_length, bind_some]
  rcases lt_or_ge 1 cells.length with hlt | hge
  · have hloop := h.lookup_eq hlt hm hstop hpass m (k := 0) (by omega)
    exact hloop
  · obtain rfl : m = 0 := by omega
    rw [lookup]
    rcases h.holds.links with hlinked | ⟨-, hnull⟩
    · -- its own neighbour
      have hself : get cells (0 + 1) = get cells 0 := by
        rw [show (0 : Int) + 1 = 0 + cells.length by omega, get_add_length]
      simp only [h.holds.read_get hlinked hne, hself, bind_eq_bind, bind_some, if_true,
        cast_zero]
      split <;> rfl
    · obtain ⟨node, hnode, hentry⟩ := map_eq_some_iff.mp (h.holds.entries _ (get_mem hne 0))
      obtain ⟨hnext, -⟩ := hnull _ (get_mem hne 0)
      rw [nextOf, hnode, bind_some] at hnext
      simp [hnode, hnext, hentry]

end

/-! ### Additions -/

/-- The loop of `add` stops at the cell that the position comes right after. -/
theorem Ordered.findGap_found (h : ring.Ordered cells) (hm : m + 1 < cells.length)
    (hlow : (get cells m).2.ringPosition < ringPosition)
    (hhigh : ringPosition < (get cells ((m : Int) + 1)).2.ringPosition) (steps : Nat)
    (hk : k + steps = m) :
    findGap ring.heap ringPosition (cells.length + 1 - k) (get cells k).1
        (some (get cells ((k : Int) + 1)).1) =
      some (some ((get cells m).1, (get cells ((m : Int) + 1)).1)) := by
  have hne : cells ≠ [] := by
    rintro rfl
    simp at hm
  have hlinked := h.holds.linked (by omega)
  induction steps generalizing k with
  | zero =>
    obtain rfl : k = m := by omega
    rw [show cells.length + 1 - k = (cells.length - k) + 1 by omega, findGap]
    simp only [h.holds.read_get hlinked hne, bind_eq_bind, bind_some]
    rw [if_pos ⟨hlow, hhigh⟩]
    rfl
  | succ steps ih =>
    rw [show cells.length + 1 - k = (cells.length + 1 - (k + 1)) + 1 by omega, findGap]
    simp only [h.holds.read_get hlinked hne, bind_eq_bind, bind_some]
    have hbelow : ¬ ringPosition < (get cells ((k : Int) + 1)).2.ringPosition := by
      have hle := (h.le_iff (j := k + 1) (k := m) (by omega) (by omega)).mpr (by omega)
      rw [cast_add, cast_one] at hle
      exact UInt32.not_lt.mpr (UInt32.le_trans hle (UInt32.le_of_lt hlow))
    rw [if_neg fun hgap => hbelow hgap.2]
    have hrest := ih (k := k + 1) (by omega)
    rw [cast_add, cast_one] at hrest
    exact hrest

/-- A position outside of all gaps is not found, however long the loop goes on. -/
theorem Ordered.findGap_none (h : ring.Ordered cells) (hlength : 2 ≤ cells.length)
    (hgap : ∀ i : Int, ¬ ((get cells i).2.ringPosition < ringPosition ∧
      ringPosition < (get cells (i + 1)).2.ringPosition)) (remaining : Nat) (i : Int) :
    findGap ring.heap ringPosition remaining (get cells i).1 (some (get cells (i + 1)).1) =
      some none := by
  have hne : cells ≠ [] := by
    rintro rfl
    simp at hlength
  have hlinked := h.holds.linked hlength
  induction remaining generalizing i with
  | zero => rfl
  | succ remaining ih =>
    rw [findGap]
    simp only [h.holds.read_get hlinked hne, bind_eq_bind, bind_some]
    rw [if_neg (hgap i)]
    exact ih (i + 1)

/-- Below the first or above the last entry there is no gap. -/
theorem no_gap_outside (hne : cells ≠ [])
    (houtside : (∀ c ∈ cells, ringPosition < c.2.ringPosition) ∨
      ∀ c ∈ cells, c.2.ringPosition < ringPosition) (i : Int) :
    ¬ ((get cells i).2.ringPosition < ringPosition ∧
      ringPosition < (get cells (i + 1)).2.ringPosition) := by
  rintro ⟨hlow, hhigh⟩
  rcases houtside with hbelow | habove
  · exact UInt32.lt_asymm hlow (hbelow _ (get_mem hne i))
  · exact UInt32.lt_asymm hhigh (habove _ (get_mem hne (i + 1)))

/-- Where a new entry goes: after the cell at `m`. -/
theorem Ordered.add_after (h : ring.Ordered cells)
    (hnodeId : ∀ c ∈ cells, c.2.nodeId ≠ entry.nodeId) (hm : m < cells.length)
    {heap : Heap RingEntryNode} (head : Option Nat)
    (hentries : entryOf heap = entryOf (ring.heap.alloc ⟨entry, none, none⟩))
    (hnext : nextOf heap = update (update
      (nextOf (ring.heap.alloc ⟨entry, none, none⟩)) (get cells m).1 (some ring.heap.next))
        ring.heap.next (some (get cells ((m : Int) + 1)).1)) (hback : backOf heap = update (update
      (backOf (ring.heap.alloc ⟨entry, none, none⟩)) (get cells ((m : Int) + 1)).1
        (some ring.heap.next)) ring.heap.next (some (get cells m).1)) :
    Holds ⟨heap, head, (entry.nodeId, ring.heap.next) :: ring.indexByNodeId⟩
      (cells.take (m + 1) ++ (ring.heap.next, entry) :: cells.drop (m + 1)) := by
  obtain ⟨hentry', hnext', hback'⟩ := alloc_spec ring.heap entry
  refine h.holds.insert_after hm ?_ ?_ (hentries.trans hentry') (hnext.trans ?_) (hback.trans ?_)
  · intro hmem
    obtain ⟨c, hc, hceq⟩ := mem_map.mp hmem
    exact absurd (h.allocated c hc) (by omega)
  · intro hmem
    obtain ⟨c, hc, hceq⟩ := mem_map.mp hmem
    exact hnodeId c hc hceq
  · rw [hnext']
  · rw [hback']

/-- The node of the new entry does not disturb the ring. -/
theorem Ordered.alloc (h : ring.Ordered cells) (entry : RingEntry) :
    Ordered { ring with heap := ring.heap.alloc ⟨entry, none, none⟩ } cells := by
  obtain ⟨hentries, hnext, hback⟩ := alloc_spec ring.heap entry
  refine ⟨⟨?_, h.holds.pointers, h.holds.nodeIds, h.holds.index, ?_⟩, h.head, h.sorted, ?_⟩
  · intro c hc
    rw [hentries, update_of_ne (Nat.ne_of_lt (h.allocated c hc))]
    exact h.holds.entries c hc
  · rw [hnext, hback]
    exact h.holds.links
  · intro c hc
    rw [Heap.next_alloc]
    exact lt_succ_of_lt (h.allocated c hc)

/-- Inserting between the two parts keeps the order. -/
theorem Ordered.of_split {ring' : RingEntries} (before after : List (Nat × RingEntry))
    (h : ring.Ordered (before ++ after))
    (hbefore : ∀ c ∈ before, c.2.ringPosition < entry.ringPosition)
    (hafter : ∀ c ∈ after, entry.ringPosition < c.2.ringPosition)
    (hholds : ring'.Holds (before ++ (ring.heap.next, entry) :: after))
    (hhead : ring'.head = (before ++ (ring.heap.next, entry) :: after).head?.map Prod.fst)
    (hsize : ring'.heap.next = ring.heap.next + 1) :
    ring'.Ordered (before ++ (ring.heap.next, entry) :: after) := by
  obtain ⟨hsortedBefore, hsortedAfter, hbetween⟩ := pairwise_append.mp h.sorted
  refine ⟨hholds, hhead, pairwise_append.mpr
    ⟨hsortedBefore, pairwise_cons.mpr ⟨hafter, hsortedAfter⟩, ?_⟩, ?_⟩
  · intro c hc c' hc'
    rcases mem_cons.mp hc' with rfl | hmem
    · exact hbefore c hc
    · exact hbetween c hc c' hmem
  · intro c hc
    rw [hsize]
    rcases mem_append.mp hc with hmem | hmem
    · exact lt_succ_of_lt (h.allocated c (mem_append_left _ hmem))
    · rcases mem_cons.mp hmem with rfl | hmem'
      · exact lt_succ_self _
      · exact lt_succ_of_lt (h.allocated c (mem_append_right _ hmem'))

/-- `add` of a new node, to a ring that is not empty. -/
theorem Ordered.add_eq (h : ring.Ordered cells) (hne : cells ≠ [])
    (hnodeId : ∀ c ∈ cells, c.2.nodeId ≠ entry.nodeId) :
    ring.add entry = (addToOthers entry cells.length (get cells 0).1 ring.heap.next
        (ring.heap.alloc ⟨entry, none, none⟩)).map fun (heap, head) =>
          ⟨heap, some head, (entry.nodeId, ring.heap.next) :: ring.indexByNodeId⟩ := by
  have hsize : cells.length ≠ 0 := by
    rw [Ne, length_eq_zero_iff]
    exact hne
  unfold add
  rw [h.holds.pointerTo_eq_none hnodeId]
  simp only [h.holds.index_length, hsize, h.head_eq hne, isSome_none, Bool.false_eq_true,
    if_false, bind_some]

theorem Ordered.add_first (h : ring.Ordered []) (entry : RingEntry) :
    ∃ ring', ring.add entry = some ring' ∧ ring'.Ordered [(ring.heap.next, entry)] := by
  obtain ⟨hentries, hnext, hback⟩ := alloc_spec ring.heap entry
  have hempty : ring.indexByNodeId = [] := perm_nil.mp h.holds.index
  refine ⟨⟨ring.heap.alloc ⟨entry, none, none⟩, some ring.heap.next,
    [(entry.nodeId, ring.heap.next)]⟩, ?_, ?_⟩
  · simp [add, pointerTo, hempty]
  · have hread := Heap.read_alloc_next ring.heap ⟨entry, none, none⟩
    refine ⟨⟨?_, nodup_singleton _, nodup_singleton _, Perm.refl _, .inr ?_⟩,
      rfl, pairwise_singleton _ _, ?_⟩
    · simp [entryOf, hread]
    · simp [nextOf, backOf, hread]
    · simp

/-- The second node becomes the neighbour of the first on both sides, and the head if it comes
    before it. -/
theorem Ordered.add_second {c : Nat × RingEntry} (h : ring.Ordered [c])
    (hnodeId : ∀ c' ∈ [c], c'.2.nodeId ≠ entry.nodeId) :
    ∃ ring', ring.add entry = some ring' ∧
      (c.2.ringPosition < entry.ringPosition → ring'.Ordered [c, (ring.heap.next, entry)]) ∧
      (entry.ringPosition < c.2.ringPosition → ring'.Ordered [(ring.heap.next, entry), c]) := by
  have hgrown := h.alloc entry
  have hlt := h.allocated c mem_cons_self
  have hc := hgrown.holds.entries c mem_cons_self
  have hx : entryOf (ring.heap.alloc ⟨entry, none, none⟩) ring.heap.next = some entry := by
    rw [(alloc_spec ring.heap entry).1, update_self]
  obtain ⟨heap, hjoin, hsize, hentries, hnext, hback⟩ := join_join_spec hc hx hx hc
  have hholds : ∀ head, Holds ⟨heap, head, (entry.nodeId, ring.heap.next) :: ring.indexByNodeId⟩
      [c, (ring.heap.next, entry)] := by
    intro head
    refine h.add_after hnodeId (m := 0) (by simp) head hentries ?_ ?_
    · rw [get_singleton, get_singleton, hnext]
    · rw [get_singleton, get_singleton, hback, update_comm (Nat.ne_of_gt hlt)]
  obtain ⟨node, hnode, hentry⟩ := map_eq_some_iff.mp hc
  -- with two entries both orders are the same ring; only the head differs
  have hadd : addToOthers entry [c].length (get [c] 0).1 ring.heap.next
      (ring.heap.alloc ⟨entry, none, none⟩) = some (heap,
        if entry.ringPosition < c.2.ringPosition then ring.heap.next else c.1) := by
    unfold addToOthers
    simp [hnode, hjoin, hentry]
  rw [h.add_eq (by simp) hnodeId, hadd]
  refine ⟨_, rfl, ?_, ?_⟩
  · intro hafter
    refine Ordered.of_split [c] [] h (by simpa using hafter) (by simp)
      (hholds _) ?_ ?_
    · simp [UInt32.lt_asymm hafter]
    · exact hsize.trans (Heap.next_alloc _ _)
  · intro hbefore
    refine Ordered.of_split [] [c] h (by simp) (by simpa using hbefore)
      ?_ ?_ ?_
    · exact (hholds _).of_isRotated ⟨1, rfl⟩
    · simp [hbefore]
    · exact hsize.trans (Heap.next_alloc _ _)

section
variable (h : ring.Ordered cells)
include h

/-- A position between those of two neighbours. -/
theorem Ordered.add_between (hnodeId : ∀ c ∈ cells, c.2.nodeId ≠ entry.nodeId)
    (hm : m + 1 < cells.length) (hlow : (get cells m).2.ringPosition < entry.ringPosition)
    (hhigh : entry.ringPosition < (get cells ((m : Int) + 1)).2.ringPosition) :
    ∃ ring', ring.add entry = some ring' ∧ ring'.head = ring.head ∧
      ring'.heap.next = ring.heap.next + 1 ∧
      ring'.Holds (cells.take (m + 1) ++ (ring.heap.next, entry) :: cells.drop (m + 1)) := by
  have hne : cells ≠ [] := by
    rintro rfl
    simp at hm
  have hgrown := h.alloc entry
  have hread := hgrown.holds.read_get (hgrown.holds.linked (by omega)) hne 0
  have hx : entryOf (ring.heap.alloc ⟨entry, none, none⟩) ring.heap.next = some entry := by
    rw [(alloc_spec ring.heap entry).1, update_self]
  obtain ⟨heap, hjoin, hsize, hentries, hnext, hback⟩ := join_join_spec
    (hgrown.holds.entries _ (get_mem hne m)) hx hx (hgrown.holds.entries _ (get_mem hne (m + 1)))
  rw [update_comm (Nat.ne_of_gt (h.allocated _ (get_mem hne _)))] at hback
  have hfound := hgrown.findGap_found hm hlow hhigh m (k := 0) (by omega)
  simp only [Nat.sub_zero, Nat.cast_zero] at hfound
  have hadd : addToOthers entry cells.length (get cells 0).1 ring.heap.next
      (ring.heap.alloc ⟨entry, none, none⟩) = some (heap, (get cells 0).1) := by
    unfold addToOthers
    simp only [hread, bind_eq_bind, bind_some]
    rw [if_neg (by omega), hfound]
    simp [hjoin]
  rw [h.add_eq hne hnodeId, hadd]
  exact ⟨_, rfl, (h.head_eq hne).symm, hsize.trans (Heap.next_alloc _ _),
    h.add_after hnodeId (by omega) _ hentries hnext hback⟩

/-- A position outside of all gaps: the entry goes before the head. -/
theorem Ordered.add_outside (hlength : 2 ≤ cells.length)
    (hnodeId : ∀ c ∈ cells, c.2.nodeId ≠ entry.nodeId)
    (hgap : ∀ i : Int, ¬ ((get cells i).2.ringPosition < entry.ringPosition ∧
      entry.ringPosition < (get cells (i + 1)).2.ringPosition)) :
    ∃ ring', ring.add entry = some ring' ∧ ring'.head = ring.head ∧
      ring'.heap.next = ring.heap.next + 1 ∧ ring'.Holds (cells ++ [(ring.heap.next, entry)]) := by
  have hne : cells ≠ [] := by
    rintro rfl
    simp at hlength
  have hgrown := h.alloc entry
  have hread := hgrown.holds.read_get (hgrown.holds.linked hlength) hne 0
  have hx : entryOf (ring.heap.alloc ⟨entry, none, none⟩) ring.heap.next = some entry := by
    rw [(alloc_spec ring.heap entry).1, update_self]
  obtain ⟨heap, hjoin, hsize, hentries, hnext, hback⟩ := join_join_spec hx
    (hgrown.holds.entries _ (get_mem hne 0)) (hgrown.holds.entries _ (get_mem hne (0 - 1))) hx
  rw [update_comm (Nat.ne_of_gt (h.allocated _ (get_mem hne _)))] at hnext
  have hnone := hgrown.findGap_none hlength hgap (cells.length + 1) 0
  have hadd : addToOthers entry cells.length (get cells 0).1 ring.heap.next
      (ring.heap.alloc ⟨entry, none, none⟩) = some (heap, (get cells 0).1) := by
    unfold addToOthers
    simp only [hread, bind_eq_bind, bind_some]
    rw [if_neg (by omega), hnone]
    simp only [bind_some, hjoin]
    rfl
  rw [h.add_eq hne hnodeId, hadd]
  refine ⟨_, rfl, (h.head_eq hne).symm, hsize.trans (Heap.next_alloc _ _), ?_⟩
  -- the last cell is the one before the head
  have hlast : get cells (0 - 1) = get cells ((cells.length - 1 : Nat) : Int) := get_neg_one hne
  have hfirst : get cells 0 = get cells (((cells.length - 1 : Nat) : Int) + 1) := by
    rw [show ((cells.length - 1 : Nat) : Int) + 1 = 0 + cells.length by omega, get_add_length]
  rw [hlast, hfirst] at hnext hback
  have hholds := h.add_after hnodeId (m := cells.length - 1) (by omega) (some (get cells 0).1)
    hentries hnext hback
  rw [show cells.length - 1 + 1 = cells.length by omega, take_length, drop_length]
    at hholds
  exact hholds

/-- The end and the beginning of a sorted ring have no position between them. -/
theorem Ordered.gap_of_gap (hne : cells ≠ []) {i : Int}
    (hlow : (get cells i).2.ringPosition < ringPosition)
    (hhigh : ringPosition < (get cells (i + 1)).2.ringPosition) :
    ∃ m : Nat, m + 1 < cells.length ∧ (get cells m).2.ringPosition < ringPosition ∧
      ringPosition < (get cells ((m : Int) + 1)).2.ringPosition := by
  obtain ⟨m, hm, hmod, hget⟩ := exists_lt_get hne i
  have hnext : get cells (i + 1) = get cells ((m : Int) + 1) := by
    refine get_congr (Int.ModEq.add_right 1 (Int.ModEq.symm ?_))
    rw [hmod]
    exact Int.emod_emod_of_dvd _ (dvd_refl _)
  rw [hget] at hlow
  rw [hnext] at hhigh
  refine ⟨m, ?_, hlow, hhigh⟩
  by_contra hlast
  rw [show (m : Int) + 1 = ((0 : Nat) : Int) + cells.length by omega, get_add_length] at hhigh
  have hlt := (h.lt_iff hm (k := 0) (by omega)).mp (UInt32.lt_trans hlow hhigh)
  omega

/-- Wherever a new entry belongs, it is put between two neighbours. -/
theorem Ordered.add_holds (hlength : 2 ≤ cells.length)
    (hnodeId : ∀ c ∈ cells, c.2.nodeId ≠ entry.nodeId) :
    ∃ ring' before after, cells = before ++ after ∧ ring.add entry = some ring' ∧
      ring'.Holds (before ++ (ring.heap.next, entry) :: after) := by
  have hne : cells ≠ [] := by
    rintro rfl
    simp at hlength
  by_cases hgap : ∃ i : Int, (get cells i).2.ringPosition < entry.ringPosition ∧
      entry.ringPosition < (get cells (i + 1)).2.ringPosition
  · obtain ⟨i, hlow, hhigh⟩ := hgap
    obtain ⟨m, hm, hlow, hhigh⟩ := h.gap_of_gap hne hlow hhigh
    obtain ⟨ring', hadd, -, -, hholds⟩ := h.add_between hnodeId hm hlow hhigh
    exact ⟨ring', _, _, (take_append_drop _ _).symm, hadd, hholds⟩
  · obtain ⟨ring', hadd, -, -, hholds⟩ := h.add_outside hlength hnodeId
      (fun i hi => hgap ⟨i, hi⟩)
    exact ⟨ring', cells, [], (append_nil _).symm, hadd, hholds⟩

/-- A new entry at a free position goes where it belongs, except that it comes last if it belongs
    before the head of a ring of at least two. -/
theorem Ordered.add_spec (hnodeId : ∀ c ∈ cells, c.2.nodeId ≠ entry.nodeId)
    (hfree : ∀ c ∈ cells, c.2.ringPosition ≠ entry.ringPosition) :
    ∃ ring' before after, cells = before ++ after ∧ ring.add entry = some ring' ∧
      (ring'.Ordered (before ++ (ring.heap.next, entry) :: after) ∨
        before = [] ∧ 2 ≤ cells.length ∧
          (∀ c ∈ cells, entry.ringPosition < c.2.ringPosition) ∧
            ring'.Holds (cells ++ [(ring.heap.next, entry)])) := by
  obtain ⟨before, after, rfl, hbefore, hafter⟩ := exists_split h.sorted entry.ringPosition
  replace hbefore : ∀ c ∈ before, c.2.ringPosition < entry.ringPosition := fun c hc =>
    UInt32.lt_of_le_of_ne (hbefore c hc) (hfree c (mem_append_left _ hc))
  -- `add` walks the ring only when it has two nodes to walk between
  by_cases hlength : 2 ≤ (before ++ after).length
  · rcases eq_nil_or_concat before with rfl | ⟨init, c, rfl⟩
    · -- before all others: the walk finds no gap, and the entry is linked in as the last one
      obtain ⟨ring', hadd, -, -, hholds⟩ := h.add_outside hlength hnodeId
        (no_gap_outside (by rintro hnil; simp [hnil] at hlength) (.inl hafter))
      exact ⟨ring', [], after, rfl, hadd, .inr ⟨rfl, hlength, hafter, hholds⟩⟩
    · rw [concat_eq_append] at h hbefore hlength hnodeId hfree ⊢
      obtain ⟨ring', hadd, hhead, hsize, hholds⟩ : ∃ ring', ring.add entry = some ring' ∧
          ring'.head = ring.head ∧ ring'.heap.next = ring.heap.next + 1 ∧
          ring'.Holds (init ++ [c] ++ (ring.heap.next, entry) :: after) := by
        cases after with
        | nil =>
          rw [append_nil] at h hlength hnodeId
          exact h.add_outside hlength hnodeId (no_gap_outside (by simp) (.inr hbefore))
        | cons c' after =>
          have hc : get (init ++ [c] ++ c' :: after) (init.length : Nat) = c := by
            rw [get_natCast (by simp)]
            simp
          have hc' : get (init ++ [c] ++ c' :: after) ((init.length : Nat) + 1) = c' := by
            have hnat :=
              get_natCast (l := init ++ [c] ++ c' :: after) (k := init.length + 1) (by simp)
            rw [cast_add, cast_one] at hnat
            rw [hnat]
            simp
          have hfound := h.add_between hnodeId (m := init.length) (by simp)
            (by rw [hc]; exact hbefore c (by simp)) (by rw [hc']; exact hafter c' (by simp))
          rwa [take_left' (by simp), drop_left' (by simp)] at hfound
      refine ⟨ring', init ++ [c], after, rfl, hadd, .inl ?_⟩
      refine Ordered.of_split _ _ h hbefore hafter hholds ?_ hsize
      rw [hhead, h.head]
      simp
  · rw [length_append] at hlength
    cases before with
    | nil =>
      cases after with
      | nil =>
        obtain ⟨ring', hadd, hordered⟩ := h.add_first entry
        exact ⟨ring', [], [], rfl, hadd, .inl hordered⟩
      | cons c after =>
        rw [length_nil, length_cons] at hlength
        obtain rfl : after = [] := length_eq_zero_iff.mp (by omega)
        obtain ⟨ring', hadd, -, hordered⟩ := h.add_second hnodeId
        exact ⟨ring', [], [c], rfl, hadd, .inl (hordered (hafter c mem_cons_self))⟩
    | cons c before =>
      rw [length_cons] at hlength
      obtain rfl : before = [] := length_eq_zero_iff.mp (by omega)
      obtain rfl : after = [] := length_eq_zero_iff.mp (by omega)
      obtain ⟨ring', hadd, hordered, -⟩ := h.add_second hnodeId
      exact ⟨ring', [c], [], rfl, hadd, .inl (hordered (hbefore c mem_cons_self))⟩

end

/-! ### Deletions -/

/-- The ring closes around an entry that is not the head. -/
theorem Ordered.deleteByNodeId_spec {before after : List (Nat × RingEntry)} {c : Nat × RingEntry}
    (h : ring.Ordered (before ++ c :: after)) (hne : before ≠ []) :
    ∃ ring', ring.deleteByNodeId c.2.nodeId = some ring' ∧ ring'.Ordered (before ++ after) := by
  have hrot : (before ++ c :: after) ~r (after ++ before) ++ [c] := by
    have hsplit : before ++ c :: after = (before ++ [c]) ++ after := by simp
    rw [hsplit, append_assoc after before]
    exact isRotated_append
  have hothers : after ++ before ≠ [] := by simp [hne]
  obtain ⟨ring', hdelete, hholds, -, hhead, hsize⟩ := (h.holds.of_isRotated hrot).delete hothers
  refine ⟨ring', hdelete, hholds.of_isRotated isRotated_append, ?_, ?_, ?_⟩
  · obtain ⟨first, before, rfl⟩ := exists_cons_of_ne_nil hne
    rw [hhead, h.head]
    rfl
  · exact h.sorted.sublist (Sublist.append_left (sublist_cons_self c after) before)
  · intro c' hc'
    rw [hsize]
    refine h.allocated c' ?_
    rcases mem_append.mp hc' with hmem | hmem
    · exact mem_append_left _ hmem
    · exact mem_append_right _ (mem_cons_of_mem _ hmem)

end ordered

/-! ### Building a ring -/

/-- The nodes that the loop of `fromEntries` has made: a chain that joining the last one to the
    first will close. -/
structure Chain (ring : RingEntries) (cells : List (Nat × RingEntry)) : Prop where
  nonempty : cells ≠ []
  head : ring.head = some (get cells 0).1
  allocated : ∀ c ∈ cells, c.1 < ring.heap.next
  nodes : ∀ c ∈ cells, entryOf ring.heap c.1 = some c.2
  closes : ∀ heap, join (get cells (-1)).1 (get cells 0).1 ring.heap = some heap →
    Holds { ring with heap := heap } cells

section build
variable {ring : RingEntries} {cells : List (Nat × RingEntry)} {entries : List RingEntry}
  {entry : RingEntry}

section
variable (h : ring.Chain cells)
include h

theorem Chain.close :
    ∃ heap, join (get cells (-1)).1 (get cells 0).1 ring.heap = some heap ∧
      Holds { ring with heap := heap } cells ∧ heap.next = ring.heap.next ∧
      entryOf heap = entryOf ring.heap ∧
      nextOf heap = update (nextOf ring.heap) (get cells (-1)).1 (some (get cells 0).1) ∧
      backOf heap = update (backOf ring.heap) (get cells 0).1 (some (get cells (-1)).1) := by
  obtain ⟨heap, hjoin, hsize, hlinks⟩ :=
    join_spec (h.nodes _ (get_mem h.nonempty (-1))) (h.nodes _ (get_mem h.nonempty 0))
  exact ⟨heap, hjoin, h.closes heap hjoin, hsize, hlinks⟩

theorem Chain.get_append_zero (c : Nat × RingEntry) : get (cells ++ [c]) 0 = get cells 0 :=
  get_append_of_lt (k := 0) (length_pos_iff.mpr h.nonempty)

/-- The next node is joined to the last one. -/
theorem Chain.grow (hnew : ∀ c ∈ cells, c.2.nodeId ≠ entry.nodeId) :
    ∃ heap, join (get cells (-1)).1 ring.heap.next (ring.heap.alloc ⟨entry, none, none⟩) =
        some heap ∧
      Chain ⟨heap, ring.head, (entry.nodeId, ring.heap.next) :: ring.indexByNodeId⟩
        (cells ++ [(ring.heap.next, entry)]) := by
  have hne := h.nonempty
  have hfresh : ∀ c ∈ cells, c.1 ≠ ring.heap.next := fun c hc => Nat.ne_of_lt (h.allocated c hc)
  have hfirst := h.get_append_zero (ring.heap.next, entry)
  obtain ⟨closed, -, hholds, -, hentriesC, hnextC, hbackC⟩ := h.close
  obtain ⟨hentriesA, hnextA, hbackA⟩ := alloc_spec ring.heap entry
  have hnodes : ∀ c ∈ cells ++ [(ring.heap.next, entry)],
      entryOf (ring.heap.alloc ⟨entry, none, none⟩) c.1 = some c.2 := by
    rw [hentriesA]
    refine forall_mem_append.mpr ⟨fun c hc => ?_, by simp⟩
    rw [update_of_ne (hfresh c hc)]
    exact h.nodes c hc
  have hadded := hnodes (ring.heap.next, entry) (by simp)
  have hjoined := hnodes _ (mem_append_left _ (get_mem hne (-1)))
  obtain ⟨heap, hjoin, hsize, hentries, hnext, hback⟩ := join_spec hjoined hadded
  refine ⟨heap, hjoin, by simp, ?_, ?_, ?_, ?_⟩
  · rw [hfirst]
    exact h.head
  · rw [hsize, Heap.next_alloc]
    exact forall_mem_append.mpr ⟨fun c hc => lt_succ_of_lt (h.allocated c hc), by simp⟩
  · rwa [← hentries] at hnodes
  · intro heap' hclose
    -- the ring is closed around the new node instead of the last one
    rw [← hentries] at hnodes hadded
    have hclosing := hnodes _ (mem_append_left _ (get_mem hne 0))
    obtain ⟨heap'', hjoin', -, hentries', hnext', hback'⟩ := join_spec hadded hclosing
    rw [hfirst, get_append_neg_one] at hclose
    cases hjoin'.symm.trans hclose
    refine hholds.insert hne ?_ ?_ ?_ ?_ ?_
    · intro hmem
      obtain ⟨c, hc, hceq⟩ := mem_map.mp hmem
      exact hfresh c hc hceq
    · intro hmem
      obtain ⟨c, hc, hceq⟩ := mem_map.mp hmem
      exact hnew c hc hceq
    · rw [hentries', hentries, hentriesA, hentriesC]
    · rw [hnext', hnext, hnextA, hnextC, update_idem]
    · rw [hback', hback, hbackA, hbackC, update_idem, update_comm (hfresh _ (get_mem hne 0))]

omit h in
theorem Chain.fromSorted_spec (rest : List RingEntry) (h : ring.Chain cells) (hrest : rest ≠ [])
    {n : Nat} (hn : n = cells.length + rest.length)
    (hnodeIds : ((cells.map Prod.snd ++ rest).map (·.nodeId)).Nodup) :
    ∃ ring' cells', fromSorted n cells.length (some (get cells (-1)).1) rest ring = some ring' ∧
    cells'.map Prod.snd = cells.map Prod.snd ++ rest ∧ ring'.Holds cells' ∧
      ring'.head = cells'.head?.map Prod.fst ∧ ∀ c ∈ cells', c.1 < ring'.heap.next := by
  induction rest generalizing cells ring with
  | nil => exact absurd rfl hrest
  | cons entry rest ih =>
    have hnew : ∀ c ∈ cells, c.2.nodeId ≠ entry.nodeId := by
      intro c hc
      rw [map_append] at hnodeIds
      exact (nodup_append.mp hnodeIds).2.2 _ (mem_map_of_mem (mem_map_of_mem hc)) _ (by simp)
    -- the closed ring would not find the entry in its index either
    obtain ⟨_, -, hheld, -⟩ := h.close
    have hfirst := h.get_append_zero (ring.heap.next, entry)
    obtain ⟨heap, hjoin, hchain⟩ := h.grow hnew
    rw [fromSorted]
    simp only [show ring.pointerTo entry.nodeId = none from hheld.pointerTo_eq_none hnew, hjoin,
      isSome_none, Bool.false_eq_true, if_false, bind_eq_bind, bind_some,
      mt length_eq_zero_iff.mp h.nonempty]
    cases rest with
    -- the last entry closes the ring
    | nil =>
      obtain ⟨heap', hclose, hholds, hsize, -⟩ := hchain.close
      refine ⟨⟨heap', ring.head, (entry.nodeId, ring.heap.next) :: ring.indexByNodeId⟩, _,
        ?_, by simp, hholds, ?_, ?_⟩
      · rw [hfirst, get_append_neg_one] at hclose
        rw [if_pos (by rw [hn]; rfl), h.head]
        simp only [bind_some, hclose, fromSorted]
      · rw [head?_eq_get hchain.nonempty, hfirst]
        exact h.head
      · rw [hsize]
        exact hchain.allocated
    | cons entry' rest =>
      rw [if_neg (by rw [hn]; simp)]
      obtain ⟨ring', cells', hring', hsnd, hspec⟩ :=
        ih hchain (by simp) (by rw [hn]; simp; omega) (by simpa using hnodeIds)
      rw [get_append_neg_one, length_append] at hring'
      exact ⟨ring', cells', hring', by simpa using hsnd, hspec⟩

end

theorem ordered_empty : Ordered ⟨Heap.empty, none, []⟩ [] :=
  ⟨⟨by simp, nodup_nil, nodup_nil, Perm.refl _, .inr (by simp)⟩, rfl,
    Pairwise.nil, by simp⟩

theorem chain_singleton (entry : RingEntry) :
    Chain ⟨Heap.empty.alloc ⟨entry, none, none⟩, some 0, [(entry.nodeId, 0)]⟩ [(0, entry)] := by
  have hnode : entryOf (Heap.empty.alloc ⟨entry, none, none⟩) 0 = some entry := rfl
  obtain ⟨closed, hclose, -, hentries, hnext, hback⟩ := join_spec hnode hnode
  refine ⟨by simp, by simp, by simp [Heap.next_alloc], by simpa using hnode, ?_⟩
  intro heap hjoin
  rw [get_singleton, get_singleton] at hjoin
  cases hclose.symm.trans hjoin
  refine ⟨?_, nodup_singleton _, nodup_singleton _, Perm.refl _, .inl ?_⟩
  · simpa [hentries] using hnode
  · intro i
    simp [hnext, hback]

theorem fromSorted_spec (hsorted : entries.Pairwise fun e e' => e.ringPosition < e'.ringPosition)
    (hnodeIds : (entries.map (·.nodeId)).Nodup) :
    ∃ ring cells, fromSorted entries.length 0 none entries ⟨Heap.empty, none, []⟩ = some ring ∧
      cells.map Prod.snd = entries ∧ ring.Ordered cells := by
  rcases entries with _ | ⟨first, _ | ⟨second, rest⟩⟩
  · exact ⟨_, [], rfl, rfl, ordered_empty⟩
  · obtain ⟨ring, hring, hordered⟩ := ordered_empty.add_first first
    exact ⟨ring, _, hring, rfl, hordered⟩
  · obtain ⟨ring, cells, hring, hsnd, hholds, hhead, hallocated⟩ :=
      (chain_singleton first).fromSorted_spec (second :: rest) (by simp) (Nat.add_comm _ _) hnodeIds
    refine ⟨ring, cells, hring, hsnd, hholds, hhead, ?_, hallocated⟩
    rw [show first :: second :: rest = _ from hsnd.symm, pairwise_map] at hsorted
    exact hsorted

theorem clockwiseOrder_perm (entries : List RingEntry) : (clockwiseOrder entries).Perm entries :=
  perm_insertionSort _ entries

theorem clockwiseOrder_pairwise (entries : List RingEntry) :
    (clockwiseOrder entries).Pairwise fun a b => a.ringPosition ≤ b.ringPosition := by
  have htotal : Std.Total fun a b : RingEntry => a.ringPosition ≤ b.ringPosition :=
    ⟨fun a b => UInt32.le_total _ _⟩
  have htrans : IsTrans RingEntry fun a b => a.ringPosition ≤ b.ringPosition :=
    ⟨fun a b c => UInt32.le_trans⟩
  exact pairwise_insertionSort _ entries

theorem clockwiseOrder_sorted (hpositions : (entries.map (·.ringPosition)).Nodup) :
    (clockwiseOrder entries).Pairwise fun a b => a.ringPosition < b.ringPosition := by
  have hdistinct := pairwise_map.mp
    (((clockwiseOrder_perm entries).map (·.ringPosition)).nodup_iff.mpr hpositions)
  exact ((clockwiseOrder_pairwise entries).and hdistinct).imp fun h => UInt32.lt_of_le_of_ne h.1 h.2

/-- Entries with distinct node ids and positions form an ordered ring. -/
theorem fromEntries_spec (hnodeIds : (entries.map (·.nodeId)).Nodup)
    (hpositions : (entries.map (·.ringPosition)).Nodup) :
    ∃ ring cells, fromEntries entries = some ring ∧ cells.map Prod.snd = clockwiseOrder entries ∧
      ring.Ordered cells :=
  fromSorted_spec (clockwiseOrder_sorted hpositions)
    (((clockwiseOrder_perm entries).map (·.nodeId)).nodup_iff.mpr hnodeIds)

end build

end RingEntries

end MemDb
