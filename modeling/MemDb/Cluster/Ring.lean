import MemDb.Cluster.RingEntries

/-! # Rings as circular lists

    A ring in memory holds a circular list of cells, each a pointer with the entry it points to.
    What the functions that look around return is a matter of positions in this list; where its head
    points does not matter for them.
-/

namespace MemDb

open Lib Lib.Cycle Function Option
open List hiding get

namespace RingEntries

/-! ### The list in memory -/

def entryOf (heap : Heap RingEntryNode) (pointer : Nat) : Option RingEntry :=
  (heap.read pointer).map (·.entry)

def nextOf (heap : Heap RingEntryNode) (pointer : Nat) : Option Nat :=
  (heap.read pointer).bind (·.next)

def backOf (heap : Heap RingEntryNode) (pointer : Nat) : Option Nat :=
  (heap.read pointer).bind (·.back)

/-- The ring holds the cells in clockwise order. The links of a node that has never had a neighbour
    are null. -/
structure Holds (ring : RingEntries) (cells : List (Nat × RingEntry)) : Prop where
  entries : ∀ c ∈ cells, entryOf ring.heap c.1 = some c.2
  pointers : (cells.map Prod.fst).Nodup
  nodeIds : (cells.map (·.2.nodeId)).Nodup
  index : ring.indexByNodeId.Perm (cells.map fun c => (c.2.nodeId, c.1))
  links : Linked (nextOf ring.heap) (backOf ring.heap) (cells.map Prod.fst) ∨
    cells.length ≤ 1 ∧ ∀ c ∈ cells, nextOf ring.heap c.1 = none ∧ backOf ring.heap c.1 = none

section holds
variable {ring : RingEntries} {cells : List (Nat × RingEntry)}

section
variable (h : ring.Holds cells)
include h

theorem Holds.index_length : ring.indexByNodeId.length = cells.length := by
  rw [h.index.length_eq, length_map]

/-- The index finds every cell of the ring. -/
theorem Holds.pointerTo_of_mem {c : Nat × RingEntry} (hc : c ∈ cells) :
    ring.pointerTo c.2.nodeId = some c.1 := by
  have hmem : (c.2.nodeId, c.1) ∈ ring.indexByNodeId :=
    h.index.mem_iff.mpr (List.mem_map_of_mem hc)
  refine lookup_of_mem ?_ hmem
  have hkeys := (h.index.map Prod.fst).nodup_iff
  rw [List.map_map] at hkeys
  exact hkeys.mpr h.nodeIds

theorem Holds.pointerTo_eq_none {nodeId : UInt16} (hnodeId : ∀ c ∈ cells, c.2.nodeId ≠ nodeId) :
    ring.pointerTo nodeId = none := by
  refine lookup_eq_none_iff.mpr ?_
  intro pair hpair
  obtain ⟨c, hc, rfl⟩ := mem_map.mp (h.index.mem_iff.mp hpair)
  simpa using (hnodeId c hc).symm

/-- What a node of a linked ring looks like. -/
theorem Holds.read_get (hlinked : Linked (nextOf ring.heap) (backOf ring.heap) (cells.map Prod.fst))
    (hne : cells ≠ []) (i : Int) : ring.heap.read (get cells i).1 =
      some ⟨(get cells i).2, some (get cells (i + 1)).1, some (get cells (i - 1)).1⟩ := by
  obtain ⟨node, hnode, hentry⟩ := map_eq_some_iff.mp (h.entries _ (get_mem hne i))
  obtain ⟨hnext, hback⟩ := hlinked i
  simp only [get_map Prod.fst hne, nextOf, backOf, hnode, bind_some] at hnext hback
  rw [hnode, ← hentry, ← hnext, ← hback]

theorem Holds.nodeId_get_eq_iff (hne : cells ≠ []) {i j : Int} :
    (get cells i).2.nodeId = (get cells j).2.nodeId ↔
      i % (cells.length : Int) = j % cells.length := by
  have hinj := get_inj h.nodeIds (by simpa using hne) (i := i) (j := j)
  rw [get_map _ hne, get_map _ hne, length_map] at hinj
  exact hinj

end

/-! ### Distances -/

/-- The signed distance of two nodes that are `d` steps apart clockwise: the shorter way, clockwise
    if both are equally short. -/
def shortestWay (n d : Nat) : Int := if d ≤ n - d then d else -((n - d : Nat) : Int)

section
variable (h : ring.Holds cells)
  (hlinked : Linked (nextOf ring.heap) (backOf ring.heap) (cells.map Prod.fst)) (hne : cells ≠ [])
include h hlinked hne

/-- The loop of `getDistance` after `k` steps: it goes on until one of the two pointers has
    arrived. -/
theorem Holds.distanceFrom_eq {i : Int} {d : Nat} (hd : d < cells.length) (steps : Nat) {k : Nat}
    (hk : k + steps = min d (cells.length - d)) :
    distanceFrom ring.heap (get cells i).2.nodeId (get cells (i + d)).2.nodeId
        (cells.length + 1 - k) k (some (get cells (i + k)).1) (some (get cells (i + d + k)).1) =
      some (shortestWay cells.length d) := by
  have hpos : 0 < cells.length := length_pos_iff.mpr hne
  -- after `k` rounds both pointers are `k` steps further, and the first to arrive decides
  induction steps generalizing k with
  | zero =>
    rw [show cells.length + 1 - k = (cells.length - k) + 1 by omega, distanceFrom]
    simp only [h.read_get hlinked hne, bind_eq_bind, bind_some]
    by_cases hkd : k = d
    · subst hkd
      rw [if_pos rfl, shortestWay, if_pos (by omega)]
      rfl
    · -- the other pointer has gone the rest of the circle
      have hA : ¬ (get cells (i + k)).2.nodeId = (get cells (i + d)).2.nodeId := by
        rw [h.nodeId_get_eq_iff hne, add_emod_inj i (by omega) hd]
        exact hkd
      have hB : (get cells (i + d + k)).2.nodeId = (get cells i).2.nodeId := by
        rw [show i + d + k = i + cells.length by omega, get_add_length]
      rw [if_neg hA, if_pos hB, shortestWay, if_neg (by omega)]
      rw [show k = cells.length - d by omega]
      rfl
  | succ steps ih =>
    rw [show cells.length + 1 - k = (cells.length + 1 - (k + 1)) + 1 by omega, distanceFrom]
    simp only [h.read_get hlinked hne, bind_eq_bind, bind_some]
    have hA : ¬ (get cells (i + k)).2.nodeId = (get cells (i + d)).2.nodeId := by
      rw [h.nodeId_get_eq_iff hne, add_emod_inj i (by omega) hd]
      omega
    have hB : ¬ (get cells (i + d + k)).2.nodeId = (get cells i).2.nodeId := by
      have hinj := add_emod_inj i (a := d + k) (b := 0) (by omega) hpos
      rw [h.nodeId_get_eq_iff hne]
      intro heq
      have := hinj.mp (by push_cast; rw [← add_assoc, heq, add_zero])
      omega
    rw [if_neg hA, if_neg hB]
    have hrest := ih (k := k + 1) (by omega)
    rw [Nat.cast_add, Nat.cast_one, ← add_assoc, ← add_assoc] at hrest
    exact hrest

/-- `getDistance` goes the shorter way. -/
theorem Holds.getDistance_eq (i : Int) {d : Nat} (hd : d < cells.length) :
    ring.getDistance (get cells i).2.nodeId (get cells (i + d)).2.nodeId =
      some (shortestWay cells.length d) := by
  unfold getDistance
  rw [h.pointerTo_of_mem (get_mem hne i), h.pointerTo_of_mem (get_mem hne (i + d)), h.index_length]
  have hloop := h.distanceFrom_eq hlinked hne (i := i) hd
    (min d (cells.length - d)) (k := 0) (by omega)
  rw [Nat.cast_zero, add_zero, add_zero] at hloop
  exact hloop

theorem Holds.getDistanceClockwise_eq (i : Int) {d : Nat} (hd : d < cells.length) :
    ring.getDistanceClockwise (get cells i).2.nodeId (get cells (i + d)).2.nodeId =
      some (UInt32.ofNat d) := by
  unfold getDistanceClockwise
  rw [h.getDistance_eq hlinked hne i hd, map_some, h.index_length]
  unfold shortestWay
  split
  · next hle => rw [if_neg (by omega), Int.natAbs_natCast]
  · next hgt =>
    rw [if_pos (by omega)]
    congr 2
    omega

end

/-! ### Neighbours -/

/-- The `k` entries clockwise of the cell at `i`. -/
def clockwise (cells : List (Nat × RingEntry)) (i : Int) (k : Nat) : List RingEntry :=
  (List.range k).map fun j : Nat => (get cells (i + 1 + j)).2

theorem clockwise_succ (i : Int) (k : Nat) :
    clockwise cells i (k + 1) = (get cells (i + 1)).2 :: clockwise cells (i + 1) k := by
  unfold clockwise
  rw [List.range_succ_eq_map, List.map_cons, List.map_map, Nat.cast_zero, add_zero]
  refine congrArg _ (map_congr_left ?_)
  intro j _
  simp only [comp_apply, Nat.cast_succ]
  rw [show i + 1 + ((j : Int) + 1) = i + 1 + 1 + j by omega]

section
variable (h : ring.Holds cells)
  (hlinked : Linked (nextOf ring.heap) (backOf ring.heap) (cells.map Prod.fst)) (hne : cells ≠ [])
  (i : Int)
include h hlinked hne

/-- The loop of `getNeighborsClockwise` after `k` steps: it ends when the next node is the one where
    it started. -/
theorem Holds.neighborsFrom_eq (remaining : Nat) {k : Nat} (hk : k < cells.length) (hpos : 0 < k) :
    neighborsFrom ring.heap (get cells i).1 remaining false (get cells (i + k)).1 =
      some (clockwise cells (i + k) (min remaining (cells.length - 1 - k))) := by
  induction remaining generalizing k with
  | zero => simp [neighborsFrom, clockwise]
  | succ remaining ih =>
    rw [neighborsFrom]
    simp only [h.read_get hlinked hne, bind_eq_bind, bind_some, Bool.not_false,
      Bool.true_and, beq_iff_eq, some.injEq]
    -- the walk is back at its start exactly after a full round
    have harrived : (get cells (i + k + 1)).1 = (get cells i).1 ↔ k + 1 = cells.length := by
      have hinj := get_inj h.pointers (by simpa using hne) (i := i + k + 1) (j := i)
      rw [get_map _ hne, get_map _ hne, length_map] at hinj
      rw [hinj]
      constructor
      · intro hmod
        by_contra hcontra
        have heq := (add_emod_inj (n := cells.length) i (a := k + 1) (b := 0) (by omega)
          (by omega)).mp
          (by push_cast; rw [← add_assoc, hmod, add_zero])
        omega
      · intro heq
        rw [show i + k + 1 = i + cells.length by omega, Int.add_emod_right]
    by_cases hend : k + 1 = cells.length
    · rw [if_pos (harrived.mpr hend), show cells.length - 1 - k = 0 by omega, Nat.min_zero]
      rfl
    · rw [if_neg (fun heq => hend (harrived.mp heq))]
      have hrest := ih (k := k + 1) (by omega) (by omega)
      rw [Nat.cast_add, Nat.cast_one, ← add_assoc] at hrest
      rw [hrest, show min (remaining + 1) (cells.length - 1 - k) =
        min remaining (cells.length - 1 - (k + 1)) + 1 by omega, clockwise_succ]
      rfl

/-- `getNeighborsClockwise` ends before it comes back to the node; a node that is alone in its ring
    is its own neighbour. -/
theorem Holds.getNeighborsClockwise_eq (numberNeighbors : UInt32) :
    ring.getNeighborsClockwise (get cells i).2.nodeId numberNeighbors =
      some (clockwise cells i (min numberNeighbors.toNat (max 1 (cells.length - 1)))) := by
  have hpos : 0 < cells.length := length_pos_iff.mpr hne
  unfold getNeighborsClockwise
  rw [h.pointerTo_of_mem (get_mem hne i)]
  simp only [bind_eq_bind, bind_some]
  cases hnumber : numberNeighbors.toNat with
  | zero => simp [neighborsFrom, clockwise]
  | succ remaining =>
    rw [neighborsFrom]
    simp only [h.read_get hlinked hne, bind_eq_bind, bind_some, Bool.not_true,
      Bool.false_and, Bool.false_eq_true, if_false]
    rcases Nat.lt_or_ge 1 cells.length with hlt | hle
    · have hrest := h.neighborsFrom_eq hlinked hne i remaining (k := 1) hlt Nat.one_pos
      rw [Nat.cast_one] at hrest
      rw [hrest, show min (remaining + 1) (max 1 (cells.length - 1)) =
        min remaining (cells.length - 1 - 1) + 1 by omega, clockwise_succ]
      rfl
    · -- the node is its own neighbour, and the loop ends there
      have hone : cells.length = 1 := by omega
      have hself : ∀ j : Int, get cells j = get cells i := by
        intro j
        refine get_congr ?_
        rw [hone]
        omega
      have hstop : neighborsFrom ring.heap (get cells i).1 remaining false (get cells (i + 1)).1 =
          some [] := by
        cases remaining with
        | zero => rfl
        | succ remaining =>
          rw [neighborsFrom]
          simp [h.read_get hlinked hne, hself]
      rw [hstop, show min (remaining + 1) (max 1 (cells.length - 1)) = 0 + 1 by omega,
        clockwise_succ]
      rfl

theorem Holds.getNeighborCounterClockwise_eq :
    ring.getNeighborCounterClockwise (get cells i).2.nodeId =
      some (some (get cells (i - 1)).2) := by
  unfold getNeighborCounterClockwise neighbor
  simp [h.pointerTo_of_mem (get_mem hne i), h.read_get hlinked hne]

theorem Holds.getNeighborClockwise_eq : ring.getNeighborClockwise (get cells i).2.nodeId =
      some (some (get cells (i + 1)).2) := by
  unfold getNeighborClockwise neighbor
  simp [h.pointerTo_of_mem (get_mem hne i), h.read_get hlinked hne]

end

theorem Holds.getByNodeId_eq (h : ring.Holds cells) {c : Nat × RingEntry} (hc : c ∈ cells) :
    ring.getByNodeId c.2.nodeId = some c.2 := by
  obtain ⟨node, hnode, hentry⟩ := map_eq_some_iff.mp (h.entries c hc)
  simp [getByNodeId, h.pointerTo_of_mem hc, hnode, hentry]

end holds

/-! ### Writing links -/

section writes
variable {heap : Heap RingEntryNode} {a b : Nat} {e e' : RingEntry}

theorem entryOf_eq (heap : Heap RingEntryNode) :
    entryOf heap = fun pointer => (heap.read pointer).bind fun node => some node.entry := by
  funext pointer
  exact map_eq_bind

/-- Overwriting a node changes its links only. -/
theorem write_spec {node : RingEntryNode} (node' : RingEntryNode) (hnode : heap.read a = some node)
    (hentry : node'.entry = node.entry) :
    entryOf (heap.write a node') = entryOf heap ∧
      nextOf (heap.write a node') = update (nextOf heap) a node'.next ∧
      backOf (heap.write a node') = update (backOf heap) a node'.back := by
  have hlt := Heap.read_lt_next hnode
  refine ⟨?_, Heap.bind_read_write hlt node' _, Heap.bind_read_write hlt node' _⟩
  have hfields := Heap.bind_read_write hlt node' fun node => some node.entry
  have hsame : update (entryOf heap) a (some node'.entry) = entryOf heap := by
    rw [update_eq_self_iff, entryOf, hnode, hentry]
    rfl
  rw [← hsame, entryOf_eq, entryOf_eq]
  exact hfields

section
variable (ha : entryOf heap a = some e)
include ha

theorem setNext_spec (b : Nat) :
    ∃ heap', setNext a b heap = some heap' ∧ heap'.next = heap.next ∧
      entryOf heap' = entryOf heap ∧
      nextOf heap' = update (nextOf heap) a (some b) ∧ backOf heap' = backOf heap := by
  obtain ⟨node, hnode, -⟩ := map_eq_some_iff.mp ha
  obtain ⟨hentry, hnext, hback⟩ := write_spec { node with next := some b } hnode rfl
  refine ⟨_, by rw [setNext, hnode]; rfl, Heap.next_write _ _ _, hentry, hnext, ?_⟩
  rw [hback, update_eq_self_iff, backOf, hnode]
  rfl

theorem setBack_spec (b : Nat) :
    ∃ heap', setBack a b heap = some heap' ∧ heap'.next = heap.next ∧
      entryOf heap' = entryOf heap ∧ nextOf heap' = nextOf heap ∧
      backOf heap' = update (backOf heap) a (some b) := by
  obtain ⟨node, hnode, -⟩ := map_eq_some_iff.mp ha
  obtain ⟨hentry, hnext, hback⟩ := write_spec { node with back := some b } hnode rfl
  refine ⟨_, by rw [setBack, hnode]; rfl, Heap.next_write _ _ _, hentry, ?_, hback⟩
  rw [hnext, update_eq_self_iff, nextOf, hnode]
  rfl

theorem join_spec (hb : entryOf heap b = some e') :
    ∃ heap', join a b heap = some heap' ∧ heap'.next = heap.next ∧
      entryOf heap' = entryOf heap ∧
      nextOf heap' = update (nextOf heap) a (some b) ∧
      backOf heap' = update (backOf heap) b (some a) := by
  obtain ⟨heap1, hset1, hsize1, hentry1, hnext1, hback1⟩ := setNext_spec ha b
  rw [← hentry1] at hb
  obtain ⟨heap2, hset2, hsize2, hentry2, hnext2, hback2⟩ := setBack_spec hb a
  refine ⟨heap2, ?_, hsize2.trans hsize1, hentry2.trans hentry1, hnext2.trans hnext1, ?_⟩
  · rw [join, hset1, bind_some, hset2]
  · rw [hback2, hback1]

/-- A node is put between two others, which may be the same, in two steps. -/
theorem join_join_spec {c d : Nat} {f f' : RingEntry} (hb : entryOf heap b = some e')
    (hc : entryOf heap c = some f) (hd : entryOf heap d = some f') :
    ∃ heap', (join a b heap).bind (join c d) = some heap' ∧ heap'.next = heap.next ∧
      entryOf heap' = entryOf heap ∧
      nextOf heap' = update (update (nextOf heap) a (some b)) c (some d) ∧
      backOf heap' = update (update (backOf heap) b (some a)) d (some c) := by
  obtain ⟨heap1, hjoin1, hsize1, hentry1, hnext1, hback1⟩ := join_spec ha hb
  rw [← hentry1] at hc hd
  obtain ⟨heap2, hjoin2, hsize2, hentry2, hnext2, hback2⟩ := join_spec hc hd
  refine ⟨heap2, ?_, hsize2.trans hsize1, hentry2.trans hentry1, ?_, ?_⟩
  · rw [hjoin1, bind_some, hjoin2]
  · rw [hnext2, hnext1]
  · rw [hback2, hback1]

end

/-- A new node has null links. -/
theorem alloc_spec (heap : Heap RingEntryNode) (e : RingEntry) :
    entryOf (heap.alloc ⟨e, none, none⟩) = update (entryOf heap) heap.next (some e) ∧
      nextOf (heap.alloc ⟨e, none, none⟩) = nextOf heap ∧
      backOf (heap.alloc ⟨e, none, none⟩) = backOf heap := by
  have hfresh : heap.read heap.next = none := by
    cases hread : heap.read heap.next with
    | none => rfl
    | some node => exact absurd (Heap.read_lt_next hread) (lt_irrefl _)
  refine ⟨?_, ?_, ?_⟩
  · rw [entryOf_eq, entryOf_eq]
    exact Heap.bind_read_alloc heap ⟨e, none, none⟩ fun node => some node.entry
  · refine (Heap.bind_read_alloc heap ⟨e, none, none⟩ _).trans ?_
    show update (nextOf heap) heap.next none = nextOf heap
    rw [update_eq_self_iff, nextOf, hfresh]
    rfl
  · refine (Heap.bind_read_alloc heap ⟨e, none, none⟩ _).trans ?_
    show update (backOf heap) heap.next none = backOf heap
    rw [update_eq_self_iff, backOf, hfresh]
    rfl

end writes

/-! ### Changing the ring -/

section changes
variable {ring : RingEntries} {cells : List (Nat × RingEntry)}

theorem Holds.linked (h : ring.Holds cells) (hlength : 2 ≤ cells.length) :
    Linked (nextOf ring.heap) (backOf ring.heap) (cells.map Prod.fst) := by
  rcases h.links with hlinked | ⟨hshort, -⟩
  · exact hlinked
  · omega

/-- Where one starts to read the ring does not matter. -/
theorem Holds.of_isRotated {cells' : List (Nat × RingEntry)} (h : ring.Holds cells)
    (hrot : cells ~r cells') : ring.Holds cells' := by
  constructor
  · intro c hc
    exact h.entries c (hrot.perm.mem_iff.mpr hc)
  · exact (hrot.map Prod.fst).nodup_iff.mp h.pointers
  · exact (hrot.map _).nodup_iff.mp h.nodeIds
  · exact h.index.trans (hrot.perm.map _)
  · rcases h.links with hlinked | ⟨hshort, hnull⟩
    · rcases eq_or_ne cells [] with rfl | hne
      · rw [isRotated_nil_iff'] at hrot
        rw [← hrot]
        exact .inl hlinked
      · exact .inl (hlinked.of_isRotated (by simpa using hne) (hrot.map Prod.fst))
    · refine .inr ⟨by rwa [← hrot.perm.length_eq], ?_⟩
      intro c hc
      exact hnull c (hrot.perm.mem_iff.mpr hc)

section
variable (h : ring.Holds cells) {x : Nat} {e : RingEntry} {heap : Heap RingEntryNode}
  {head : Option Nat}
include h

/-- A new node between the last and the first one. -/
theorem Holds.insert (hne : cells ≠ []) (hx : x ∉ cells.map Prod.fst)
    (he : e.nodeId ∉ cells.map (·.2.nodeId))
    (hentries : entryOf heap = update (entryOf ring.heap) x (some e))
    (hnext : nextOf heap = update (update (nextOf ring.heap)
      (get cells (-1)).1 (some x)) x (some (get cells 0).1))
    (hback : backOf heap = update (update (backOf ring.heap)
      (get cells 0).1 (some x)) x (some (get cells (-1)).1)) :
    Holds ⟨heap, head, (e.nodeId, x) :: ring.indexByNodeId⟩ (cells ++ [(x, e)]) := by
  have hxne : ∀ c ∈ cells, c.1 ≠ x := by
    rintro c hc rfl
    exact hx (mem_map_of_mem hc)
  have hmap : ∀ i, get (cells.map Prod.fst) i = (get cells i).1 := get_map Prod.fst hne
  constructor
  · intro c hc
    show entryOf heap c.1 = some c.2
    rw [hentries]
    rcases mem_append.mp hc with hold | hnew
    · rw [update_of_ne (hxne c hold)]
      exact h.entries c hold
    · obtain rfl := mem_singleton.mp hnew
      rw [update_self]
  · rw [map_append, nodup_append_comm]
    exact nodup_cons.mpr ⟨hx, h.pointers⟩
  · rw [map_append, nodup_append_comm]
    exact nodup_cons.mpr ⟨he, h.nodeIds⟩
  · rw [map_append]
    exact (h.index.cons (e.nodeId, x)).trans (perm_append_singleton _ _).symm
  · refine .inl ?_
    rw [map_append]
    show Linked (nextOf heap) (backOf heap) _
    rw [hnext, hback]
    -- only the two nodes next to the new one get other pointers
    refine Linked.append (fun hlength => h.linked (by simpa using hlength)) (by simpa using hne)
      h.pointers ?_ ?_ ?_ ?_ ?_ ?_
    · rw [hmap, update_of_ne (hxne _ (get_mem hne _)), update_self]
    · rw [hmap, update_self]
    · rw [hmap, update_of_ne (hxne _ (get_mem hne _)), update_self]
    · rw [hmap, update_self]
    · intro a ha hlast
      have hax : a ≠ x := fun heq => hx (by rwa [← heq])
      rw [hmap] at hlast
      rw [update_of_ne hax, update_of_ne hlast]
    · intro a ha hfirst
      have hax : a ≠ x := fun heq => hx (by rwa [← heq])
      rw [hmap] at hfirst
      rw [update_of_ne hax, update_of_ne hfirst]

/-- A new node after the cell at `m`. -/
theorem Holds.insert_after {m : Nat} (hm : m < cells.length) (hx : x ∉ cells.map Prod.fst)
    (he : e.nodeId ∉ cells.map (·.2.nodeId))
    (hentries : entryOf heap = update (entryOf ring.heap) x (some e))
    (hnext : nextOf heap = update (update (nextOf ring.heap)
      (get cells m).1 (some x)) x (some (get cells ((m : Int) + 1)).1))
    (hback : backOf heap = update (update (backOf ring.heap)
      (get cells ((m : Int) + 1)).1 (some x)) x (some (get cells m).1)) :
    Holds ⟨heap, head, (e.nodeId, x) :: ring.indexByNodeId⟩
      (cells.take (m + 1) ++ (x, e) :: cells.drop (m + 1)) := by
  have hne : cells ≠ [] := by
    rintro rfl
    simp at hm
  have hrot : cells ~r cells.rotate (m + 1) := ⟨m + 1, rfl⟩
  have hne' : cells.rotate (m + 1) ≠ [] := fun hnil => hne (rotate_eq_nil_iff.mp hnil)
  have hlast : get (cells.rotate (m + 1)) (-1) = get cells m := by
    rw [get_rotate hne, Nat.cast_add, Nat.cast_one, show -1 + ((m : Int) + 1) = m by omega]
  have hfirst : get (cells.rotate (m + 1)) 0 = get cells ((m : Int) + 1) := by
    rw [get_rotate hne, Nat.cast_add, Nat.cast_one, zero_add]
  have hinserted : Holds ⟨heap, head, (e.nodeId, x) :: ring.indexByNodeId⟩
      (cells.rotate (m + 1) ++ [(x, e)]) := by
    refine (h.of_isRotated hrot).insert hne' ?_ ?_ hentries ?_ ?_
    · rwa [(hrot.map Prod.fst).perm.mem_iff] at hx
    · rwa [(hrot.map _).perm.mem_iff] at he
    · rw [hlast, hfirst, hnext]
    · rw [hlast, hfirst, hback]
  refine hinserted.of_isRotated ?_
  rw [rotate_eq_drop_append_take (by omega), append_assoc,
    append_cons (cells.take (m + 1)) (x, e) (cells.drop (m + 1))]
  exact isRotated_append

end

/-- A node leaves a ring of at least two. -/
theorem Holds.delete {c : Nat × RingEntry} (h : ring.Holds (cells ++ [c])) (hne : cells ≠ []) :
    ∃ ring', ring.deleteByNodeId c.2.nodeId = some ring' ∧ ring'.Holds cells ∧
      Linked (nextOf ring'.heap) (backOf ring'.heap) (cells.map Prod.fst) ∧
      ring'.head = ring.head ∧ ring'.heap.next = ring.heap.next := by
  have hpos : 0 < cells.length := length_pos_iff.mpr hne
  have hall : cells ++ [c] ≠ [] := by simp
  have hlinked := h.linked (by rw [length_append, length_singleton]; omega)
  have hlength : ((cells ++ [c]).length : Int) = cells.length + 1 := by simp
  -- the neighbours of the node are the last and the first of the others
  have hbackward : get (cells ++ [c]) ((cells.length : Int) - 1) = get cells (-1) := by
    rw [get_neg_one hne,
      ← get_append_of_lt (x := c) (show cells.length - 1 < cells.length by omega),
      show ((cells.length - 1 : Nat) : Int) = (cells.length : Int) - 1 by omega]
  have hforward : get (cells ++ [c]) ((cells.length : Int) + 1) = get cells 0 := by
    rw [← hlength, show ((cells ++ [c]).length : Int) = 0 + (cells ++ [c]).length by omega,
      get_add_length]
    exact get_append_of_lt (k := 0) hpos
  have hread := h.read_get hlinked hall (cells.length : Int)
  rw [get_append_length, hbackward, hforward] at hread
  have hentry : ∀ i, entryOf ring.heap (get cells i).1 = some (get cells i).2 :=
    fun i => h.entries _ (mem_append_left _ (get_mem hne i))
  obtain ⟨heap, hjoin, hsize, hentries, hnext, hback⟩ := join_spec (hentry (-1)) (hentry 0)
  have hpointers : (cells.map Prod.fst ++ [c.1]).Nodup := by
    have := h.pointers
    rwa [map_append] at this
  have hnodeIds : (cells.map (·.2.nodeId) ++ [c.2.nodeId]).Nodup := by
    have := h.nodeIds
    rwa [map_append] at this
  have hmap : ∀ i, get (cells.map Prod.fst) i = (get cells i).1 := get_map Prod.fst hne
  have hclosed : Linked (nextOf heap) (backOf heap) (cells.map Prod.fst) := by
    rw [map_append] at hlinked
    rw [hnext, hback]
    refine hlinked.dropLast (by simpa using hne) hpointers ?_ ?_ ?_ ?_
    · rw [hmap, hmap, update_self]
    · rw [hmap, hmap, update_self]
    · intro a _ hlast
      rw [hmap] at hlast
      rw [update_of_ne hlast]
    · intro a _ hfirst
      rw [hmap] at hfirst
      rw [update_of_ne hfirst]
  refine ⟨⟨heap, ring.head, ring.indexByNodeId.filter (·.1 ≠ c.2.nodeId)⟩, ?_, ?_, hclosed, rfl,
    hsize⟩
  · unfold deleteByNodeId
    rw [h.pointerTo_of_mem (mem_append_right _ mem_cons_self)]
    simp [hread, hjoin]
  · refine ⟨?_, (nodup_append.mp hpointers).1, (nodup_append.mp hnodeIds).1, ?_,
      .inl hclosed⟩
    · intro c' hc'
      show entryOf heap c'.1 = some c'.2
      rw [hentries]
      exact h.entries c' (mem_append_left _ hc')
    · refine (h.index.filter _).trans ?_
      rw [map_append, filter_append]
      have hkeep : (cells.map fun c' => (c'.2.nodeId, c'.1)).filter (·.1 ≠ c.2.nodeId) =
          cells.map fun c' => (c'.2.nodeId, c'.1) := by
        rw [filter_eq_self]
        intro pair hpair
        obtain ⟨c', hc', rfl⟩ := mem_map.mp hpair
        have := (nodup_append.mp hnodeIds).2.2 _ (mem_map_of_mem hc') _
          mem_cons_self
        simpa using this
      rw [hkeep]
      simp

end changes

end RingEntries

end MemDb
