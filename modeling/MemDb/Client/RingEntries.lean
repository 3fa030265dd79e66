import MemDb.Cluster.Placement

/-! # Where the Java client looks for a key

    `RingEntries` of the Java client against the ring of the server. The client takes the remainder
    of a signed hash, counts the end of an interval to the node before it and goes on for
    `maxPartitionSize` nodes, where the replicas of a key are `nodesPerPartition` nodes. The numbers
    of the configuration are Java `int`s, so they are signed here; an exception is `none`.
-/

namespace MemDb.Client

open Lib.Cycle MemDb.RingEntries Nat UInt32
open List hiding get

/-- The nodes of the linked list from its head on. The last one is followed by the head; one that is
    alone is followed by `null`. -/
structure RingEntries where
  nodes : List RingEntry
  nodesPerPartition : Int
  maxPartitionSize : Int
deriving DecidableEq, Repr

namespace RingEntries

/-! ### The ring of the client -/

/-- `ringPosition` as an `int`. -/
def position (entry : RingEntry) : Int := entry.ringPosition.toInt32.toInt

def fromClusterConfig (nodesPerPartition maxPartitionSize : UInt32) (ringEntries : List RingEntry) :
    RingEntries where
  nodes := ringEntries.insertionSort fun a b => position a ≤ position b
  nodesPerPartition := nodesPerPartition.toInt32.toInt
  maxPartitionSize := maxPartitionSize.toInt32.toInt

/-- The loop of `getPartitionHeadByKey`, with the nodes between `actual` and the head. Returns how
    many steps it takes. -/
def partitionHeadFrom (ringPosition : Int) :
    (actual : RingEntry) → (following : List RingEntry) → Nat
  | _, [] => 0
  | actual, next :: following =>
    if position actual ≤ ringPosition ∧ ringPosition ≤ position next then 0
    else partitionHeadFrom ringPosition next following + 1

def getPartitionHeadByKey (ring : RingEntries) (ringPosition : Int) : Option Nat :=
  match ring.nodes with
  | actual :: next :: following => some (partitionHeadFrom ringPosition actual (next :: following))
  -- no head, or none after it
  | _ => none

/-- The loop of `getNodesIdByKey`. -/
def nodesIdFrom (nodes : List RingEntry) : (remaining partitionHead : Nat) → Option (List UInt16)
  | 0, _ => some []
  | remaining + 1, partitionHead => do
    let node ← nodes[partitionHead]?
    let next := if partitionHead + 1 < nodes.length then partitionHead + 1 else 0
    let nodesId ← nodesIdFrom nodes remaining next
    return node.nodeId :: nodesId

/-- The remainder of a `long` has its sign; a list with a negative capacity is refused. -/
def getNodesIdByKey (md5 : SimpleString → UInt64) (ring : RingEntries) (key : SimpleString) :
    Option (List UInt16) :=
  if ring.maxPartitionSize = 0 then none
  else
    (ring.getPartitionHeadByKey ((md5 key).toInt64.toInt.tmod ring.maxPartitionSize)).bind
      fun partitionHead =>
        if ring.nodesPerPartition < 0 then none
        else nodesIdFrom ring.nodes ring.maxPartitionSize.toNat partitionHead

end RingEntries

/-! ### The ring of the server -/

/-- The owner of the key at the server and the nodes that follow it. -/
def replicasByKey (calculateMD5 : SimpleString → UInt64) (entries : List RingEntry)
    (nodesPerPartition maxSize : UInt32) (key : SimpleString) : Option (List UInt16) := do
  let ring ← MemDb.RingEntries.fromEntries entries
  let ringPosition ← Partitions.hashToPosition calculateMD5 maxSize key
  let owner ← ring.getRingEntryBelongsToPosition ringPosition
  let successors ← ring.getNeighborsClockwise owner.nodeId (nodesPerPartition - 1)
  return owner.nodeId :: successors.map (·.nodeId)

namespace RingEntries

/-! ### Going around -/

/-- The ids of `count` nodes from the one with index `head` on. -/
def around (nodes : List RingEntry) (head count : Nat) : List UInt16 :=
  (List.range count).map fun i : Nat => (get nodes ((head : Int) + i)).nodeId

section around
variable {nodes : List RingEntry}

theorem around_succ (head count : Nat) :
    around nodes head (count + 1) = (get nodes (head : Int)).nodeId ::
        (List.range count).map fun i : Nat =>
          (get nodes ((head : Int) + (i + 1 : Nat))).nodeId := by
  rw [around, range_succ_eq_map, map_cons, map_map, cast_zero, add_zero]
  rfl

theorem length_around (nodes : List RingEntry) (head count : Nat) :
    (around nodes head count).length = count := by
  rw [around, length_map, length_range]

theorem around_length (hne : nodes ≠ []) (head : Nat) :
    around nodes head nodes.length = (nodes.rotate head).map (·.nodeId) := by
  rw [rotate_eq_map hne, map_map]
  rfl

theorem nodup_around_iff (hne : nodes ≠ []) (head : Nat) :
    (around nodes head nodes.length).Nodup ↔ (nodes.map (·.nodeId)).Nodup := by
  rw [around_length hne]
  exact ((rotate_perm nodes head).map _).nodup_iff

/-- Behind all nodes the first one comes again. -/
theorem count_of_nodup_around (hne : nodes ≠ []) {head count : Nat} (hcount : nodes.length ≤ count)
    (hnodup : (around nodes head count).Nodup) : count = nodes.length := by
  have hpos : 0 < nodes.length := length_pos_iff.mpr hne
  by_contra hother
  have hagain : (get nodes ((head : Int) + (nodes.length : Nat))).nodeId =
      (get nodes ((head : Int) + (0 : Nat))).nodeId := by
    rw [get_add_length, cast_zero, add_zero]
  have hsame := inj_on_of_nodup_map hnodup (mem_range.mpr (by omega))
    (mem_range.mpr (by omega)) hagain
  omega

theorem around_inj (hnodeIds : (nodes.map (·.nodeId)).Nodup) {head head' count count' : Nat}
    (hhead : head < nodes.length) (hhead' : head' < nodes.length)
    (h : around nodes head (count + 1) = around nodes head' (count' + 1)) :
    head = head' ∧ count = count' := by
  have hne : nodes ≠ [] := by
    rintro rfl
    exact absurd hhead (not_lt_zero head)
  constructor
  · rw [around_succ, around_succ] at h
    have hfirst := (cons.inj h).1
    rw [← get_map (·.nodeId) hne, ← get_map (·.nodeId) hne] at hfirst
    exact (get_natCast_inj hnodeIds (by rwa [length_map]) (by rwa [length_map])).mp hfirst
  · have hlengths := congrArg length h
    rw [length_around, length_around] at hlengths
    omega

end around

/-! ### The loops -/

/-- The ids that the client collects. -/
theorem nodesIdFrom_eq {nodes : List RingEntry} (remaining : Nat) {partitionHead : Nat}
    (hhead : partitionHead < nodes.length) :
    nodesIdFrom nodes remaining partitionHead = some (around nodes partitionHead remaining) := by
  induction remaining generalizing partitionHead with
  | zero => rfl
  | succ remaining ih =>
    have hfirst : get nodes (partitionHead : Int) = nodes[partitionHead] := get_natCast hhead
    have hnext : ∃ next < nodes.length,
        (if partitionHead + 1 < nodes.length then partitionHead + 1 else 0) = next ∧
          ∀ i : Nat, get nodes ((next : Int) + i) =
            get nodes ((partitionHead : Int) + (i + 1 : Nat)) := by
      split
      · next hlt =>
        refine ⟨partitionHead + 1, hlt, rfl, ?_⟩
        intro i
        congr 1
        omega
      · -- behind the last node the list goes on at its head
        refine ⟨0, by omega, rfl, ?_⟩
        intro i
        apply get_congr
        rw [show (partitionHead : Int) + (i + 1 : Nat) =
          ((0 : Nat) : Int) + i + nodes.length by omega, Int.add_emod_right]
    obtain ⟨next, hlt, hnext, hget⟩ := hnext
    rw [nodesIdFrom, getElem?_eq_getElem hhead, hnext]
    simp only [Option.bind_eq_bind, Option.bind_some, ih hlt, around_succ, hfirst, ← hget]
    rfl

theorem partitionHeadFrom_le (ringPosition : Int) (following : List RingEntry)
    (actual : RingEntry) : partitionHeadFrom ringPosition actual following ≤ following.length := by
  induction following generalizing actual with
  | nil => exact le_refl 0
  | cons next following ih =>
    rw [partitionHeadFrom]
    split
    · exact zero_le _
    · exact succ_le_succ (ih next)

/-- Where all positions are taken, the client ends at the node before the one at the position, at
    the first one for the first position and at the last one for a negative position. -/
theorem partitionHeadFrom_eq (ringPosition : Int) (following : List RingEntry) {actual : RingEntry}
    (hchain : List.IsChain (fun a b => position b = position a + 1) (actual :: following)) :
    partitionHeadFrom ringPosition actual following =
      if ringPosition < position actual then following.length
      else min (ringPosition - position actual - 1).toNat following.length := by
  induction following generalizing actual with
  | nil => simp [partitionHeadFrom]
  | cons next following ih =>
    rw [isChain_cons_cons] at hchain
    rw [partitionHeadFrom, ih hchain.2, hchain.1, length_cons]
    split_ifs <;> omega

/-! ### Configurations -/

section config
variable {entries : List RingEntry} {maxPartitionSize nodesPerPartition : UInt32}
  {key : SimpleString}

theorem nodup_positions (hpositions : (entries.map (·.ringPosition)).Nodup) :
    (entries.map (·.ringPosition.toNat)).Nodup := by
  have hnodup := hpositions.map (f := UInt32.toNat) fun a b => UInt32.toNat_inj.mp
  rwa [map_map] at hnodup

theorem positions_subset (hbelow : ∀ entry ∈ entries, entry.ringPosition < maxPartitionSize) :
    entries.map (·.ringPosition.toNat) ⊆ List.range maxPartitionSize.toNat := by
  intro x hx
  obtain ⟨entry, hentry, rfl⟩ := mem_map.mp hx
  exact mem_range.mpr (lt_iff_toNat_lt.mp (hbelow entry hentry))

theorem toInt32_toInt_of_lt {x : UInt32} (h : x.toNat < 2 ^ 31) : x.toInt32.toInt = x.toNat := by
  rw [Int32.toInt, toBitVec_toInt32, BitVec.toInt_eq_toNat_of_lt]
  · rfl
  · show 2 * x.toNat < 2 ^ 32
    omega

/-- A positive remainder of the signed hash is the one of the unsigned hash. -/
theorem tmod_of_pos {hash : UInt64} {n : Nat} (h : 0 < hash.toInt64.toInt.tmod n) :
    hash.toInt64.toInt.tmod n = (hash.toNat % n : Nat) := by
  have hsigned : hash.toInt64.toInt =
      if 2 * hash.toNat < 2 ^ 64 then (hash.toNat : Int) else hash.toNat - 2 ^ 64 :=
    BitVec.toInt_eq_toNat_cond hash.toBitVec
  rw [hsigned] at h ⊢
  split at h
  · next hlt =>
    rw [if_pos hlt]
    exact (Int.ofNat_tmod _ _).symm
  · -- the remainder of a negative number is not positive
    have hneg : ((hash.toNat : Int) - 2 ^ 64).tmod n ≤ 0 := by
      have hbound := hash.toNat_lt
      rw [← neg_neg ((hash.toNat : Int) - 2 ^ 64), Int.neg_tmod]
      have := Int.tmod_nonneg (n : Int) (a := -((hash.toNat : Int) - 2 ^ 64)) (by omega)
      omega
    omega

section positions
variable (hpositions : (entries.map (·.ringPosition)).Nodup)
  (hbelow : ∀ entry ∈ entries, entry.ringPosition < maxPartitionSize)
include hpositions hbelow

/-- There are no more entries than positions. -/
theorem length_le_of_positions :
    entries.length ≤ maxPartitionSize.toNat := by
  have hle := ((nodup_positions hpositions).subperm (positions_subset hbelow)).length_le
  rwa [length_range, length_map] at hle

/-- Client and server have the same order of nodes. -/
theorem nodes_fromClusterConfig (nodesPerPartition : UInt32)
    (hmax : maxPartitionSize.toNat < 2 ^ 31) :
    (fromClusterConfig nodesPerPartition maxPartitionSize entries).nodes =
      clockwiseOrder entries := by
  have hperm : (fromClusterConfig nodesPerPartition maxPartitionSize entries).nodes.Perm entries :=
    perm_insertionSort _ entries
  have hposition : ∀ entry ∈ entries, position entry = entry.ringPosition.toNat := by
    intro entry hentry
    have hlt := lt_iff_toNat_lt.mp (hbelow entry hentry)
    exact toInt32_toInt_of_lt (by omega)
  have hsorted : (fromClusterConfig nodesPerPartition maxPartitionSize entries).nodes.Pairwise
      fun a b => a.ringPosition ≤ b.ringPosition := by
    have htotal : Std.Total fun a b : RingEntry => position a ≤ position b :=
      ⟨fun a b => Int.le_total _ _⟩
    have htrans : IsTrans RingEntry fun a b => position a ≤ position b :=
      ⟨fun a b c => Int.le_trans⟩
    apply Pairwise.imp_of_mem _ (pairwise_insertionSort _ entries)
    intro a b ha hb hab
    rw [hposition a (hperm.mem_iff.mp ha), hposition b (hperm.mem_iff.mp hb)] at hab
    exact le_iff_toNat_le.mpr (by omega)
  -- two sorted lists of the same entries, no two of which are at one position
  apply Perm.eq_of_pairwise _ hsorted (clockwiseOrder_pairwise entries)
    (hperm.trans (clockwiseOrder_perm entries).symm)
  intro a b ha hb hab hba
  exact inj_on_of_nodup_map hpositions (hperm.mem_iff.mp ha)
    ((clockwiseOrder_perm entries).mem_iff.mp hb) (UInt32.le_antisymm hab hba)

/-- With as many entries as positions, each position has its entry. -/
theorem ringPosition_get
    (hfull : entries.length = maxPartitionSize.toNat) {m : Nat} (hm : m < entries.length) :
    (get (clockwiseOrder entries) m).ringPosition.toNat = m := by
  have hsubperm := (nodup_positions hpositions).subperm (positions_subset hbelow)
  have hperm := hsubperm.perm_of_length_le
    (by rw [length_range, length_map]; exact hfull.ge)
  have hsorted : ((clockwiseOrder entries).map (·.ringPosition.toNat)).Pairwise (· < ·) := by
    rw [pairwise_map]
    exact (clockwiseOrder_sorted hpositions).imp lt_iff_toNat_lt.mp
  have hrange : (clockwiseOrder entries).map (·.ringPosition.toNat) =
      range maxPartitionSize.toNat := by
    apply Perm.eq_of_pairwise _ hsorted pairwise_lt_range
      (((clockwiseOrder_perm entries).map _).trans hperm)
    intro a b _ _ hab hba
    exact absurd hab (lt_asymm hba)
  have hlength : m < (clockwiseOrder entries).length := by rwa [length_clockwiseOrder]
  rw [get_natCast hlength]
  have helement := getElem_of_eq hrange (i := m) (by rwa [length_map])
  rwa [getElem_map, getElem_range] at helement

/-- What the client returns for a key, in terms of the node that it starts at. -/
theorem getNodesIdByKey_eq (md5 : SimpleString → UInt64) (key : SimpleString)
    (hlength : 2 ≤ entries.length)
    (hmax : maxPartitionSize.toNat < 2 ^ 31) (hnodes : nodesPerPartition.toNat < 2 ^ 31) :
    ∃ head < entries.length,
      (∀ actual following, clockwiseOrder entries = actual :: following → head = partitionHeadFrom
        ((md5 key).toInt64.toInt.tmod maxPartitionSize.toNat) actual following) ∧
      (fromClusterConfig nodesPerPartition maxPartitionSize entries).getNodesIdByKey md5 key =
        some (around (clockwiseOrder entries) head maxPartitionSize.toNat) := by
  have hsize := length_le_of_positions hpositions hbelow
  have hlist := nodes_fromClusterConfig hpositions hbelow nodesPerPartition hmax
  have hmaxInt : (fromClusterConfig nodesPerPartition maxPartitionSize entries).maxPartitionSize =
      maxPartitionSize.toNat := toInt32_toInt_of_lt hmax
  have hnodesInt :
      (fromClusterConfig nodesPerPartition maxPartitionSize entries).nodesPerPartition =
      nodesPerPartition.toNat := toInt32_toInt_of_lt hnodes
  have hn := length_clockwiseOrder entries
  -- two entries at least, so there is a pair to look between
  rcases horder : clockwiseOrder entries with _ | ⟨actual, _ | ⟨next, following⟩⟩
  · rw [horder, length_nil] at hn
    omega
  · rw [horder, length_singleton] at hn
    omega
  rw [horder] at hlist hn
  have hle := partitionHeadFrom_le ((md5 key).toInt64.toInt.tmod maxPartitionSize.toNat)
    (next :: following) actual
  rw [length_cons] at hn
  refine ⟨partitionHeadFrom ((md5 key).toInt64.toInt.tmod maxPartitionSize.toNat) actual
    (next :: following), by omega, ?_, ?_⟩
  · rintro _ _ ⟨rfl, rfl⟩
    rfl
  · rw [getNodesIdByKey, hmaxInt, hnodesInt, if_neg (by omega), getPartitionHeadByKey, hlist]
    rw [Option.bind_some, if_neg (by omega), Int.toNat_natCast]
    exact nodesIdFrom_eq _ (by rw [length_cons]; omega)

/-- With all positions taken, a position belongs to the entry at it. -/
theorem isOwner_of_full
    (hfull : entries.length = maxPartitionSize.toNat) {ringPosition : UInt32}
    (hlt : ringPosition < maxPartitionSize) :
    IsOwner entries ringPosition (get (clockwiseOrder entries) ringPosition.toNat) := by
  rw [lt_iff_toNat_lt, ← hfull] at hlt
  have hget : (get (clockwiseOrder entries) ringPosition.toNat).ringPosition = ringPosition :=
    UInt32.toNat_inj.mp (ringPosition_get hpositions hbelow hfull hlt)
  have hne : clockwiseOrder entries ≠ [] := by
    rw [← length_pos_iff, length_clockwiseOrder]
    omega
  refine ⟨(clockwiseOrder_perm entries).mem_iff.mp (get_mem hne _), .inl ⟨?_, ?_⟩⟩
  · rw [hget]
    exact UInt32.le_refl _
  · intro other _ hle
    rwa [hget]

/-- The node at which the client starts, where all positions are taken. -/
theorem partitionHead_eq_iff (md5 : SimpleString → UInt64) (key : SimpleString)
    (hlength : 2 ≤ entries.length)
    (hmax : maxPartitionSize.toNat < 2 ^ 31) (hfull : entries.length = maxPartitionSize.toNat)
    {actual : RingEntry} {following : List RingEntry}
    (horder : clockwiseOrder entries = actual :: following) :
    partitionHeadFrom ((md5 key).toInt64.toInt.tmod entries.length) actual following =
        (md5 key).toNat % entries.length ↔
      ((md5 key).toInt64.toInt.tmod entries.length = 0 ∧ (md5 key).toNat % entries.length = 0 ∨
        (md5 key).toInt64.toInt.tmod entries.length < 0 ∧
          (md5 key).toNat % entries.length = entries.length - 1) := by
  have hn := length_clockwiseOrder entries
  have hposition : ∀ i (hi : i < (clockwiseOrder entries).length),
      position ((clockwiseOrder entries)[i]) = i := by
    intro i hi
    have hget := ringPosition_get hpositions hbelow hfull (m := i) (by omega)
    rw [get_natCast hi] at hget
    rw [position, toInt32_toInt_of_lt (by omega), hget]
  have hchain : IsChain (fun a b => position b = position a + 1) (clockwiseOrder entries) := by
    rw [isChain_iff_getElem]
    intro i hi
    rw [hposition, hposition]
    omega
  have hfirst : position actual = 0 := by
    have hzero := hposition 0 (by omega)
    simpa [horder] using hzero
  rw [horder] at hchain hn
  rw [length_cons] at hn
  rw [partitionHeadFrom_eq _ _ hchain, hfirst]
  have hlt : (md5 key).toNat % entries.length < entries.length := mod_lt _ (by omega)
  rcases Int.lt_trichotomy ((md5 key).toInt64.toInt.tmod entries.length) 0 with hneg | hzero | hpos
  · rw [if_pos hneg]
    omega
  · rw [if_neg (by omega), hzero]
    omega
  · -- one node before the one at the position
    have hsame := tmod_of_pos hpos
    rw [if_neg (by omega)]
    omega

end positions

/-! ### Client and server -/

/-- The owner of a key and its successors at the server. -/
theorem replicasByKey_eq (md5 : SimpleString → UInt64) (nodesPerPartition : UInt32)
    (hnodeIds : (entries.map (·.nodeId)).Nodup) (hpositions : (entries.map (·.ringPosition)).Nodup)
    (hlength : 2 ≤ entries.length) {ringPosition : UInt32}
    (hposition : Partitions.hashToPosition md5 maxPartitionSize key = some ringPosition) {m : Nat}
    (howner : IsOwner entries ringPosition (get (clockwiseOrder entries) m)) :
    replicasByKey md5 entries nodesPerPartition maxPartitionSize key =
      some (around (clockwiseOrder entries) m
        (min (nodesPerPartition - 1).toNat (entries.length - 1) + 1)) := by
  obtain ⟨ring, cells, hring, hordered, hcells, hn, hget, -, hlookup⟩ :=
    exists_ring hnodeIds hpositions (by omega)
  have hlinked := hordered.holds.linked (by omega)
  have hneighbors :=
    hordered.holds.getNeighborsClockwise_eq hlinked hcells m (nodesPerPartition - 1)
  rw [hget, hn, show max 1 (entries.length - 1) = entries.length - 1 by omega]
    at hneighbors
  rw [replicasByKey, hring, hposition]
  simp only [Option.bind_eq_bind, Option.bind_some, hlookup _ _ howner, hneighbors]
  rw [around_succ]
  refine congrArg (fun successors => some (_ :: successors)) ?_
  rw [clockwise, map_map]
  apply map_congr_left
  intro i _
  simp only [Function.comp_apply, hget]
  rw [show (m : Int) + 1 + i = m + (i + 1 : Nat) by omega]

theorem hashToPosition_eq (md5 : SimpleString → UInt64) (key : SimpleString)
    (hpos : 0 < maxPartitionSize.toNat) :
    ∃ ringPosition, Partitions.hashToPosition md5 maxPartitionSize key = some ringPosition ∧
      ringPosition.toNat = (md5 key).toNat % maxPartitionSize.toNat := by
  have hne : maxPartitionSize ≠ 0 := by
    rintro rfl
    exact absurd hpos (lt_irrefl 0)
  refine ⟨_, by rw [Partitions.hashToPosition, if_neg hne], ?_⟩
  have hlt : (md5 key).toNat % maxPartitionSize.toNat < 2 ^ 32 :=
    lt_trans (mod_lt _ hpos) maxPartitionSize.toNat_lt
  rw [UInt64.toNat_toUInt32, UInt64.toNat_mod, toNat_toUInt64]
  exact mod_eq_of_lt hlt

theorem toInt32_toInt_neg {x : UInt32} (h : 2 ^ 31 ≤ x.toNat) : x.toInt32.toInt < 0 := by
  have hsigned :
      x.toInt32.toInt = if 2 * x.toNat < 2 ^ 32 then (x.toNat : Int) else x.toNat - 2 ^ 32 :=
    BitVec.toInt_eq_toNat_cond x.toBitVec
  have hbound := x.toNat_lt
  rw [hsigned, if_neg (by omega)]
  omega

section
variable {md5 : SimpleString → UInt64} {nodesId : List UInt16}

/-- A client that returns some node has read its numbers as they are at the server. -/
theorem lt_of_getNodesIdByKey
    (h : (fromClusterConfig nodesPerPartition maxPartitionSize entries).getNodesIdByKey md5 key =
      some nodesId) (hne : nodesId ≠ []) :
    maxPartitionSize.toNat < 2 ^ 31 ∧ nodesPerPartition.toNat < 2 ^ 31 := by
  unfold getNodesIdByKey at h
  obtain ⟨-, h⟩ := Option.ite_none_left_eq_some.mp h
  obtain ⟨partitionHead, -, h⟩ := Option.bind_eq_some_iff.mp h
  obtain ⟨hnodes, h⟩ := Option.ite_none_left_eq_some.mp h
  constructor
  · by_contra hge
    have hneg : maxPartitionSize.toInt32.toInt < 0 := toInt32_toInt_neg (by omega)
    have hzero : (fromClusterConfig nodesPerPartition maxPartitionSize
        entries).maxPartitionSize.toNat = 0 := by
      show maxPartitionSize.toInt32.toInt.toNat = 0
      omega
    rw [hzero, nodesIdFrom] at h
    exact hne (Option.some.inj h).symm
  · by_contra hge
    exact hnodes (toInt32_toInt_neg (by omega))

theorem replicasByKey_ne_nil
    (h : replicasByKey md5 entries nodesPerPartition maxPartitionSize key = some nodesId) :
    nodesId ≠ [] := by
  simp only [replicasByKey, Option.bind_eq_bind, Option.bind_eq_some_iff] at h
  obtain ⟨_, -, _, -, _, -, _, -, h⟩ := h
  rw [← Option.some.inj h]
  exact cons_ne_nil _ _

end

/-- The client finds the nodes of a key, each once, exactly when every position of the ring is taken
    by a node of its own, all of them hold the key and the remainder of the hash leads to the first
    node, or the negative one to the last node, at the server as well. -/
theorem getNodesIdByKey_iff (md5 : SimpleString → UInt64) (key : SimpleString)
    (nodesPerPartition : UInt32) (hlength : 2 ≤ entries.length)
    (hpositions : (entries.map (·.ringPosition)).Nodup)
    (hbelow : ∀ entry ∈ entries, entry.ringPosition < maxPartitionSize) :
    (∃ nodesId,
      (fromClusterConfig nodesPerPartition maxPartitionSize entries).getNodesIdByKey md5 key =
        some nodesId ∧
      replicasByKey md5 entries nodesPerPartition maxPartitionSize key = some nodesId ∧
      nodesId.Nodup) ↔
    ((entries.map (·.nodeId)).Nodup ∧ entries.length = maxPartitionSize.toNat ∧
      entries.length ≤ (nodesPerPartition - 1).toNat + 1 ∧ nodesPerPartition.toNat < 2 ^ 31 ∧
      ((md5 key).toInt64.toInt.tmod entries.length = 0 ∧ (md5 key).toNat % entries.length = 0 ∨
        (md5 key).toInt64.toInt.tmod entries.length < 0 ∧
          (md5 key).toNat % entries.length = entries.length - 1)) := by
  have hne := clockwiseOrder_ne_nil hlength
  have hn := length_clockwiseOrder entries
  have hsize := length_le_of_positions hpositions hbelow
  have hids : ((clockwiseOrder entries).map (·.nodeId)).Nodup ↔ (entries.map (·.nodeId)).Nodup :=
    ((clockwiseOrder_perm entries).map _).nodup_iff
  obtain ⟨actual, following, horder⟩ := exists_cons_of_ne_nil hne
  -- the owner at the server, once all positions are taken
  have howner : entries.length = maxPartitionSize.toNat → ∃ ringPosition,
      Partitions.hashToPosition md5 maxPartitionSize key = some ringPosition ∧
        IsOwner entries ringPosition
          (get (clockwiseOrder entries) ((md5 key).toNat % entries.length : Nat)) := by
    intro hfull
    have hpos : 0 < maxPartitionSize.toNat := by omega
    obtain ⟨ringPosition, hposition, hvalue⟩ := hashToPosition_eq md5 key hpos
    have hlt : ringPosition < maxPartitionSize := by
      rw [lt_iff_toNat_lt, hvalue]
      exact mod_lt _ (by omega)
    refine ⟨ringPosition, hposition, ?_⟩
    rw [hfull, ← hvalue]
    exact isOwner_of_full hpositions hbelow hfull hlt
  constructor
  · rintro ⟨nodesId, hclient, hserver, hnodup⟩
    obtain ⟨hmax, hnodes⟩ := lt_of_getNodesIdByKey hclient (replicasByKey_ne_nil hserver)
    obtain ⟨head, hhead, hstart, hresult⟩ := getNodesIdByKey_eq hpositions hbelow md5 key hlength
      hmax hnodes
    cases hresult.symm.trans hclient
    have hfull := count_of_nodup_around hne (by omega) hnodup
    rw [hfull, nodup_around_iff hne, hids] at hnodup
    obtain ⟨ringPosition, hposition, howner⟩ := howner (by omega)
    rw [replicasByKey_eq md5 nodesPerPartition hnodup hpositions hlength hposition howner,
      show maxPartitionSize.toNat = (maxPartitionSize.toNat - 1) + 1 by omega] at hserver
    obtain ⟨hsame, hcount⟩ := around_inj (hids.mpr hnodup) (by rw [hn]; exact mod_lt _ (by omega))
      (by omega) (Option.some.inj hserver)
    refine ⟨hnodup, by omega, by omega, hnodes, ?_⟩
    rw [← partitionHead_eq_iff hpositions hbelow md5 key hlength hmax (by omega) horder, hsame,
      hstart actual following horder, hn.symm.trans hfull.symm]
  · rintro ⟨hnodeIds, hfull, hcount, hnodes, hhash⟩
    have hbound := length_le_of_nodeIds hnodeIds
    obtain ⟨head, hhead, hstart, hresult⟩ := getNodesIdByKey_eq hpositions hbelow md5 key hlength
      (by omega) hnodes
    obtain ⟨ringPosition, hposition, howner⟩ := howner hfull
    have hserver :=
      replicasByKey_eq md5 nodesPerPartition hnodeIds hpositions hlength hposition howner
    refine ⟨_, hresult, ?_, ?_⟩
    · rw [hserver, hstart actual following horder, ← hfull,
        (partitionHead_eq_iff hpositions hbelow md5 key hlength (by omega) hfull horder).mpr hhash]
      congr 2
      omega
    · rw [← hfull, ← hn, nodup_around_iff hne, hids]
      exact hnodeIds

theorem getNodesIdByKey_two :
    ∃ nodesId, (fromClusterConfig 2 2 [⟨1, 0⟩, ⟨2, 1⟩]).getNodesIdByKey (fun _ => 6) [107] =
        some nodesId ∧
      replicasByKey (fun _ => 6) [⟨1, 0⟩, ⟨2, 1⟩] 2 2 [107] = some nodesId ∧ nodesId.Nodup :=
  (getNodesIdByKey_iff (fun _ => 6) [107] 2 (by decide) (by decide) (by decide)).mpr (by decide)

/-- Two nodes at the positions 0 and 2 of a ring of 4. The client returns each of them twice. It
    starts at the wrong one for a key at the position 2, and for one whose signed hash is
    negative. -/
theorem client_nodes_differ :
    (fromClusterConfig 2 4 [⟨1, 0⟩, ⟨2, 2⟩]).getNodesIdByKey (fun _ => 1) [107] =
      some [1, 2, 1, 2] ∧
    replicasByKey (fun _ => 1) [⟨1, 0⟩, ⟨2, 2⟩] 2 4 [107] = some [1, 2] ∧
    (fromClusterConfig 2 4 [⟨1, 0⟩, ⟨2, 2⟩]).getNodesIdByKey (fun _ => 2) [107] =
      some [1, 2, 1, 2] ∧
    replicasByKey (fun _ => 2) [⟨1, 0⟩, ⟨2, 2⟩] 2 4 [107] = some [2, 1] ∧
    (fromClusterConfig 2 4 [⟨1, 0⟩, ⟨2, 2⟩]).getNodesIdByKey (fun _ => 18446744073709551613) [107] =
      some [2, 1, 2, 1] ∧
    replicasByKey (fun _ => 18446744073709551613) [⟨1, 0⟩, ⟨2, 2⟩] 2 4 [107] = some [1, 2] := by
  decide

end config

end RingEntries

end MemDb.Client
