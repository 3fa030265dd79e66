import MemDb.Cluster.GetClusterConfigResponse
import Mathlib.Data.List.Perm.Lattice

/-! # The cluster manager reads the configuration

    `clusterConfigResponseToJSON` of the cluster manager against `GetClusterConfigOperator` of the
    server. The offset is a `uint32`. A slice that ends behind the buffer or in front of its start
    is `none`: it panics, or reads the spare capacity of the buffer. The order in which a Go map is
    walked is not specified; here it is that of the first assignments, and results are compared up
    to their order.

    A node id is the text of the number. The second loop reads one ring entry for each node, also
    where the server sends none; `readsConfig_iff` says which configurations arrive whole.
-/

namespace MemDb.ClusterManager

open Lib BigEndian List Option

/-! ### Go -/

/-- `offset += size`. -/
def advance (offset size : Nat) : Nat := (offset + size) % 2 ^ 32

/-- `bytes[low:high]`. -/
def slice (bytes : List UInt8) (low high : Nat) : Option (List UInt8) :=
  if low ≤ high ∧ high ≤ bytes.length then some ((bytes.drop low).take (high - low)) else none

/-- `binary.BigEndian` of the `sizeof` bytes at the offset. -/
def readAt (sizeof : Nat) (bytes : List UInt8) (offset : Nat) : Option Nat :=
  (slice bytes offset (advance offset sizeof)).map decode

/-- A `map` with texts as keys. -/
abbrev TextMap (V : Type) := List (String × V)

/-- `map[key] = value`. -/
def TextMap.assign {V : Type} (key : String) (value : V) : TextMap V → TextMap V
  | [] => [(key, value)]
  | (k, v) :: rest => if k = key then (k, value) :: rest else (k, v) :: assign key value rest

/-! ### The controller -/

structure NodeResponse where
  nodeId : String
  ringPosition : UInt32
  address : List UInt8
deriving DecidableEq, Repr

structure GetClusterConfigResponse where
  nodesPerPartition : UInt32
  maxPartitionSize : UInt32
  nodes : List NodeResponse
deriving DecidableEq, Repr

/-- The loop over the nodes; returns the offset behind them as well. -/
def readNodes (bytes : List UInt8) : (remaining offset : Nat) →
    (addressByNodeId : TextMap (List UInt8)) → Option (TextMap (List UInt8) × Nat)
  | 0, offset, addressByNodeId => some (addressByNodeId, offset)
  | remaining + 1, offset, addressByNodeId => do
    let nodeId ← readAt 2 bytes offset
    let offset := advance offset 2
    let addressSize ← readAt 4 bytes offset
    let offset := advance offset 4
    let address ← slice bytes offset (advance offset addressSize)
    readNodes bytes remaining (advance offset addressSize)
      (addressByNodeId.assign nodeId.repr address)

/-- The loop over the ring entries. -/
def readRingEntries (bytes : List UInt8) : (remaining offset : Nat) →
    (ringPositionsByNodeId : TextMap UInt32) → Option (TextMap UInt32)
  | 0, _, ringPositionsByNodeId => some ringPositionsByNodeId
  | remaining + 1, offset, ringPositionsByNodeId => do
    let nodeId ← readAt 2 bytes offset
    let offset := advance offset 2
    let ringPosition ← readAt 4 bytes offset
    readRingEntries bytes remaining (advance offset 4)
      (ringPositionsByNodeId.assign nodeId.repr (UInt32.ofNat ringPosition))

/-- The loop over the map of the addresses; a key that is not in the other map has the value 0
    there. -/
def nodeResponses (usingPartitions : Bool) (addressByNodeId : TextMap (List UInt8))
    (ringPositionsByNodeId : TextMap UInt32) : List NodeResponse :=
  addressByNodeId.map fun entry =>
    { nodeId := entry.1
      ringPosition :=
        if usingPartitions then (ringPositionsByNodeId.lookup entry.1).getD 0 else 0
      address := entry.2 }

def clusterConfigResponseToJSON (bytes : List UInt8) : Option GetClusterConfigResponse := do
  let nodesPerPartition ← readAt 4 bytes 0
  let maxPartitionSize ← readAt 4 bytes 4
  let nNodesInCluster ← readAt 4 bytes 8
  let (addressByNodeId, offset) ← readNodes bytes nNodesInCluster 12 []
  -- also where the server does not use partitions
  let ringPositionsByNodeId ← readRingEntries bytes nNodesInCluster offset []
  return { nodesPerPartition := UInt32.ofNat nodesPerPartition
           maxPartitionSize := UInt32.ofNat maxPartitionSize
           nodes := nodeResponses (nodesPerPartition > 0) addressByNodeId ringPositionsByNodeId }

/-! ### Reading at an offset -/

section reading
variable {bytes : List UInt8}

section
variable {part rest : List UInt8} {offset : Nat} (hoffset : offset < 2 ^ 32)
include hoffset

/-- A part of the buffer is read where it ends in front of the greatest offset. -/
theorem slice_at (h : At bytes offset (part ++ rest)) (hpart : part.length < 2 ^ 32) :
    slice bytes offset (advance offset part.length) =
      if offset + part.length < 2 ^ 32 then some part else none := by
  have hlength := h.length_eq
  rw [length_append] at hlength
  unfold slice advance
  by_cases hend : offset + part.length < 2 ^ 32
  · rw [if_pos hend, Nat.mod_eq_of_lt hend, if_pos (by omega), Nat.add_sub_cancel_left, h.take]
  · -- the end of the slice wraps around and is in front of its start
    rw [if_neg hend, if_neg (by omega)]

theorem readAt_at {sizeof value : Nat} (h : At bytes offset (encode sizeof value ++ rest))
    (hsize : sizeof < 2 ^ 32) (hvalue : value < 256 ^ sizeof) :
    readAt sizeof bytes offset = if offset + sizeof < 2 ^ 32 then some value else none := by
  have hslice := slice_at hoffset h (by simpa)
  rw [length_encode] at hslice
  rw [readAt, hslice]
  split
  · rw [map_some, decode_encode_of_lt hvalue]
  · rfl

end

/-- What follows a read that ends at `first` ends at `last` itself. -/
theorem bind_within {α β : Type} {read : Option α} {value : α} {next : α → Option β}
    {result : Option β} {first last : Nat} (hle : first ≤ last)
    (hread : read = if first < 2 ^ 32 then some value else none)
    (hnext : first < 2 ^ 32 → next value = if last < 2 ^ 32 then result else none) :
    read.bind next = if last < 2 ^ 32 then result else none := by
  by_cases hfirst : first < 2 ^ 32
  · rw [hread, if_pos hfirst, bind_some, hnext hfirst]
  · rw [hread, if_neg hfirst, if_neg (by omega)]
    rfl

/-- Nothing is read at the end of the buffer. -/
theorem readAt_end {sizeof : Nat} (hpos : 0 < sizeof) (hsize : sizeof < 2 ^ 32) :
    readAt sizeof bytes bytes.length = none := by
  unfold readAt slice advance
  rw [if_neg, map_none]
  by_cases hend : bytes.length + sizeof < 2 ^ 32
  · rw [Nat.mod_eq_of_lt hend]
    omega
  · omega

theorem length_of_slice {low high : Nat} {part : List UInt8}
    (h : slice bytes low high = some part) : part.length ≤ high := by
  unfold slice at h
  split at h
  · cases h
    rw [length_take]
    omega
  · cases h

end reading

/-! ### Maps -/

section maps
variable {V : Type}

theorem TextMap.mem_assign {key : String} {value : V} {map : TextMap V} {entry : String × V}
    (h : entry ∈ map.assign key value) : entry = (key, value) ∨ entry ∈ map := by
  induction map with
  | nil => exact Or.inl (mem_singleton.mp h)
  | cons first rest ih =>
    unfold TextMap.assign at h
    split at h
    · next heq =>
      rcases mem_cons.mp h with h | h
      · exact Or.inl (h.trans (by rw [heq]))
      · exact Or.inr (mem_cons_of_mem _ h)
    · rcases mem_cons.mp h with h | h
      · exact Or.inr (h ▸ mem_cons_self)
      · rcases ih h with h | h
        · exact Or.inl h
        · exact Or.inr (mem_cons_of_mem _ h)

theorem TextMap.assign_new {key : String} {map : TextMap V} (h : key ∉ map.map (·.1)) (value : V) :
    map.assign key value = map ++ [(key, value)] := by
  induction map with
  | nil => rfl
  | cons first rest ih =>
    simp only [map_cons, mem_cons, not_or] at h
    rw [TextMap.assign, if_neg (Ne.symm h.1), ih h.2]
    rfl

/-- Assignments to distinct keys come one behind the other. -/
theorem TextMap.foldl_assign {entries map : TextMap V} (h : ((map ++ entries).map (·.1)).Nodup) :
    entries.foldl (fun map entry => TextMap.assign entry.1 entry.2 map) map = map ++ entries := by
  induction entries generalizing map with
  | nil => simp
  | cons entry rest ih =>
    have hnew : entry.1 ∉ map.map (·.1) := by
      intro hmem
      rw [map_append, map_cons] at h
      exact (nodup_append.mp h).2.2 _ hmem _ mem_cons_self rfl
    have hrest : (((map ++ [entry]) ++ rest).map (·.1)).Nodup := by simpa using h
    rw [foldl_cons, TextMap.assign_new hnew]
    exact (ih hrest).trans (append_assoc ..)

/-- The text of a number has the number in its digits. -/
theorem eq_of_repr_eq {m n : Nat} (h : m.repr = n.repr) : m = n := by
  rw [Nat.repr_eq_ofList_toDigits, Nat.repr_eq_ofList_toDigits, String.ofList_inj] at h
  rw [← Nat.ofDigitChars_toDigits (by decide : 1 < 10) (by decide : 10 ≤ 10) (n := m), h]
  exact Nat.ofDigitChars_toDigits (by decide) (by decide)

section
variable {E : Type} {entries : List E} {idOf : E → UInt16} {entryOf : E → String × V}
  (hentry : ∀ entry, (entryOf entry).1 = (idOf entry).toNat.repr) (h : (entries.map idOf).Nodup)
include hentry h

/-- The texts of distinct ids are distinct. -/
theorem nodup_reprs :
    ((entries.map entryOf).map (·.1)).Nodup := by
  have hmap : (entries.map entryOf).map (·.1) = (entries.map idOf).map fun id => id.toNat.repr := by
    simp [hentry]
  rw [hmap]
  apply h.map
  intro id id' hrepr
  exact UInt16.toNat_inj.mp (eq_of_repr_eq hrepr)

theorem foldl_entries :
    (entries.map entryOf).foldl (fun map entry => TextMap.assign entry.1 entry.2 map) [] =
      entries.map entryOf :=
  TextMap.foldl_assign (nodup_reprs hentry h)

end

end maps

/-! ### The loops -/

open MemDb.GetClusterConfigResponse (nodeBytes ringEntryBytes length_nodeBytes)

/-- What is assigned for a node, and for an entry of the ring. -/
def addressEntry (node : NodeAddress) : String × List UInt8 :=
  (node.nodeId.toNat.repr, node.address)

def positionEntry (entry : RingEntry) : String × UInt32 :=
  (entry.nodeId.toNat.repr, entry.ringPosition)

section
variable {bytes rest : List UInt8} {offset : Nat} (hoffset : offset < 2 ^ 32)
include hoffset

/-- The nodes are read if they end in front of the greatest offset. -/
theorem readNodes_at {nodes : List NodeAddress}
    (haddresses : ∀ node ∈ nodes, node.address.length < 2 ^ 32)
    (h : At bytes offset (nodes.flatMap nodeBytes ++ rest)) (map : TextMap (List UInt8)) :
    readNodes bytes nodes.length offset map =
      if offset + (nodes.flatMap nodeBytes).length < 2 ^ 32 then
        some ((nodes.map addressEntry).foldl (fun map entry => map.assign entry.1 entry.2) map,
          offset + (nodes.flatMap nodeBytes).length)
      else none := by
  induction nodes generalizing offset map with
  | nil => exact (if_pos hoffset).symm
  | cons node nodes ih =>
    obtain ⟨haddress, haddresses⟩ := forall_mem_cons.mp haddresses
    simp only [flatMap_cons, nodeBytes, append_assoc] at h
    rw [flatMap_cons, length_append, length_nodeBytes, length_cons, readNodes]
    -- the offset may wrap around behind each of the three parts
    refine bind_within (by omega) (readAt_at hoffset h (by decide) node.nodeId.toNat_lt)
      fun hid => ?_
    dsimp only
    rw [advance, Nat.mod_eq_of_lt hid]
    refine bind_within (by omega) (readAt_at hid h.number (by decide) haddress) fun hlength => ?_
    rw [advance, Nat.mod_eq_of_lt hlength]
    refine bind_within (by omega) (slice_at hlength h.number.number haddress) fun hend => ?_
    rw [advance, Nat.mod_eq_of_lt hend, ih hend haddresses h.number.number.behind,
      show offset + 2 + 4 + node.address.length + (nodes.flatMap nodeBytes).length =
        offset + (6 + node.address.length + (nodes.flatMap nodeBytes).length) by omega]
    rfl

/-- The ring entries are read if they end in front of the greatest offset. -/
theorem readRingEntries_at {entries : List RingEntry}
    (h : At bytes offset (entries.flatMap ringEntryBytes ++ rest)) (map : TextMap UInt32) :
    readRingEntries bytes entries.length offset map =
      if offset + (entries.flatMap ringEntryBytes).length < 2 ^ 32 then
        some ((entries.map positionEntry).foldl (fun map entry => map.assign entry.1 entry.2) map)
      else none := by
  induction entries generalizing offset map with
  | nil => exact (if_pos hoffset).symm
  | cons entry entries ih =>
    simp only [flatMap_cons, ringEntryBytes, append_assoc] at h
    rw [flatMap_cons, length_append, MemDb.GetClusterConfigResponse.length_ringEntryBytes,
      length_cons, readRingEntries]
    refine bind_within (by omega) (readAt_at hoffset h (by decide) entry.nodeId.toNat_lt)
      fun hid => ?_
    dsimp only
    rw [advance, Nat.mod_eq_of_lt hid]
    refine bind_within (by omega) (readAt_at hid h.number (by decide) entry.ringPosition.toNat_lt)
      fun hend => ?_
    rw [advance, Nat.mod_eq_of_lt hend, ih hend h.number.number, UInt32.ofNat_toNat,
      show offset + 2 + 4 + (entries.flatMap ringEntryBytes).length =
        offset + (6 + (entries.flatMap ringEntryBytes).length) by omega]
    rfl

end

/-- An address that is read is shorter than the greatest offset. -/
theorem length_readNodes {bytes : List UInt8} {remaining offset offset' : Nat}
    {map map' : TextMap (List UInt8)}
    (h : readNodes bytes remaining offset map = some (map', offset'))
    (hmap : ∀ entry ∈ map, entry.2.length < 2 ^ 32) : ∀ entry ∈ map', entry.2.length < 2 ^ 32 := by
  induction remaining generalizing offset map with
  | zero =>
    cases h
    exact hmap
  | succ remaining ih =>
    simp only [readNodes, bind_eq_bind, bind_eq_some_iff] at h
    obtain ⟨nodeId, -, addressSize, -, address, haddress, h⟩ := h
    apply ih h
    intro entry hentry
    rcases TextMap.mem_assign hentry with rfl | hentry
    · exact (length_of_slice haddress).trans_lt (Nat.mod_lt _ (by decide))
    · exact hmap entry hentry

/-! ### What arrives -/

section
variable {response : MemDb.GetClusterConfigResponse}

/-- With the three numbers read, the count of nodes is that of the ring entries as well. -/
theorem json_serialize (hcount : response.nodes.length < 2 ^ 32) :
    clusterConfigResponseToJSON response.serialize =
      (readNodes response.serialize response.nodes.length 12 []).bind fun result =>
        (readRingEntries response.serialize response.nodes.length result.2 []).map fun positions =>
          { nodesPerPartition := response.nodesPerPartition
            maxPartitionSize := response.maxPartitionSize
            nodes := nodeResponses (response.nodesPerPartition.toNat > 0) result.1 positions } := by
  have hat := MemDb.GetClusterConfigResponse.serialize_at response
  rw [clusterConfigResponseToJSON,
    readAt_at (by decide) hat (by decide) response.nodesPerPartition.toNat_lt,
    readAt_at (by decide) hat.number (by decide) response.maxPartitionSize.toNat_lt,
    readAt_at (by decide) hat.number.number (by decide) hcount]
  simp only [Nat.reduceAdd, Nat.reduceLT, Nat.reducePow, if_true, bind_eq_bind, bind_some,
    UInt32.ofNat_toNat]
  congr 1
  funext result
  cases readRingEntries response.serialize response.nodes.length result.2 [] <;> rfl

theorem length_serialize (response : MemDb.GetClusterConfigResponse) :
    response.serialize.length = 12 + (response.nodes.flatMap nodeBytes).length +
      (response.ringEntries.flatMap ringEntryBytes).length := by
  rw [(MemDb.GetClusterConfigResponse.serialize_at response).length_eq]
  simp only [length_append, length_encode, length_nil]
  omega

/-- The loop over the nodes starts behind the three numbers. -/
theorem readNodes_serialize (hnodeIds : (response.nodes.map (·.nodeId)).Nodup)
    (haddresses : ∀ node ∈ response.nodes, node.address.length < 2 ^ 32) :
    readNodes response.serialize response.nodes.length 12 [] =
      if 12 + (response.nodes.flatMap nodeBytes).length < 2 ^ 32 then
        some (response.nodes.map addressEntry, 12 + (response.nodes.flatMap nodeBytes).length)
      else none := by
  have hread := readNodes_at (by decide) haddresses
    (MemDb.GetClusterConfigResponse.serialize_at response).number.number.number []
  rwa [foldl_entries (fun node => rfl) hnodeIds] at hread

/-- The loop over the ring entries starts behind the nodes. -/
theorem readRingEntries_serialize (hnodeIds : (response.ringEntries.map (·.nodeId)).Nodup)
    (hend : 12 + (response.nodes.flatMap nodeBytes).length < 2 ^ 32) :
    readRingEntries response.serialize response.ringEntries.length
        (12 + (response.nodes.flatMap nodeBytes).length) [] =
      if response.serialize.length < 2 ^ 32 then some (response.ringEntries.map positionEntry)
      else none := by
  have hread := readRingEntries_at hend
    (MemDb.GetClusterConfigResponse.serialize_at response).number.number.number.behind []
  rwa [foldl_entries (fun entry => rfl) hnodeIds, ← length_serialize] at hread

end

/-! ### What the server serves -/

open MemDb.GetClusterConfigOperator

section served
variable {cluster : ServedCluster}

/-- The two numbers and, for each node, its id and address arrive, and with partitions its
    position. -/
structure Arrives (cluster : ServedCluster) (result : GetClusterConfigResponse) : Prop where
  nodesPerPartition : result.nodesPerPartition = cluster.getNodesPerPartition
  maxPartitionSize : result.maxPartitionSize = cluster.getMaxPartitionSize
  nodes : (result.nodes.map fun node => (node.nodeId, node.address)).Perm
    ((getNodesToSendInResponse cluster).map addressEntry)
  positions : cluster.usePartitions = true → ∀ node ∈ result.nodes,
    ∀ entry ∈ cluster.ringEntries, entry.nodeId.toNat.repr = node.nodeId →
      node.ringPosition = entry.ringPosition

/-- The ids of the nodes are distinct, and with partitions each node has one entry in the ring. -/
structure Formed (cluster : ServedCluster) : Prop where
  nodeIds : ((getNodesToSendInResponse cluster).map (·.nodeId)).Nodup
  ring : cluster.usePartitions = true → (cluster.ringEntries.map (·.nodeId)).Perm
    ((getNodesToSendInResponse cluster).map (·.nodeId))

theorem Formed.length_lt (h : Formed cluster) :
    (getNodesToSendInResponse cluster).length < 2 ^ 32 := by
  have hle := RingEntries.length_nodeIds_le h.nodeIds
  rw [length_map] at hle
  omega

theorem operate_ringEntries (hpartitions : cluster.usePartitions = true) :
    (operate cluster).ringEntries = cluster.ringEntries := if_pos hpartitions

/-- What comes back of a cluster whose bytes can be counted in the offset. -/
def received (cluster : ServedCluster) : GetClusterConfigResponse where
  nodesPerPartition := cluster.nodesPerPartition
  maxPartitionSize := cluster.maxSize
  nodes := nodeResponses (cluster.nodesPerPartition.toNat > 0)
    ((getNodesToSendInResponse cluster).map addressEntry) (cluster.ringEntries.map positionEntry)

/-- Without partitions the second loop reads behind the buffer, as the server serves itself at
    least. -/
theorem json_operate (h : Formed cluster)
    (haddresses : ∀ node ∈ getNodesToSendInResponse cluster, node.address.length < 2 ^ 32) :
    clusterConfigResponseToJSON (operate cluster).serialize =
      if cluster.usePartitions = true ∧ (operate cluster).serialize.length < 2 ^ 32 then
        some (received cluster)
      else none := by
  have hlength := length_serialize (operate cluster)
  rw [json_serialize h.length_lt, readNodes_serialize h.nodeIds haddresses]
  by_cases hend : 12 + ((operate cluster).nodes.flatMap nodeBytes).length < 2 ^ 32
  · rw [if_pos hend, bind_some]
    by_cases hpartitions : cluster.usePartitions = true
    · have hring := h.ring hpartitions
      -- the reader takes the number of nodes for that of ring entries
      have hcount : (operate cluster).ringEntries.length = (operate cluster).nodes.length := by
        have hlengths := hring.length_eq
        rw [length_map, length_map] at hlengths
        rw [operate_ringEntries hpartitions]
        exact hlengths
      have hnodeIds : ((operate cluster).ringEntries.map (·.nodeId)).Nodup := by
        rw [operate_ringEntries hpartitions]
        exact hring.nodup_iff.mpr h.nodeIds
      have hread := readRingEntries_serialize hnodeIds hend
      rw [hcount] at hread
      rw [hread]
      by_cases hsize : (operate cluster).serialize.length < 2 ^ 32
      · rw [if_pos hsize, if_pos ⟨hpartitions, hsize⟩]
        simp [received, operate, ServedCluster.getNodesPerPartition,
          ServedCluster.getMaxPartitionSize, hpartitions]
      · rw [if_neg hsize, if_neg (fun h => hsize h.2)]
        rfl
    -- without partitions the answer ends behind the nodes, and the first entry cannot be read
    · have hbytes : (operate cluster).serialize.length =
          12 + ((operate cluster).nodes.flatMap nodeBytes).length := by
        rw [hlength]
        simp [operate, hpartitions]
      have hself : (operate cluster).nodes.length = cluster.clusterNodes.length + 1 := by
        simp [operate, getNodesToSendInResponse]
      rw [← hbytes, hself, readRingEntries, readAt_end (by decide) (by decide),
        if_neg (fun h => hpartitions h.1)]
      rfl
  · rw [if_neg hend, if_neg (by omega)]
    rfl

/-- Only addresses that the offset can count arrive. -/
theorem Arrives.addresses {result : GetClusterConfigResponse} (h : Formed cluster)
    (hread : clusterConfigResponseToJSON (operate cluster).serialize = some result)
    (harrives : Arrives cluster result) :
    ∀ node ∈ getNodesToSendInResponse cluster, node.address.length < 2 ^ 32 := by
  intro node hnode
  rw [json_serialize h.length_lt] at hread
  obtain ⟨⟨addresses, offset⟩, haddresses, hread⟩ := bind_eq_some_iff.mp hread
  obtain ⟨positions, -, rfl⟩ := map_eq_some_iff.mp hread
  have hmem := harrives.nodes.mem_iff.mpr (mem_map_of_mem hnode)
  -- the nodes of the result are the entries of the map
  simp only [nodeResponses, List.map_map, List.mem_map, Function.comp_apply] at hmem
  obtain ⟨entry, hentry, heq⟩ := hmem
  have hlength := length_readNodes haddresses (by simp) entry hentry
  rwa [(Prod.mk.inj heq).2] at hlength

theorem addresses_of_length (hlength : (operate cluster).serialize.length < 2 ^ 32) :
    ∀ node ∈ getNodesToSendInResponse cluster, node.address.length < 2 ^ 32 := by
  intro node hnode
  have hsub : (nodeBytes node).Sublist ((operate cluster).nodes.flatMap nodeBytes) := by
    rw [flatMap_def]
    exact sublist_flatten_of_mem (mem_map_of_mem hnode)
  have hle := hsub.length_le
  rw [length_nodeBytes] at hle
  rw [length_serialize] at hlength
  omega

theorem map_received (cluster : ServedCluster) :
    ((received cluster).nodes.map fun node => (node.nodeId, node.address)) =
      (getNodesToSendInResponse cluster).map addressEntry := by
  simp [received, nodeResponses, Function.comp_def]

/-- The positions are those of the ring; where no number of nodes is given they come back as 0. -/
theorem arrives_received_iff (h : Formed cluster) (hpartitions : cluster.usePartitions = true) :
    Arrives cluster (received cluster) ↔
      (cluster.nodesPerPartition = 0 → ∀ entry ∈ cluster.ringEntries, entry.ringPosition = 0) := by
  have hring := h.ring hpartitions
  constructor
  · intro harrives hzero entry hentry
    obtain ⟨node, hnode, hid⟩ := mem_map.mp
      (hring.mem_iff.mp (mem_map_of_mem hentry))
    have hmem : addressEntry node ∈
        (received cluster).nodes.map fun node => (node.nodeId, node.address) := by
      rw [map_received]
      exact mem_map_of_mem hnode
    obtain ⟨response, hresponse, heq⟩ := mem_map.mp hmem
    have hposition := harrives.positions hpartitions response hresponse entry hentry
      (by rw [(Prod.mk.inj heq).1, ← hid])
    rw [← hposition]
    obtain ⟨_, -, rfl⟩ := mem_map.mp hresponse
    simp [hzero]
  · intro hzero
    refine ⟨?_, ?_, (map_received cluster).symm ▸ List.Perm.refl _, ?_⟩
    · simp [received, ServedCluster.getNodesPerPartition, hpartitions]
    · simp [received, ServedCluster.getMaxPartitionSize, hpartitions]
    · intro _ node hnode entry hentry hid
      obtain ⟨_, -, rfl⟩ := mem_map.mp hnode
      by_cases hnone : cluster.nodesPerPartition = 0
      · simp [hnone, hzero hnone entry hentry]
      · -- the id is found in the map of the positions, as no other node has it
        have hfound : (cluster.ringEntries.map positionEntry).lookup entry.nodeId.toNat.repr =
            some entry.ringPosition := by
          apply RingEntries.lookup_of_mem
          · exact nodup_reprs (fun entry => rfl) (hring.nodup_iff.mpr h.nodeIds)
          · exact mem_map_of_mem hentry
        have hpos : 0 < cluster.nodesPerPartition.toNat :=
          Nat.pos_of_ne_zero fun h => hnone (UInt32.toNat_inj.mp h)
        dsimp only at hid ⊢
        rw [← hid, hfound]
        simp [hpos]

/-- The configuration arrives just where partitions are used, its bytes can be counted in 32 bits,
    and the number of nodes per partition is not 0 or every position is. -/
theorem readsConfig_iff (cluster : ServedCluster) (h : Formed cluster) :
    (∃ result, clusterConfigResponseToJSON (operate cluster).serialize = some result ∧
      Arrives cluster result) ↔
    cluster.usePartitions = true ∧ (operate cluster).serialize.length < 2 ^ 32 ∧
      (cluster.nodesPerPartition = 0 → ∀ entry ∈ cluster.ringEntries, entry.ringPosition = 0) := by
  constructor
  · rintro ⟨result, hread, harrives⟩
    have haddresses := harrives.addresses h hread
    rw [json_operate h haddresses] at hread
    split at hread
    · next hcond =>
      cases hread
      exact ⟨hcond.1, hcond.2, (arrives_received_iff h hcond.1).mp harrives⟩
    · cases hread
  · rintro ⟨hpartitions, hlength, hzero⟩
    refine ⟨received cluster, ?_, (arrives_received_iff h hpartitions).mpr hzero⟩
    rw [json_operate h (addresses_of_length hlength), if_pos ⟨hpartitions, hlength⟩]

/-- A cluster of two nodes; the second one serves it. -/
def pairCluster (usePartitions : Bool) : ServedCluster where
  usePartitions
  clusterNodes := [⟨1, [97, 58, 49]⟩]
  nodeId := 2
  address := [98]
  serverPort := [49]
  nodesPerPartition := 2
  maxSize := 16384
  ringEntries := [⟨1, 7⟩, ⟨2, 9000⟩]

theorem readsConfig_pair :
    ∃ result, clusterConfigResponseToJSON (operate (pairCluster true)).serialize = some result ∧
      Arrives (pairCluster true) result := by
  apply (readsConfig_iff (pairCluster true) ⟨by decide, fun _ => by decide⟩).mpr
  exact ⟨rfl, by decide, by decide⟩

/-- Without partitions the ring entry of the first node is looked for behind the buffer. -/
theorem unpartitioned_panics :
    Formed (pairCluster false) ∧
      clusterConfigResponseToJSON (operate (pairCluster false)).serialize = none := by
  refine ⟨⟨by decide, ?_⟩, by decide⟩
  intro hpartitions
  cases hpartitions

end served

end MemDb.ClusterManager
