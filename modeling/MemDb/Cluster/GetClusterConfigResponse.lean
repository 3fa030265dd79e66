import MemDb.Cluster.RingEntries
import MemDb.Utils

/-! # The configuration of the cluster and its bytes

    `GetClusterConfigResponse`, which a node sends to a new one and keeps in a file. One count
    stands in front of two lists: `serialize` writes the number of nodes, and `deserialize` reads as
    many nodes and then as many ring entries. The offset is an `int`; a read outside the buffer is
    `none`.
-/

namespace MemDb

open Lib BigEndian List Option Utils

/-- What is sent of a node of the cluster. -/
structure NodeAddress where
  nodeId : UInt16
  address : List UInt8
deriving DecidableEq, Repr

structure GetClusterConfigResponse where
  nodesPerPartition : UInt32
  maxPartitionSize : UInt32
  nodes : List NodeAddress
  ringEntries : List RingEntry
deriving DecidableEq, Repr

namespace GetClusterConfigResponse

/-! ### Serializing -/

def appendNode (serialized : List UInt8) (node : NodeAddress) : List UInt8 :=
  let serialized := appendToBuffer 2 node.nodeId.toNat serialized
  let serialized := appendToBuffer 4 node.address.length serialized
  serialized ++ node.address

def appendRingEntry (serialized : List UInt8) (ringEntry : RingEntry) : List UInt8 :=
  appendToBuffer 4 ringEntry.ringPosition.toNat
    (appendToBuffer 2 ringEntry.nodeId.toNat serialized)

def serialize (response : GetClusterConfigResponse) : List UInt8 :=
  let serialized := appendToBuffer 4 response.nodesPerPartition.toNat []
  let serialized := appendToBuffer 4 response.maxPartitionSize.toNat serialized
  let serialized := appendToBuffer 4 response.nodes.length serialized
  let serialized := response.nodes.foldl appendNode serialized
  response.ringEntries.foldl appendRingEntry serialized

/-! ### Deserializing -/

/-- The conversion of a number to an `int`. -/
def toInt (value : Int) : Int := value.bmod (2 ^ 32)

/-- A number at an offset; a negative one is far outside of the buffer. -/
def parseAt (sizeof : Nat) (bytes : List UInt8) (offset : Int) : Option Nat :=
  if offset < 0 then none else parseFromBuffer sizeof bytes offset.toNat

/-- The `size` bytes at an offset. -/
def bytesAt (bytes : List UInt8) (offset : Int) (size : Nat) : Option (List UInt8) :=
  if 0 ≤ offset ∧ offset + size ≤ bytes.length then some ((bytes.drop offset.toNat).take size)
  else none

/-- The loop over the nodes; returns the offset behind them as well. -/
def getNodesFromGetClusterConfig (bytes : List UInt8) :
    (nNodesInCluster : Nat) → (offset : Int) → Option (List NodeAddress × Int)
  | 0, offset => some ([], offset)
  | nNodesInCluster + 1, offset => do
    let nodeId ← parseAt 2 bytes offset
    let sizeAddress ← parseAt 4 bytes (offset + 2)
    let address ← bytesAt bytes (offset + 2 + 4) sizeAddress
    let (nodes, offset) ← getNodesFromGetClusterConfig bytes nNodesInCluster
      (toInt (offset + 2 + 4 + sizeAddress))
    return (⟨UInt16.ofNat nodeId, address⟩ :: nodes, offset)

def getRingEntriesFromGetClusterConfig (bytes : List UInt8) :
    (nNodesInCluster : Nat) → (offset : Int) → Option (List RingEntry)
  | 0, _ => some []
  | nNodesInCluster + 1, offset => do
    let nodeId ← parseAt 2 bytes offset
    let ringPosition ← parseAt 4 bytes (offset + 2)
    let ringEntries ← getRingEntriesFromGetClusterConfig bytes nNodesInCluster
      (toInt (offset + 2 + 4))
    return ⟨UInt16.ofNat nodeId, UInt32.ofNat ringPosition⟩ :: ringEntries

/-- The count is an `int` for the nodes and unsigned for the ring entries. -/
def deserialize (bytes : List UInt8) (usingPartitions : Bool) :
    Option GetClusterConfigResponse := do
  let nodesPerPartition ← parseAt 4 bytes 0
  let maxPartitionSize ← parseAt 4 bytes 4
  let nNodesInCluster ← parseAt 4 bytes 8
  let (nodes, offset) ← getNodesFromGetClusterConfig bytes (toInt nNodesInCluster).toNat 12
  let ringEntries ← if usingPartitions then
      getRingEntriesFromGetClusterConfig bytes nNodesInCluster offset
    else some []
  return { nodesPerPartition := UInt32.ofNat nodesPerPartition
           maxPartitionSize := UInt32.ofNat maxPartitionSize
           nodes := nodes
           ringEntries := ringEntries }

/-! ### The bytes of the lists -/

def nodeBytes (node : NodeAddress) : List UInt8 :=
  encode 2 node.nodeId.toNat ++ (encode 4 node.address.length ++ node.address)

def ringEntryBytes (ringEntry : RingEntry) : List UInt8 :=
  encode 2 ringEntry.nodeId.toNat ++ encode 4 ringEntry.ringPosition.toNat

theorem foldl_appendNode (nodes : List NodeAddress) (serialized : List UInt8) :
    nodes.foldl appendNode serialized = serialized ++ nodes.flatMap nodeBytes := by
  induction nodes generalizing serialized with
  | nil => simp
  | cons node nodes ih => simp [ih, appendNode, nodeBytes, appendToBuffer_eq]

theorem foldl_appendRingEntry (ringEntries : List RingEntry) (serialized : List UInt8) :
    ringEntries.foldl appendRingEntry serialized =
      serialized ++ ringEntries.flatMap ringEntryBytes := by
  induction ringEntries generalizing serialized with
  | nil => simp
  | cons ringEntry ringEntries ih =>
    simp [ih, appendRingEntry, ringEntryBytes, appendToBuffer_eq]

theorem serialize_at (response : GetClusterConfigResponse) :
    At (serialize response) 0 (encode 4 response.nodesPerPartition.toNat ++
      (encode 4 response.maxPartitionSize.toNat ++ (encode 4 response.nodes.length ++
          (response.nodes.flatMap nodeBytes ++
            (response.ringEntries.flatMap ringEntryBytes ++ []))))) := by
  refine ⟨[], ?_, rfl⟩
  simp [serialize, foldl_appendNode, foldl_appendRingEntry, appendToBuffer_eq]

/-! ### Reading the lists -/

variable {offset : Int} {count : Nat} {response : GetClusterConfigResponse}

section
variable {bytes rest : List UInt8} {position : Nat} (hoffset : offset = position)
include hoffset

theorem parseAt_at {sizeof value : Nat} (h : At bytes position (encode sizeof value ++ rest))
    (hsize : sizeof ≤ 4) (hvalue : value < 256 ^ sizeof) :
    parseAt sizeof bytes offset = some value := by
  rw [parseAt, if_neg (by omega), hoffset, Int.toNat_natCast]
  exact parseFromBuffer_encode h hsize hvalue

theorem bytesAt_at {address : List UInt8} (h : At bytes position (address ++ rest)) :
    bytesAt bytes offset address.length = some address := by
  have hlength := h.length_eq
  rw [length_append] at hlength
  rw [bytesAt, if_pos (by omega), hoffset, Int.toNat_natCast, h.take]

end

theorem toInt_of_lt {value : Nat} (h : value < 2 ^ 31) : toInt value = value :=
  Int.bmod_eq_of_le (by omega) (by omega)

theorem length_nodeBytes (node : NodeAddress) :
    (nodeBytes node).length = 6 + node.address.length := by
  simp only [nodeBytes, length_append, length_encode]
  omega

theorem length_ringEntryBytes (ringEntry : RingEntry) : (ringEntryBytes ringEntry).length = 6 := by
  simp only [ringEntryBytes, length_append, length_encode]

theorem toInt_neg {value : Nat} (hle : 2 ^ 31 ≤ value) (hlt : value < 2 ^ 32) :
    toInt value < 0 := by
  rw [toInt, Int.bmod_def]
  split <;> omega

section lists
variable {bytes rest : List UInt8} {position : Nat}

/-- The nodes are read back and the offset stands behind them, unless it has left the `int`s before
    the last node is read. -/
theorem getNodes_at {nodes : List NodeAddress}
    (h : At bytes position (nodes.flatMap nodeBytes ++ rest))
    (hsize : position + (nodes.flatMap nodeBytes).length < 2 ^ 32) :
    getNodesFromGetClusterConfig bytes nodes.length (toInt position) =
        some (nodes, toInt (position + (nodes.flatMap nodeBytes).length : Nat)) ∨
      getNodesFromGetClusterConfig bytes nodes.length (toInt position) = none ∧
        2 ^ 31 ≤ position + (nodes.flatMap nodeBytes).length := by
  induction nodes generalizing position with
  | nil => exact .inl rfl
  | cons node nodes ih =>
    simp only [flatMap_cons, nodeBytes, append_assoc] at h
    rw [flatMap_cons, length_append, length_nodeBytes] at hsize ⊢
    rw [length_cons, getNodesFromGetClusterConfig]
    -- an offset from `2 ^ 31` on is a negative `int`, and the first read of the node throws
    rcases Nat.lt_or_ge position (2 ^ 31) with hlt | hge
    · have hrest := ih h.number.number.behind (by omega)
      rw [show position + 2 + 4 + node.address.length + (nodes.flatMap nodeBytes).length =
        position + (6 + node.address.length + (nodes.flatMap nodeBytes).length) by omega] at hrest
      have hoffset : (position : Int) + 2 + 4 + node.address.length =
          ((position + 2 + 4 + node.address.length : Nat) : Int) := by
        push_cast
        rfl
      rw [toInt_of_lt hlt, parseAt_at rfl h (by decide) node.nodeId.toNat_lt,
        parseAt_at (rfl : (position : Int) + 2 = _) h.number (by decide) (by omega)]
      simp only [bytesAt_at (rfl : (position : Int) + 2 + 4 = _) h.number.number, bind_eq_bind,
        bind_some, UInt16.ofNat_toNat, hoffset]
      rcases hrest with hrest | ⟨hrest, hend⟩
      · left
        simp only [hrest, bind_some, Option.pure_def]
      · right
        exact ⟨by rw [hrest, bind_none], hend⟩
    · rw [parseAt, if_pos (toInt_neg hge (by omega))]
      exact .inr ⟨rfl, by omega⟩

/-- The ring entries are read back if the last one starts at an offset that an `int` holds. -/
theorem getRingEntries_at {ringEntries : List RingEntry}
    (h : At bytes position (ringEntries.flatMap ringEntryBytes ++ rest))
    (hsize : position + 6 * ringEntries.length < 2 ^ 32) :
    getRingEntriesFromGetClusterConfig bytes ringEntries.length (toInt position) =
      if ringEntries.length = 0 ∨ position + 6 * ringEntries.length < 2 ^ 31 + 6 then
        some ringEntries
      else none := by
  induction ringEntries generalizing position with
  | nil => rfl
  | cons ringEntry ringEntries ih =>
    simp only [flatMap_cons, ringEntryBytes, append_assoc] at h
    rw [length_cons] at hsize ⊢
    rw [getRingEntriesFromGetClusterConfig]
    rcases Nat.lt_or_ge position (2 ^ 31) with hlt | hge
    · rw [toInt_of_lt hlt, parseAt_at rfl h (by decide) ringEntry.nodeId.toNat_lt,
        parseAt_at (rfl : (position : Int) + 2 = _) h.number (by decide)
          ringEntry.ringPosition.toNat_lt]
      simp only [bind_eq_bind, bind_some, UInt16.ofNat_toNat, UInt32.ofNat_toNat]
      rw [show (position : Int) + 2 + 4 = ((position + 2 + 4 : Nat) : Int) by push_cast; rfl,
        ih h.number.number (by omega)]
      -- behind the last entry nothing is read
      split <;> split <;> first | rfl | omega
    · rw [parseAt, if_pos (toInt_neg hge (by omega)), if_neg (by omega)]
      rfl

end lists

/-! ### How many are read -/

theorem length_getNodes {bytes : List UInt8} {offset' : Int} {nodes : List NodeAddress}
    (h : getNodesFromGetClusterConfig bytes count offset = some (nodes, offset')) :
    nodes.length = count := by
  induction count generalizing offset offset' nodes with
  | zero =>
    cases h
    rfl
  | succ count ih =>
    simp only [getNodesFromGetClusterConfig, bind_eq_bind, bind_eq_some_iff] at h
    obtain ⟨_, -, _, -, _, -, ⟨others, _⟩, hothers, hresult⟩ := h
    cases hresult
    rw [length_cons, ih hothers]

theorem length_getRingEntries {bytes : List UInt8} {ringEntries : List RingEntry}
    (h : getRingEntriesFromGetClusterConfig bytes count offset = some ringEntries) :
    ringEntries.length = count := by
  induction count generalizing offset ringEntries with
  | zero =>
    cases h
    rfl
  | succ count ih =>
    simp only [getRingEntriesFromGetClusterConfig, bind_eq_bind, bind_eq_some_iff] at h
    obtain ⟨_, -, _, -, others, hothers, hresult⟩ := h
    cases hresult
    rw [length_cons, ih hothers]

/-! ### Round trip -/

-- `simp` with `Option.bind_some` leaves the kernel to unfold the loops
theorem bind_of_eq_some {α β : Type} {x : Option α} {a : α} (f : α → Option β) (h : x = some a) :
    (x >>= f) = f a := by
  rw [h]
  rfl

/-- With the three numbers read, the count of nodes is that of the ring entries as well. -/
theorem deserialize_of_header {buffer : List UInt8} {nodesPerPartition maxPartitionSize : UInt32}
    (hperPartition : parseAt 4 buffer 0 = some nodesPerPartition.toNat)
    (hmaxSize : parseAt 4 buffer 4 = some maxPartitionSize.toNat)
    (hcount : parseAt 4 buffer 8 = some count) :
    deserialize buffer true =
      (getNodesFromGetClusterConfig buffer (toInt count).toNat 12).bind fun result =>
        (getRingEntriesFromGetClusterConfig buffer count result.2).map fun ringEntries =>
          ⟨nodesPerPartition, maxPartitionSize, result.1, ringEntries⟩ := by
  rw [deserialize, bind_of_eq_some _ hperPartition, bind_of_eq_some _ hmaxSize,
    bind_of_eq_some _ hcount]
  generalize (toInt count).toNat = nNodes
  simp only [if_true, UInt32.ofNat_toNat]
  congr 1
  funext result
  cases getRingEntriesFromGetClusterConfig buffer count result.2 <;> rfl

/-- The count that is read is the number of nodes in 32 bits. -/
theorem deserialize_serialize (response : GetClusterConfigResponse) :
    deserialize (serialize response) true = (getNodesFromGetClusterConfig (serialize response)
        (toInt (response.nodes.length % 2 ^ 32 : Nat)).toNat 12).bind fun result =>
          (getRingEntriesFromGetClusterConfig (serialize response)
            (response.nodes.length % 2 ^ 32) result.2).map fun ringEntries =>
              { response with nodes := result.1, ringEntries := ringEntries } := by
  have hat := serialize_at response
  have hcount := hat.number.number
  rw [← encode_mod] at hcount
  apply deserialize_of_header
  · exact parseAt_at rfl hat (by decide) response.nodesPerPartition.toNat_lt
  · exact parseAt_at rfl hat.number (by decide) response.maxPartitionSize.toNat_lt
  · exact parseAt_at rfl hcount (by decide) (Nat.mod_lt _ (by decide))

theorem length_le_flatMap_nodeBytes (nodes : List NodeAddress) :
    6 * nodes.length ≤ (nodes.flatMap nodeBytes).length := by
  induction nodes with
  | nil => exact Nat.le_refl _
  | cons node nodes ih =>
    rw [flatMap_cons, length_append, length_nodeBytes, length_cons]
    omega

/-- Only a response with as many ring entries as nodes comes back. -/
theorem length_of_deserialize_serialize
    (hread : deserialize (serialize response) true = some response) :
    response.nodes.length = response.ringEntries.length := by
  rw [deserialize_serialize] at hread
  obtain ⟨⟨nodes, offset⟩, hnodes, hresult⟩ := bind_eq_some_iff.mp hread
  obtain ⟨ringEntries, hring, hresponse⟩ := map_eq_some_iff.mp hresult
  -- both lists were read with the same count
  have hnodesLength := length_getNodes hnodes
  have hringLength := length_getRingEntries hring
  have hsameNodes : nodes = response.nodes := congrArg GetClusterConfigResponse.nodes hresponse
  have hsameEntries : ringEntries = response.ringEntries :=
    congrArg GetClusterConfigResponse.ringEntries hresponse
  rw [hsameNodes] at hnodesLength
  rw [hsameEntries] at hringLength
  -- a count that an `int` holds is its own remainder
  have hbound : toInt (response.nodes.length % 2 ^ 32 : Nat) < 2 ^ 31 := Int.bmod_lt (by decide)
  omega

/-- One with as many ring entries as nodes comes back as long as the last entry, of 6 bytes, starts
    at an offset that an `int` holds. -/
theorem deserialize_serialize_of_length
    (hlengths : response.nodes.length = response.ringEntries.length)
    (hsize : (serialize response).length < 2 ^ 32) :
    deserialize (serialize response) true = some response ↔
      (serialize response).length < 2 ^ 31 + 6 := by
  have hcount := length_le_flatMap_nodeBytes response.nodes
  have hat := serialize_at response
  have hlength := hat.length_eq
  have hentries : (response.ringEntries.flatMap ringEntryBytes).length =
      6 * response.ringEntries.length := by
    simp [length_flatMap, length_ringEntryBytes, Nat.mul_comm]
  have hempty : response.nodes.length = 0 → (response.nodes.flatMap nodeBytes).length = 0 := by
    intro hnil
    rw [length_eq_zero_iff.mp hnil, flatMap_nil, length_nil]
  simp only [length_append, length_encode, length_nil] at hlength
  have hmod : response.nodes.length % 2 ^ 32 = response.nodes.length :=
    Nat.mod_eq_of_lt (by omega)
  rw [deserialize_serialize, hmod, toInt_of_lt (by omega), Int.toNat_natCast]
  have hnodes : At _ 12 _ := hat.number.number.number
  have hring := getRingEntries_at hnodes.behind (by omega)
  have hread := getNodes_at hnodes (by omega)
  rw [show toInt (12 : Nat) = 12 from toInt_of_lt (by decide)] at hread
  rcases hread with hread | ⟨hnone, hge⟩
  · rw [hread, bind_some, hlengths, hring]
    split
    · exact iff_of_true rfl (by omega)
    · exact iff_of_false (by simp) (by omega)
  · -- the offset has left the `int`s before the ring
    rw [hnone]
    exact iff_of_false (by simp) (by omega)

/-- Only a response with as many ring entries as nodes comes back from its bytes. Below 4 GiB it
    does if and only if, besides, its last entry starts at an offset that an `int` holds. -/
theorem deserialize_serialize_iff (response : GetClusterConfigResponse) :
    (deserialize (serialize response) true = some response →
      response.nodes.length = response.ringEntries.length) ∧
    ((serialize response).length < 2 ^ 32 →
      (deserialize (serialize response) true = some response ↔
        response.nodes.length = response.ringEntries.length ∧
          (serialize response).length < 2 ^ 31 + 6)) := by
  constructor
  · intro hread
    exact length_of_deserialize_serialize hread
  · intro hsize
    constructor
    · intro hread
      have hlengths := length_of_deserialize_serialize hread
      exact ⟨hlengths, (deserialize_serialize_of_length hlengths hsize).mp hread⟩
    · rintro ⟨hlengths, hlast⟩
      exact (deserialize_serialize_of_length hlengths hsize).mpr hlast

/-- A cluster of two nodes, each with its entry in the ring. -/
def pairConfig : GetClusterConfigResponse :=
  ⟨2, 16384, [⟨1, [49]⟩, ⟨2, [50, 50]⟩], [⟨1, 7⟩, ⟨2, 9000⟩]⟩

theorem deserialize_serialize_iff_pair :
    deserialize (serialize pairConfig) true = some pairConfig :=
  ((deserialize_serialize_iff pairConfig).2 (by decide)).mpr (by decide)

/-- What `setConfigurationProvidedClusterConfig` persists on the only seed node: no node and its own
    entry in the ring. The entry is not read back. Written the other way round, nodes and no ring
    entry, the loop over the ring reads behind the buffer. -/
theorem single_seed_loses_ring_entry :
    deserialize (serialize ⟨3, 16384, [], [⟨1, 7⟩]⟩) true = some ⟨3, 16384, [], []⟩ ∧
    deserialize (serialize ⟨3, 16384, [⟨1, [49]⟩], []⟩) true = none := by
  decide

end GetClusterConfigResponse

/-! ### What is served

    `GetClusterConfigOperator` answers with the nodes of the cluster and the node itself behind them
    and, with partitions, with the entries of the ring. -/

/-- What the operator reads of its dependencies. -/
structure ServedCluster where
  usePartitions : Bool
  /-- `clusterNodes->getAllNodes()`. -/
  clusterNodes : List NodeAddress
  nodeId : UInt16
  address : List UInt8
  serverPort : List UInt8
  /-- Of `partitions`; read with partitions only. -/
  nodesPerPartition : UInt32
  maxSize : UInt32
  /-- `partitions->getAll()`. -/
  ringEntries : List RingEntry
deriving DecidableEq, Repr

namespace ServedCluster

def getNodesPerPartition (cluster : ServedCluster) : UInt32 :=
  if cluster.usePartitions then cluster.nodesPerPartition else 1

def getMaxPartitionSize (cluster : ServedCluster) : UInt32 :=
  if cluster.usePartitions then cluster.maxSize else 1

end ServedCluster

namespace GetClusterConfigOperator

/-- The address of the node itself is its host, a colon and its port. -/
def getNodesToSendInResponse (cluster : ServedCluster) : List NodeAddress :=
  cluster.clusterNodes ++ [⟨cluster.nodeId, cluster.address ++ 58 :: cluster.serverPort⟩]

/-- The response whose bytes `operate` returns. -/
def operate (cluster : ServedCluster) : GetClusterConfigResponse where
  nodesPerPartition := cluster.getNodesPerPartition
  maxPartitionSize := cluster.getMaxPartitionSize
  nodes := getNodesToSendInResponse cluster
  ringEntries := if cluster.usePartitions then cluster.ringEntries else []

end GetClusterConfigOperator

end MemDb
