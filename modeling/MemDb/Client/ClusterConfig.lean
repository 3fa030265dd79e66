import MemDb.Client.Response
import MemDb.Cluster.GetClusterConfigResponse

/-! # The Java client reads the configuration

    `deserializeGetConfigRequest` of `ClusterMemDbConnection` against the bytes of
    `GetClusterConfigResponse`. Of the second number and of the count of nodes only the highest byte
    is read, of the length of an address the upper half, and the bytes of an address are taken from
    the position of the buffer, which is at its start, to an index in the new array that is behind
    its end.

    So a configuration comes back without its nodes, and `usingPartitions` asks for the numbers to
    be 0. An exception is `none`. Offsets are natural numbers: an array has less than `2 ^ 31`
    bytes, so that an offset that overflows is outside of it either way.
-/

namespace MemDb.Client

open Lib BigEndian

/-! ### The decoder -/

structure ClusterConfigNode where
  nodeId : Int
  address : String
deriving DecidableEq, Repr

structure ClusterConfigRingEntry where
  nodeId : Int
  ringPosition : Int
deriving DecidableEq, Repr

structure ClusterConfig where
  nodesPerPartition : Int
  maxPartitionSize : Int
  clusterNodes : List ClusterConfigNode
  ringEntries : List ClusterConfigRingEntry
deriving DecidableEq, Repr

def ClusterConfig.usingPartitions (config : ClusterConfig) : Bool :=
  config.nodesPerPartition == 0 && config.maxPartitionSize == 0

/-- `new String(bytes, US_ASCII)`; a byte that is not ASCII becomes the replacement character. -/
def usAsciiString (bytes : List UInt8) : String :=
  String.ofList
    (bytes.map fun byte => if byte < 128 then Char.ofNat byte.toNat else Char.ofNat 0xFFFD)

namespace ByteBuffer

/-- `get(dst, offset, length)`: as many bytes from the position of the buffer go to `dst` from the
    offset on. Returns the array and the position behind them. -/
def getInto (raw : List UInt8) (position : Nat) (dst : List UInt8) (offset length : Nat) :
    Option (List UInt8 × Nat) :=
  if offset + length ≤ dst.length ∧ position + length ≤ raw.length then
    some (dst.take offset ++ ((raw.drop position).take length ++ dst.drop (offset + length)),
      position + length)
  else none

/-- An array has no place for bytes behind its end. -/
theorem getInto_behind {raw dst : List UInt8} {position offset length : Nat}
    (h : dst.length < offset + length) : getInto raw position dst offset length = none :=
  if_neg fun hfits => absurd hfits.1 (by omega)

end ByteBuffer

open ByteBuffer

/-- The loop over the nodes; returns the offset behind them as well. -/
def getClusterNodes (raw : List UInt8) : (remaining offset position : Nat) →
    Option (List ClusterConfigNode × Nat)
  | 0, offset, _ => some ([], offset)
  | remaining + 1, offset, position => do
    let nodeId ← getShort raw offset
    let reqLength ← getShort raw (offset + 2)
    -- an array with a negative size is refused
    if reqLength < 0 then none
    else
      let (addressBytes, position) ← getInto raw position (List.replicate reqLength.toNat 0)
        (offset + 6) reqLength.toNat
      let (clusterNodes, offset) ← getClusterNodes raw remaining (offset + reqLength.toNat + 2 + 4)
        position
      return (⟨nodeId, usAsciiString addressBytes⟩ :: clusterNodes, offset)

/-- The loop over the ring entries. -/
def getClusterRingEntries (raw : List UInt8) : (remaining offset : Nat) →
    Option (List ClusterConfigRingEntry)
  | 0, _ => some []
  | remaining + 1, offset => do
    let nodeId ← getShort raw offset
    let ringPosition ← getInt raw (offset + 2)
    let ringEntries ← getClusterRingEntries raw remaining (offset + (4 + 2))
    return ⟨nodeId, ringPosition⟩ :: ringEntries

/-- A list with a negative capacity is refused. -/
def deserializeGetConfigRequest (raw : List UInt8) : Option ClusterConfig := do
  let nodesPerPartition ← getInt raw 0
  let maxNodesInPartition ← ByteBuffer.get 1 raw 4
  let nNodes ← ByteBuffer.get 1 raw 8
  if nNodes < 0 then none
  else
    let (clusterNodes, offset) ← getClusterNodes raw nNodes.toNat 12 0
    let ringEntries ← if nodesPerPartition > 0 ∧ maxNodesInPartition > 0 then
        getClusterRingEntries raw nNodes.toNat offset
      else some []
    return { nodesPerPartition, maxPartitionSize := maxNodesInPartition, clusterNodes, ringEntries }

/-! ### What is read -/

/-- No address is read: it would have to go behind the end of its array. -/
theorem getClusterNodes_succ (raw : List UInt8) (remaining offset position : Nat) :
    getClusterNodes raw (remaining + 1) offset position = none := by
  unfold getClusterNodes
  cases hid : getShort raw offset with
  | none => rfl
  | some nodeId =>
    cases hlength : getShort raw (offset + 2) with
    | none => rfl
    | some reqLength =>
      have hbehind : getInto raw position (List.replicate reqLength.toNat 0) (offset + 6)
          reqLength.toNat = none :=
        getInto_behind (by rw [List.length_replicate]; omega)
      simp [hbehind]

/-- The highest byte of a number of four bytes, as a signed one. -/
def highByte (value : Nat) : Int := decodeSigned (encode 1 (value / 256 ^ 3))

theorem get_highByte {raw rest : List UInt8} {offset value : Nat}
    (h : At raw offset (encode 4 value ++ rest)) :
    ByteBuffer.get 1 raw offset = some (highByte value) := by
  rw [show encode 4 value = _ from encode_add 1 3 value, List.append_assoc] at h
  exact get_at h

/-- Where the count of the nodes has no highest byte the numbers are read and no nodes; else nothing
    is. -/
theorem deserialize_config (response : GetClusterConfigResponse) :
    deserializeGetConfigRequest response.serialize =
      if highByte response.nodes.length = 0 then
        some ⟨decodeSigned (encode 4 response.nodesPerPartition.toNat),
          highByte response.maxPartitionSize.toNat, [], []⟩
      else none := by
  have hat := GetClusterConfigResponse.serialize_at response
  have hperPartition : getInt response.serialize 0 = _ := get_at hat
  have hmaxSize : ByteBuffer.get 1 response.serialize 4 = _ := get_highByte hat.number
  have hnodes : ByteBuffer.get 1 response.serialize 8 = _ := get_highByte hat.number.number
  simp only [deserializeGetConfigRequest, hperPartition, hmaxSize, hnodes, Option.bind_eq_bind,
    Option.bind_some]
  by_cases hzero : highByte response.nodes.length = 0
  · simp [hzero, getClusterNodes, getClusterRingEntries]
  · rw [if_neg hzero]
    by_cases hneg : highByte response.nodes.length < 0
    · rw [if_pos hneg]
    · -- a positive count starts the loop, which throws in its first turn
      obtain ⟨remaining, hremaining⟩ : ∃ remaining,
          (highByte response.nodes.length).toNat = remaining + 1 :=
        ⟨(highByte response.nodes.length).toNat - 1, by omega⟩
      rw [if_neg hneg, hremaining, getClusterNodes_succ]
      rfl

theorem highByte_lt {value : Nat} (hpos : 0 < value) (hvalue : value < 2 ^ 31) :
    highByte value < value := by
  have hdiv : value / 256 ^ 3 < 2 ^ 7 := by omega
  have hread : highByte value = ((value / 256 ^ 3 : Nat) : Int) :=
    (decodeSigned_encode_iff (by omega)).mpr (by omega)
  rw [hread]
  omega

/-- The two numbers, the nodes and the ring entries are those of the response, and partitions are
    used. A position is an `int`. -/
structure ReadsConfig (response : GetClusterConfigResponse) (config : ClusterConfig) : Prop where
  nodesPerPartition : config.nodesPerPartition = response.nodesPerPartition.toNat
  maxPartitionSize : config.maxPartitionSize = response.maxPartitionSize.toNat
  clusterNodes : config.clusterNodes = response.nodes.map fun node =>
    ⟨node.nodeId.toNat, usAsciiString node.address⟩
  ringEntries : config.ringEntries = response.ringEntries.map fun entry =>
    ⟨entry.nodeId.toNat, entry.ringPosition.toInt32.toInt⟩
  usingPartitions : config.usingPartitions = true

/-- Whatever comes back has another second number and no nodes, and is not taken for a partitioned
    one. -/
theorem config_never_read (response : GetClusterConfigResponse)
    (hperPartition : 0 < response.nodesPerPartition.toNat)
    (hperPartitionSize : response.nodesPerPartition.toNat < 2 ^ 31)
    (hmaxSize : 0 < response.maxPartitionSize.toNat)
    (hmaxSizeSize : response.maxPartitionSize.toNat < 2 ^ 31) :
    (∀ config, deserializeGetConfigRequest response.serialize = some config →
      config.maxPartitionSize ≠ response.maxPartitionSize.toNat ∧ config.clusterNodes = [] ∧
        config.usingPartitions = false) ∧
    ¬ ∃ config, deserializeGetConfigRequest response.serialize = some config ∧
      ReadsConfig response config := by
  have hread : ∀ config, deserializeGetConfigRequest response.serialize = some config →
      config.maxPartitionSize ≠ response.maxPartitionSize.toNat ∧ config.clusterNodes = [] ∧
        config.usingPartitions = false := by
    intro config hconfig
    rw [deserialize_config] at hconfig
    split at hconfig
    · cases hconfig
      refine ⟨(highByte_lt hmaxSize hmaxSizeSize).ne, rfl, ?_⟩
      -- the first number is read, and it is not 0
      have hnumber : decodeSigned
          (encode 4 response.nodesPerPartition.toNat) =
            response.nodesPerPartition.toNat :=
        (decodeSigned_encode_iff response.nodesPerPartition.toNat_lt).mpr (by omega)
      simp only [ClusterConfig.usingPartitions, hnumber, Bool.and_eq_false_iff, beq_eq_false_iff_ne]
      exact Or.inl (by omega)
    · cases hconfig
  refine ⟨hread, ?_⟩
  rintro ⟨config, hconfig, hreads⟩
  exact (hread config hconfig).1 hreads.maxPartitionSize

theorem config_never_read_pair :
    ¬ ∃ config, deserializeGetConfigRequest GetClusterConfigResponse.pairConfig.serialize =
        some config ∧ ReadsConfig GetClusterConfigResponse.pairConfig config :=
  (config_never_read GetClusterConfigResponse.pairConfig (by decide) (by decide) (by decide)
    (by decide)).2

/-- Of two nodes and a ring of `16384` positions nothing is left but the first number. -/
theorem client_loses_nodes :
    deserializeGetConfigRequest GetClusterConfigResponse.pairConfig.serialize =
        some ⟨2, 0, [], []⟩ ∧
      (⟨2, 0, [], []⟩ : ClusterConfig).usingPartitions = false := by
  decide

end MemDb.Client
