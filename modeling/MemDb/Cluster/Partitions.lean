import MemDb.Cluster.RingEntries
import MemDb.Utils
import Mathlib.Data.Finset.Basic

/-! # Partitions

    Each node of a partitioned cluster holds the keys of the nodes before it on the ring besides its
    own, up to `nodesPerPartition` in total. For each of these partitions it knows the group of
    other nodes that hold the same keys. A function is `none` where the source reads through a null
    pointer, throws or divides by zero.
-/

namespace MemDb

/-! ### The ring from one node -/

structure Partitions where
  ringEntries : RingEntries
  selfEntry : RingEntry
  nodesPerPartition : UInt32
  maxSize : UInt32
deriving DecidableEq

namespace Partitions

/-- The constructor; `nodeId` is the configured one. -/
def new (allRingEntries : List RingEntry) (nodesPerPartition maxSize : UInt32) (nodeId : UInt16) :
    Option Partitions := do
  let ringEntries ← RingEntries.fromEntries allRingEntries
  let selfEntry ← ringEntries.getByNodeId nodeId
  return { ringEntries, selfEntry, nodesPerPartition, maxSize }

def getNeighborsClockwiseByNodeId (partitions : Partitions) (nodeId : UInt16) :
    Option (List RingEntry) :=
  partitions.ringEntries.getNeighborsClockwise nodeId (partitions.nodesPerPartition - 1)

def getNeighborCounterClockwiseByNodeId (partitions : Partitions) (nodeId : UInt16) :
    Option (Option RingEntry) :=
  partitions.ringEntries.getNeighborCounterClockwise nodeId

def getNeighborClockwiseByNodeId (partitions : Partitions) (nodeId : UInt16) :
    Option (Option RingEntry) :=
  partitions.ringEntries.getNeighborClockwise nodeId

def getDistance (partitions : Partitions) (nodeB : UInt16) : Option Int :=
  partitions.ringEntries.getDistance partitions.selfEntry.nodeId nodeB

def getDistanceClockwise (partitions : Partitions) (nodeB : UInt16) : Option UInt32 :=
  partitions.ringEntries.getDistanceClockwise partitions.selfEntry.nodeId nodeB

def getDistanceCounterClockwise (partitions : Partitions) (nodeB : UInt16) : Option UInt32 :=
  partitions.ringEntries.getDistanceCounterClockwise partitions.selfEntry.nodeId nodeB

def isClockwiseNeighbor (partitions : Partitions) (nodeB : UInt16) : Option Bool :=
  (partitions.getDistanceClockwise nodeB).map (· < partitions.nodesPerPartition)

def getOplogIdOfOtherNodeBySelfOplogId (usePartitions : Bool) (partitions : Partitions)
    (otherNodeId : UInt16) (selfOplogId : UInt32) : Option UInt32 := do
  if !usePartitions then return 0
  else if ← partitions.isClockwiseNeighbor otherNodeId then
    let oplogId := selfOplogId + (← partitions.getDistanceClockwise otherNodeId)
    return if oplogId ≥ partitions.nodesPerPartition then 0 else oplogId
  else
    let distance ← partitions.getDistanceCounterClockwise otherNodeId
    let otherOplogId := selfOplogId.toInt32 - distance.toInt32
    return if otherOplogId ≤ 0 then partitions.nodesPerPartition - 1 else otherOplogId.toUInt32

def isNeighbor (partitions : Partitions) (otherNode : UInt16) : Option Bool :=
  (partitions.getDistance otherNode).map fun distance =>
    distance.natAbs < partitions.nodesPerPartition.toNat

def deleteByNodeId (partitions : Partitions) (nodeId : UInt16) : Option Partitions :=
  (partitions.ringEntries.deleteByNodeId nodeId).map fun ringEntries =>
    { partitions with ringEntries }

section hash
variable (calculateMD5 : SimpleString → UInt64)

/-- `calculateMD5(s) % maxSize`. -/
def hashToPosition (maxSize : UInt32) (s : SimpleString) : Option UInt32 :=
  if maxSize = 0 then none else some (calculateMD5 s % maxSize.toUInt64).toUInt32

def getRingPositionByKey (partitions : Partitions) (key : SimpleString) : Option UInt32 :=
  hashToPosition calculateMD5 partitions.maxSize key

def getDistanceOfKey (partitions : Partitions) (key : SimpleString) : Option UInt32 := do
  let ringPosition ← partitions.getRingPositionByKey calculateMD5 key
  let nodeThatWouldHoldThatKey ← partitions.ringEntries.getRingEntryBelongsToPosition ringPosition
  let distance ← partitions.ringEntries.getDistance partitions.selfEntry.nodeId
    nodeThatWouldHoldThatKey.nodeId
  return UInt32.ofNat distance.natAbs

def canHoldKey (partitions : Partitions) (key : SimpleString) : Option Bool :=
  (partitions.getDistanceOfKey calculateMD5 key).map fun distance =>
    distance < partitions.nodesPerPartition

/-- `std::to_string(nodeId)`. -/
def nodeIdToString (nodeId : UInt16) : SimpleString :=
  (Nat.toDigits 10 nodeId.toNat).map fun digit => UInt8.ofNat digit.toNat

def addByNode (partitions : Partitions) (nodeId : UInt16) : Option (Partitions × RingEntry) := do
  let ringPosition ← hashToPosition calculateMD5 partitions.maxSize (nodeIdToString nodeId)
  let ringEntry : RingEntry := { nodeId, ringPosition }
  let ringEntries ← partitions.ringEntries.add ringEntry
  return ({ partitions with ringEntries }, ringEntry)

end hash

end Partitions

/-! ### The other nodes -/

/-- The ids of the other nodes, and of those in each partition. -/
structure ClusterNodes where
  allNodesById : Finset UInt16
  nodesInPartitions : List (Finset UInt16)
deriving DecidableEq

namespace ClusterNodes

/-- An access to `nodesInPartitions[partitionId]`. -/
def modifyPartition (clusterNodes : ClusterNodes) (partitionId : Nat)
    (f : Finset UInt16 → Finset UInt16) : Option ClusterNodes :=
  if partitionId < clusterNodes.nodesInPartitions.length then
    some { clusterNodes with
      nodesInPartitions := clusterNodes.nodesInPartitions.modify partitionId f }
  else none

def addNode (clusterNodes : ClusterNodes) (nodeId : UInt16) : ClusterNodes :=
  { clusterNodes with allNodesById := insert nodeId clusterNodes.allNodesById }

def addNodeInPartition (clusterNodes : ClusterNodes) (nodeId : UInt16) (partitionId : Nat) :
    Option ClusterNodes :=
  (clusterNodes.modifyPartition partitionId (insert nodeId)).map (addNode · nodeId)

/-- The node replaces one with the same id, whose connection is closed. -/
def addNodesInPartition (otherNodesToSet : List UInt16) (partitionId : Nat)
    (clusterNodes : ClusterNodes) : Option ClusterNodes :=
  otherNodesToSet.foldlM
    (fun clusterNodes nodeId => addNodeInPartition clusterNodes nodeId partitionId) clusterNodes

def removeNodeFromPartition (clusterNodes : ClusterNodes) (nodeId : UInt16) (partitionId : Nat) :
    Option ClusterNodes :=
  clusterNodes.modifyPartition partitionId (·.erase nodeId)

def deleteNodeById (clusterNodes : ClusterNodes) (nodeId : UInt16) : ClusterNodes where
  allNodesById := clusterNodes.allNodesById.erase nodeId
  nodesInPartitions := clusterNodes.nodesInPartitions.map (·.erase nodeId)

def existsByNodeId (clusterNodes : ClusterNodes) (nodeId : UInt16) : Bool :=
  nodeId ∈ clusterNodes.allNodesById

/-- `setNumberPartitions` of new `ClusterNodes`. -/
def setNumberPartitions (clusterNodes : ClusterNodes) (numberPartitions : UInt32) : ClusterNodes :=
  { clusterNodes with
    nodesInPartitions := clusterNodes.nodesInPartitions ++ List.replicate numberPartitions.toNat ∅ }

end ClusterNodes

/-! ### The groups of a node -/

/-- A node of a partitioned cluster: its ring, whose own entry has the configured node id, and the
    other nodes. -/
structure PartitionedCluster where
  partitions : Partitions
  clusterNodes : ClusterNodes
deriving DecidableEq

namespace PartitionedCluster

def getNodeId (cluster : PartitionedCluster) : UInt16 := cluster.partitions.selfEntry.nodeId

def getPartitionIdByKey (calculateMD5 : SimpleString → UInt64) (cluster : PartitionedCluster)
    (key : SimpleString) : Option UInt32 :=
  cluster.partitions.getDistanceOfKey calculateMD5 key

/-! `PartitionNeighborsNodesSetter` -/

def getRingEntriesPartitionExceptSelf (cluster : PartitionedCluster) (actualEntry : RingEntry) :
    Option (List RingEntry) := do
  let neighbors ← cluster.partitions.getNeighborsClockwiseByNodeId actualEntry.nodeId
  let entry ← cluster.partitions.ringEntries.getByNodeId actualEntry.nodeId
  return (neighbors ++ [entry]).filter (cluster.getNodeId ≠ ·.nodeId)

/-- The nodes of the response with the ids of the entries. -/
def toNodesFromRingEntries (ringEntries : List RingEntry) (nodes : List UInt16) : List UInt16 :=
  ringEntries.filterMap fun entry => nodes.find? (· == entry.nodeId)

/-- The loop of `updateNeighborsWithNodes`. -/
def updateNeighborsFrom (nodes : List UInt16) :
    (remaining i : Nat) → (actualEntry : RingEntry) → PartitionedCluster → Option PartitionedCluster
  | 0, _, _, cluster => some cluster
  | remaining + 1, i, actualEntry, cluster => do
    let ringEntriesActualPartition ← cluster.getRingEntriesPartitionExceptSelf actualEntry
    let nodesActualPartition := toNodesFromRingEntries ringEntriesActualPartition nodes
    let clusterNodes ← cluster.clusterNodes.addNodesInPartition nodesActualPartition i
    let cluster := { cluster with clusterNodes }
    match ← cluster.partitions.getNeighborCounterClockwiseByNodeId actualEntry.nodeId with
    | some actualEntry => updateNeighborsFrom nodes remaining (i + 1) actualEntry cluster
    | none => return cluster

/-- `nodes` are those of the `GetClusterConfigResponse`. -/
def updateNeighborsWithNodes (nodes : List UInt16) (cluster : PartitionedCluster) :
    Option PartitionedCluster :=
  updateNeighborsFrom nodes cluster.partitions.nodesPerPartition.toNat 0
    cluster.partitions.selfEntry cluster

/-- The member that a new node displaces. Head and tail are both the last neighbour. -/
def getOldNodeIdPartitionMember (cluster : PartitionedCluster) (nodesInPartition : List RingEntry) :
    Option UInt16 := do
  let tailPartitionNode ← nodesInPartition.getLast?
  let headPartitionNode ← nodesInPartition.getLast?
  let distanceToHeadFromSelf ← cluster.partitions.getDistance headPartitionNode.nodeId
  let old ←
    if 0 ≤ distanceToHeadFromSelf then
      cluster.partitions.getNeighborClockwiseByNodeId tailPartitionNode.nodeId
    else cluster.partitions.getNeighborCounterClockwiseByNodeId headPartitionNode.nodeId
  old.map (·.nodeId)

/-- The body of the loop of `updateNeighborsWithNewNode`. -/
def updatePartitionWithNewNode (newNode : UInt16) (actualPartitionId : Nat)
    (actualHeadPartition : RingEntry) (cluster : PartitionedCluster) :
    Option PartitionedCluster := do
  let neighborsActualPartition ←
    cluster.partitions.getNeighborsClockwiseByNodeId actualHeadPartition.nodeId
  if neighborsActualPartition.any (·.nodeId == newNode) then
    let clusterNodes ← cluster.clusterNodes.addNodeInPartition newNode actualPartitionId
    let oldMember ← cluster.getOldNodeIdPartitionMember neighborsActualPartition
    let clusterNodes ← clusterNodes.removeNodeFromPartition oldMember actualPartitionId
    return { cluster with clusterNodes }
  else return cluster

/-- The loop of `updateNeighborsWithNewNode`. -/
def updateNewNodeFrom (newNode : UInt16) :
    (remaining actualPartitionId : Nat) → (actualHeadPartition : RingEntry) → PartitionedCluster →
      Option PartitionedCluster
  | 0, _, _, cluster => some cluster
  | remaining + 1, actualPartitionId, actualHeadPartition, cluster => do
    let cluster ← updatePartitionWithNewNode newNode actualPartitionId actualHeadPartition cluster
    match ← cluster.partitions.getNeighborCounterClockwiseByNodeId actualHeadPartition.nodeId with
    | some actualHeadPartition =>
      updateNewNodeFrom newNode remaining (actualPartitionId + 1) actualHeadPartition cluster
    | none => return cluster

def updateNeighborsWithNewNode (newNode : UInt16) (cluster : PartitionedCluster) :
    Option PartitionedCluster :=
  updateNewNodeFrom newNode cluster.partitions.nodesPerPartition.toNat 0
    cluster.partitions.selfEntry cluster

def updateNeighborsWithDeletedNode (deletedNode : UInt16) (cluster : PartitionedCluster) :
    Option PartitionedCluster :=
  (cluster.partitions.deleteByNodeId deletedNode).map fun partitions =>
    { partitions, clusterNodes := cluster.clusterNodes.deleteNodeById deletedNode }

/-! `setClusterConfig` and the change handlers, up to the moving of keys -/

/-- The groups of a node that starts with the ring. -/
def setUpGroups (partitions : Partitions) (nodes : List UInt16) : Option PartitionedCluster :=
  let clusterNodes := ClusterNodes.setNumberPartitions ⟨∅, []⟩ partitions.nodesPerPartition
  updateNeighborsWithNodes nodes
    ⟨partitions, nodes.foldl ClusterNodes.addNode clusterNodes⟩

def handleNewNode (calculateMD5 : SimpleString → UInt64) (newNode : UInt16)
    (cluster : PartitionedCluster) : Option PartitionedCluster := do
  let clusterNodes := cluster.clusterNodes.addNode newNode
  let (partitions, _) ← cluster.partitions.addByNode calculateMD5 newNode
  let cluster : PartitionedCluster := { partitions, clusterNodes }
  if cluster.getNodeId = newNode then return cluster
  else if ¬ (← partitions.isNeighbor newNode) then return cluster
  else updateNeighborsWithNewNode newNode cluster

/-- Deletion of another node. -/
def handleDeletion (deletedNode : UInt16) (cluster : PartitionedCluster) :
    Option PartitionedCluster :=
  if cluster.clusterNodes.existsByNodeId deletedNode then
    updateNeighborsWithDeletedNode deletedNode
      { cluster with clusterNodes := cluster.clusterNodes.deleteNodeById deletedNode }
  else some cluster

end PartitionedCluster

end MemDb
