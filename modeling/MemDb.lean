import MemDb.Db.Removal
import MemDb.Db.Balance
import MemDb.Db.Locks
import MemDb.Db.Convergence
import MemDb.Server.Connection
import MemDb.Persistence.BackedDiskRequestBuffer
import MemDb.Operators.DelayedOperations
import MemDb.Cluster.Propagation
import MemDb.Cluster.Versions
import MemDb.Cluster.CasExclusion
import MemDb.Cluster.RingHistory
import MemDb.Cluster.Distances
import MemDb.Cluster.MembershipChange
import MemDb.Cluster.Counters
import MemDb.Cluster.CasQuorum
import MemDb.Cluster.CasFailure
import MemDb.Operators.OneStore
import MemDb.Operators.CasStamps
import MemDb.Cluster.SyncSessions
import MemDb.Operators.ClockDiscipline
import MemDb.Operators.SingleNode
import MemDb.Client.Response
import MemDb.Client.Request
import MemDb.Client.ClusterConfig
import MemDb.ClusterManager.GetClusterConfig
import MemDb.Client.RingEntries
import MemDb.Cluster.SyncLoop
import MemDb.Persistence.OperationLogSerializer
import MemDb.Operators.MoveOplog
import MemDb.Operators.MovedStores
import MemDb.Operators.CounterReplication
import MemDb.Persistence.BlockCompaction
import MemDb.Persistence.SingleOperationLog
import MemDb.Operators.Restore
import MemDb.Operators.Durability
import MemDb.Cluster.CatchUp
import MemDb.Operators.CounterCompaction
import MemDb.Persistence.LogIteration
import MemDb.Persistence.SegmentFiles
import MemDb.Persistence.LogCodec
import MemDb.Messages.RequestDecoding
import MemDb.Cluster.MultipleResponses
import MemDb.Client.MultiResponses
import MemDb.Client.ClusterMemDbConnection
import MemDb.Cluster.ClusterNodes
import MemDb.Utils.BlockingQueue
import MemDb.Client.CountUpLatch
