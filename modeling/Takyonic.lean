import Takyonic.Raft.ConfigChanges
import Takyonic.Raft.MembershipRestart
import Takyonic.Raft.ReplicationSafety
import Takyonic.Raft.LogRepair
import Takyonic.Raft.Acknowledgements
import Takyonic.Raft.SnapshotTransfer
import Takyonic.Storage.SnapshotVisibility
import Takyonic.Storage.ScanSerializability
import Takyonic.Twopc.Atomicity
import Takyonic.Twopc.Isolation
import Takyonic.Twopc.PreparedDurability
import Takyonic.Storage.LsmStorage
import Takyonic.Storage.RecordSize
import Takyonic.Storage.FailedWrites
import Takyonic.Twopc.Visibility
import Takyonic.Buffer.PoolRefinement
import Takyonic.Buffer.Tiered
import Takyonic.Buffer.BlockRead
import Takyonic.Sql.SetOps
import Takyonic.Sql.Advisory
import Takyonic.Sql.Authorization
import Takyonic.Sql.Sort
import Takyonic.Sql.Correlated
import Takyonic.Sql.Frame
import Takyonic.Sql.Json
import Takyonic.Mpp.Aggregate
import Takyonic.Sql.JitAgreement
