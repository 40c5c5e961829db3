import Residiuum.Atomics.Lifecycle
import Residiuum.Atomics.PlanCodec
import Residiuum.Atomics.StagingRun
import Residiuum.Cluster.RaftRpcSafe
import Residiuum.Cluster.RaftSnapshot
import Residiuum.Cluster.RebalanceSafe
import Residiuum.Cluster.ScanPages
import Residiuum.Format.Admit
import Residiuum.Format.AtomicClass
import Residiuum.Format.ScanAgree
import Residiuum.Format.SegmentSeal
import Residiuum.Heap.Authorize
import Residiuum.Heap.Catalog
import Residiuum.Lane.Coverage
import Residiuum.Query.ResultSize
import Residiuum.Query.RowOrder
import Residiuum.Sda.Collections
import Residiuum.Sda.FormatSafe
import Residiuum.Sda.JsonBridge
import Residiuum.Store.ReadYourWrites
import Residiuum.Store.Refusal
import Residiuum.Store.ResumeActive
import Residiuum.Store.OrderedReady
