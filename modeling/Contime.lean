import Contime.Library.SortedEntries
import Contime.Library.BTreeMap
import Contime.Library.ShardedMap
import Contime.Library.PeriodicReplay
import Contime.Library.AnchoredReplay
import Contime.Library.Transducer
import Contime.Library.Spacing
import Contime.Library.SignedArithmetic
import Contime.Library.Channel
import Contime.Library.OneShot
import Contime.Library.SwapRemove
import Contime.Library.Ledger
import Contime.Library.Exchange
import Contime.Model.Traits
import Contime.Model.Apply
import Contime.Model.History
import Contime.Model.Readers
import Contime.Model.Worker
import Contime.Model.Router
import Contime.Model.MemoryAccess
import Contime.Model.Teardown
import Contime.Model.Handles
import Contime.Model.Lanes
import Contime.Model.TestFixtures
import Contime.Model.OrderedValues
import Contime.History.ApplySpec
import Contime.History.Steps
import Contime.History.Lasting
import Contime.Abstract.Timeline
import Contime.Abstract.Retention
import Contime.Abstract.Chronicle
import Contime.Abstract.Seeding
import Contime.History.Canonical
import Contime.History.Runs
import Contime.History.ArrivalOrder
import Contime.History.Queries
import Contime.History.Probes
import Contime.History.BoundedReplay
import Contime.History.Locality
import Contime.History.FastPath
import Contime.History.SnapshotBatches
import Contime.History.QueryMeaning
import Contime.History.QuerySafety
import Contime.History.AuthoritativeSnapshots
import Contime.History.SnapshotOrder
import Contime.History.Pruning
import Contime.History.PrunedRedelivery
import Contime.History.CheckpointCounts
import Contime.History.Chronicles
import Contime.History.Replicas
import Contime.History.Accounting
import Contime.History.Deltas
import Contime.History.Ticks
import Contime.History.ClockArithmetic
import Contime.History.Costs
import Contime.History.Redelivery
import Contime.History.Silence
import Contime.History.Notifications
import Contime.History.ReconciliationRanges
import Contime.History.CachedAnswers
import Contime.Worker.Projection
import Contime.Worker.Inputs
import Contime.Worker.FirstSnapshot
import Contime.Worker.Clock
import Contime.Worker.Accounts
import Contime.Worker.Costs
import Contime.Handle.Completion
import Contime.Handle.Query
import Contime.System.Steps
import Contime.System.Memory
import Contime.System.Quiescence
import Contime.System.Service
import Contime.System.Progress
import Contime.System.Deliveries
import Contime.System.Determinism
import Contime.System.Traces
import Contime.System.PartialSends
import Contime.System.Linearization
import Contime.System.ReplyChannels
import Contime.System.MemoryAccess
import Contime.System.Teardown
import Contime.System.TeardownService
import Contime.System.Attendance
import Contime.System.Settling
import Contime.System.CallCosts
import Contime.System.Budget
import Contime.System.SafeQueries
import Contime.System.Sharding
import Contime.System.StoreLogs
import Contime.System.OrderedValues
import Contime.System.Lanes
