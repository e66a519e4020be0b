import Sohara.Runtime.Quiescence
import Sohara.Runtime.Shutdown
import Sohara.Triggers.Queue
import Sohara.Runtime.Metadata
import Sohara.Agent.Lifecycle
import Sohara.Agent.Managers
import Sohara.Plane.Commands
import Sohara.Agent.Breaker
import Sohara.Storage.JsonFile
import Sohara.Plane.Durability
import Sohara.Plane.Deliveries
import Sohara.Plane.Targets
import Sohara.Plane.Gateway
import Sohara.Runtime.LinearRun
import Sohara.Runtime.BatchDrain
import Sohara.Runtime.BatchConservation
import Sohara.Runtime.StateRaces
import Sohara.Runtime.DeliveryRaces
import Sohara.Runtime.Approving
import Sohara.Runtime.Coherence
import Sohara.Runtime.ParkingRaces
import Sohara.Async.Accounting
import Sohara.Async.History
import Sohara.Async.Tracking
import Sohara.Runtime.JoinMerge
import Sohara.Runtime.JoinLineage
import Sohara.Runtime.JoinChunks
import Sohara.Runtime.JoinGroups
import Sohara.Runtime.RetryLaw
import Sohara.Runtime.ContextShape
import Sohara.Runtime.LoopCondition
import Sohara.Runtime.Restart
import Sohara.Runtime.StaleSaves
import Sohara.Runtime.ImplicitWiring
import Sohara.Builtins.FileSink
import Sohara.Builtins.CsvColumns
import Sohara.Io.DbSink
import Sohara.Io.HttpClient
import Sohara.Io.StoredRows
import Sohara.Runtime.Extensions
import Sohara.Runtime.Incoming
import Sohara.Runtime.Approval
import Sohara.Runtime.ApprovedFiles
import Sohara.Digraph.Kahn
import Sohara.Runtime.Acceptance
import Sohara.Runtime.CycleChecks
import Sohara.Runtime.Termination
import Sohara.Runtime.World
import Sohara.Core.RoundTrip
import Sohara.Core.Assertions
import Sohara.Config.Templates
import Sohara.Core.Comparison
import Sohara.Runtime.RunMeaning
import Sohara.Core.Paths
import Sohara.Core.Projection
import Sohara.Core.ScriptValues
import Sohara.Runtime.TriggerLifecycle
import Sohara.Agent.Backoff
import Sohara.Storage.FailingCalls
import Sohara.Runtime.FailingLoad
import Sohara.Runtime.StoreKeys
import Sohara.Builtins.Accumulation
