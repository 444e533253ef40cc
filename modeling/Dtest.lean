import Dtest.Lib.Enabling
import Dtest.Lib.Guarded
import Dtest.Lib.Progress
import Dtest.Lib.SortedMap
import Dtest.Lib.JsonReader
import Dtest.Lib.Pipe
import Dtest.Scheduler.Setup
import Dtest.Scheduler.Invariant
import Dtest.Scheduler.Order
import Dtest.Scheduler.Tally
import Dtest.Scheduler.Complete
import Dtest.Scheduler.Verdict
import Dtest.Scheduler.Registration
import Dtest.Memory.Model
import Dtest.Memory.Mapped
import Dtest.Memory.Calls
import Dtest.Memory.Effects
import Dtest.Memory.Accounting
import Dtest.Memory.Ledger
import Dtest.Memory.Tracking
import Dtest.Memory.Removal
import Dtest.Memory.Atomic
import Dtest.Memory.Locking
import Dtest.Memory.Totals
import Dtest.UnitTest.Resources
import Dtest.UnitTest.Leak
import Dtest.UnitTest.Window
import Dtest.UnitTest.Run
import Dtest.UnitTest.Performance
import Dtest.UnitTest.Distributed
import Dtest.Hooks.Heap
import Dtest.Hooks.HeapFaithful
import Dtest.Hooks.Threads
import Dtest.Hooks.ThreadsFaithful
import Dtest.Hooks.Map
import Dtest.Hooks.MapFaithful
import Dtest.Net.Socket
import Dtest.Net.Message
import Dtest.Net.Truncated
import Dtest.Net.Delivery
import Dtest.Net.Codec
import Dtest.Net.Writer
import Dtest.Net.Poll
import Dtest.Net.Connections
import Dtest.Net.Mtu
import Dtest.Lib.CString
import Dtest.Net.Address
import Dtest.Driver.Model
import Dtest.Driver.Wait
import Dtest.Driver.Join
import Dtest.Driver.Pool
import Dtest.Driver.Launch
import Dtest.Driver.NumWorkers
import Dtest.Driver.Stale
import Dtest.Cluster.Model
import Dtest.Cluster.Moves
import Dtest.Cluster.Invariant
import Dtest.Cluster.Phases
import Dtest.Cluster.Workers
import Dtest.Cluster.Runs
import Dtest.Cluster.Progress
import Dtest.Lib.Interactive
import Dtest.Context.Model
import Dtest.Sandbox.Descriptors
import Dtest.Sandbox.ProcessRuns
import Dtest.Sandbox.Stdio
import Dtest.Sandbox.Tracking
import Dtest.Report.Text
import Dtest.Lib.JsonValue
import Dtest.Report.Jsonify
import Dtest.Report.Report
import Dtest.Report.Log
import Dtest.Lib.Mersenne
import Dtest.Random
import Dtest.Network.Holes
import Dtest.Network.Traffic
import Dtest.Session.Model
import Dtest.Session.Fresh
import Dtest.Context.Depth
import Dtest.Exchange.Schedule
import Dtest.CommandLine.Accepted
