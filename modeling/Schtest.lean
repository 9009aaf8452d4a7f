import Schtest.Transition.Core
import Schtest.Transition.Interleaving
import Schtest.Transition.Linearizable
import Schtest.Clock.Timer
import Schtest.Clock.Cookies
import Schtest.Semaphore.Call
import Schtest.Semaphore.Effect
import Schtest.Semaphore.Threads
import Schtest.Semaphore.Amount
import Schtest.Semaphore.Conservation
import Schtest.Semaphore.Linearizable
import Schtest.Semaphore.Wakeup
import Schtest.Semaphore.Stamps
import Schtest.Semaphore.Latency
import Schtest.Semaphore.Overflow
import Schtest.Semaphore.Deadline
import Schtest.Process.Barrier
import Schtest.Process.Context
import Schtest.Process.Progress
import Schtest.Process.Lifecycle
import Schtest.Process.Cleanup
import Schtest.PingPong.Rounds
import Schtest.PingPong.Crossed
import Schtest.PingPong.Service
import Schtest.Bench.Converge
import Schtest.Bench.Calibration
import Schtest.Bench.Exits
import Schtest.Main.Run
import Schtest.Cgroup.Current
import Schtest.Child.Delivery
import Schtest.Child.Channel
import Schtest.Child.Noticing
import Schtest.Child.Returning
import Schtest.Child.Projection
import Schtest.Child.Calls
import Schtest.Child.Client
import Schtest.Child.Descriptors
import Schtest.Child.Ends
import Schtest.Collections.SortedMap
import Schtest.Collections.Update
import Schtest.Collections.WordSet
import Schtest.Collections.Assignments
import Schtest.Collections.Regions
import Schtest.Collections.Claims
import Schtest.Numeric.Hump
import Schtest.Numeric.Interpolation
import Schtest.Numeric.Weights
import Schtest.Probability.Uniform
import Schtest.Shared.Retries
import Schtest.Shared.Vec
import Schtest.Shared.Create
import Schtest.Shared.Alignment
import Schtest.Shared.Store
import Schtest.Shared.Isolation
import Schtest.Shared.Linearizable
import Schtest.Sched.Stats
import Schtest.Sched.Totals
import Schtest.Sched.Ext
import Schtest.Stats.Reservoir
import Schtest.Stats.Uniformity
import Schtest.Stats.Collection
import Schtest.Stats.Estimates
import Schtest.Stats.Similarity
import Schtest.Stats.Visualize
import Schtest.Topology.Core
import Schtest.Topology.Partition
import Schtest.Topology.SpreadOut
import Schtest.Topology.ComeTogether
import Schtest.Topology.Workers
import Schtest.Topology.Fallback
import Schtest.Topology.MaskBounds
import Schtest.Topology.Affinity
import Schtest.Stats.Distribution
import Schtest.Cases.Verdict
import Schtest.Cases.Placement
