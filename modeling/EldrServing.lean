import EldrServing.Lib.Machine
import EldrServing.Lib.Dict
import EldrServing.Lib.Linked
import EldrServing.Lib.Py
import EldrServing.KVCache.FreeQueue
import EldrServing.KVCache.BlockPool
import EldrServing.KVCache.PoolInvariant
import EldrServing.KVCache.Manager
import EldrServing.KVCache.ManagerInvariant
import EldrServing.KVCache.Accounting
import EldrServing.Request.BlockHashing
import EldrServing.Request.HashInvariant
import EldrServing.Engine.Deltas
import EldrServing.Engine.OutputProcessor
import EldrServing.Nixl.Scheduler
import EldrServing.Handoff.Text
import EldrServing.Proxy.Handle
import EldrServing.Proxy.Disposal
import EldrServing.Proxy.Capture
import EldrServing.Nixl.TpMapping
import EldrServing.Nixl.Handshake
import EldrServing.Sched.Prefix
import EldrServing.Sched.State
import EldrServing.Sched.Schedule
import EldrServing.Sched.Update
import EldrServing.Sched.ScheduleSteps
import EldrServing.Sched.UpdateSteps
import EldrServing.Sched.Queues
import EldrServing.Sched.Engine
import EldrServing.KVCache.Groups
import EldrServing.Sched.Receive
import EldrServing.Proxy.Loads
import EldrServing.KVCache.Ledger
import EldrServing.KVCache.LedgerCalls
import EldrServing.KVCache.Ownership
import EldrServing.Lib.Enumeration
import EldrServing.Sched.SessionQueues
import EldrServing.Sched.DelayedFree
import EldrServing.Lib.Generate
import EldrServing.Sched.UnderWay
import EldrServing.Sched.Budget
import EldrServing.Sched.Outputs
import EldrServing.Handoff.Tokens
import EldrServing.Signature.Transport
import EldrServing.KVCache.Slots
import EldrServing.Sched.Slots
import EldrServing.Routing.PrefixHash
import EldrServing.Lib.HashRing
import EldrServing.Lib.RealVec
import EldrServing.Routing.Jsq
import EldrServing.Routing.Signature
import EldrServing.Routing.CentroidUpdate
import EldrServing.Routing.UpdaterRuns
import EldrServing.Routing.Online
import EldrServing.Lib.Assignment
import EldrServing.Routing.Clustering
import EldrServing.Routing.Domain
import EldrServing.KVCache.HybridLookup
import EldrServing.Lib.Lowering
import EldrServing.KVCache.Lookup
import EldrServing.KVCache.Predictor
import EldrServing.KVCache.Window
import EldrServing.KVCache.Events
import EldrServing.Sched.Reset
import EldrServing.Workload.Drift
import EldrServing.KVCache.CommonPrefix
import EldrServing.Nixl.WorkerRecv
import EldrServing.Nixl.RecvMetadata
import EldrServing.Encoder.CacheManager
import EldrServing.Encoder.Accounting
import EldrServing.Encoder.Schedule
import EldrServing.Encoder.Backing
import EldrServing.Encoder.ScheduleSteps
import EldrServing.Encoder.Engine
