import KVDeadlineScheduler.Library.OrderedDict
import KVDeadlineScheduler.Library.Replay
import KVDeadlineScheduler.Events
import KVDeadlineScheduler.Library.Selection
import KVDeadlineScheduler.Policies
import KVDeadlineScheduler.Metrics
import KVDeadlineScheduler.Simulator.State
import KVDeadlineScheduler.Simulator.Merge
import KVDeadlineScheduler.Simulator.Run
import KVDeadlineScheduler.Simulator.Stores
import KVDeadlineScheduler.Simulator.Capacity
import KVDeadlineScheduler.Simulator.Effects
import KVDeadlineScheduler.Simulator.Latency
import KVDeadlineScheduler.Simulator.HbmBound
import KVDeadlineScheduler.Simulator.Residency
import KVDeadlineScheduler.Simulator.DramBound
import KVDeadlineScheduler.Simulator.Validation
import KVDeadlineScheduler.Simulator.Pinning
import KVDeadlineScheduler.Simulator.Determinism
import KVDeadlineScheduler.Library.LruInclusion
import KVDeadlineScheduler.Simulator.LruAnomaly
import KVDeadlineScheduler.Urgency
import KVDeadlineScheduler.Simulator.DecodeCritical
import KVDeadlineScheduler.Simulator.Ledger
import KVDeadlineScheduler.Simulator.Frame
import KVDeadlineScheduler.Simulator.Peak
import KVDeadlineScheduler.Library.MaskedIndex
import KVDeadlineScheduler.Ring.Header
import KVDeadlineScheduler.Library.BoundedQueue
import KVDeadlineScheduler.Ring.Fifo
import KVDeadlineScheduler.Ring.Threads
import KVDeadlineScheduler.Ring.Spsc
import KVDeadlineScheduler.Ring.Full
import KVDeadlineScheduler.Importer.Estimator
import KVDeadlineScheduler.Importer.Import
import KVDeadlineScheduler.Library.Journal
import KVDeadlineScheduler.Importer.Segments
import KVDeadlineScheduler.Library.Decimal
import KVDeadlineScheduler.Library.Double
import KVDeadlineScheduler.Library.Json
import KVDeadlineScheduler.Library.JsonRoundTrip
import KVDeadlineScheduler.Library.Lines
import KVDeadlineScheduler.Trace.Fields
import KVDeadlineScheduler.Trace.Record
import KVDeadlineScheduler.Trace.Recorder
import KVDeadlineScheduler.Library.SignedWord
import KVDeadlineScheduler.Shrinker.Score
import KVDeadlineScheduler.Shrinker.Registry
import KVDeadlineScheduler.Library.IntervalTree
import KVDeadlineScheduler.Rfc.Registry
import KVDeadlineScheduler.Shrinker.Ranking
import KVDeadlineScheduler.Rfc.Keyed
import KVDeadlineScheduler.Adapter.VllmAdapter
import KVDeadlineScheduler.Adapter.Hooks
import KVDeadlineScheduler.Adapter.PriorityBonus
import KVDeadlineScheduler.Adapter.Failures
import KVDeadlineScheduler.Simulator.Lifetime
import KVDeadlineScheduler.Importer.Replay
import KVDeadlineScheduler.Simulator.Demand
import KVDeadlineScheduler.Importer.Pressure
import KVDeadlineScheduler.Library.Forest
import KVDeadlineScheduler.Speculative.SpecIntent
import KVDeadlineScheduler.Speculative.Verify
import KVDeadlineScheduler.Speculative.DraftWorkload
import KVDeadlineScheduler.Speculative.Lifecycle
import KVDeadlineScheduler.Speculative.Fates
import KVDeadlineScheduler.Simulator.Hints
import KVDeadlineScheduler.Library.Contiguous
import KVDeadlineScheduler.Simulator.Composition
import KVDeadlineScheduler.Simulator.Decay
import KVDeadlineScheduler.Simulator.Prefetch
import KVDeadlineScheduler.Library.GreedyEviction
import KVDeadlineScheduler.Simulator.Displacement
import KVDeadlineScheduler.Simulator.Exits
import KVDeadlineScheduler.Simulator.Recency
import KVDeadlineScheduler.Adapter.Mirror
import KVDeadlineScheduler.Workload.Shape
import KVDeadlineScheduler.VictimChoice
import KVDeadlineScheduler.Adapter.Freed
import KVDeadlineScheduler.Shrinker.Scan
import KVDeadlineScheduler.Adapter.StepOrder
import KVDeadlineScheduler.Adapter.Stories
import KVDeadlineScheduler.Adapter.Declared
import KVDeadlineScheduler.Speculative.DraftShape
import KVDeadlineScheduler.Simulator.DemandBound
import KVDeadlineScheduler.Importer.ProxyLog
import KVDeadlineScheduler.Importer.ProxySegments
import KVDeadlineScheduler.Importer.ProxyOrder
import KVDeadlineScheduler.Speculative.Descendants
import KVDeadlineScheduler.Simulator.Percentiles
import KVDeadlineScheduler.Library.BucketTable
import KVDeadlineScheduler.Library.RcuTable
import KVDeadlineScheduler.Advisor.Concurrent
import KVDeadlineScheduler.Advisor.Procfs
import KVDeadlineScheduler.Advisor.Reclaim
import KVDeadlineScheduler.Adapter.MockTrace
import KVDeadlineScheduler.Importer.RequestFile
import KVDeadlineScheduler.Library.LruCompetitive
import KVDeadlineScheduler.Rfc.Dump
import KVDeadlineScheduler.Simulator.LruCompetitive
import KVDeadlineScheduler.Simulator.NoPressure
import KVDeadlineScheduler.Simulator.Relabelling
import KVDeadlineScheduler.Speculative.Suite
import KVDeadlineScheduler.Simulator.RepeatedMarks
import KVDeadlineScheduler.Adapter.Plugin
