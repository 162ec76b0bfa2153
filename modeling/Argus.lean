import Argus.Fleet
import Argus.Foundations.Program
import Argus.Otlp
import Argus.Store.MetricValues
import Argus.Store.Patterns
import Argus.Store.Purge
import Argus.Store.Workloads
import Argus.Agent.Client
import Argus.Agent.Delivery
import Argus.Agent.Ordering
import Argus.Agent.Kernel
import Argus.Fields
import Argus.Foundations.Like
import Argus.Foundations.Locks
import Argus.Foundations.Ranking
import Argus.Hub.Pages
import Argus.Insights.Enrich
import Argus.Store.Locks
import Argus.Store.Topology
import Argus.Store.TraceSearch
import Argus.Agent.SpoolQueue
import Argus.Agent.Events
import Argus.Hub.RulesLoop
import Argus.Agent.Drain
import Argus.Hub.DerivedViews
import Argus.Hub.Retention
import Argus.Store.LinkCounts
import Argus.Store.TraceReference
import Argus.Hub.Liveness
import Argus.Store.WorkloadLatest
import Argus.Agent.LogSends
import Argus.Agent.LogJson
import Argus.Agent.SpoolFailures
import Argus.Hub.LogsIngest
import Argus.Agent.KernelRuns
import Argus.Agent.Stats
import Argus.Hub.Discover
import Argus.Hub.PurgeReport
import Argus.Hub.MemoryPct
import Argus.Store.EvaluateSlo
import Argus.Store.SloTraffic
import Argus.Store.LogQuery
import Argus.Store.PatternCuts
import Argus.Hub.TraceDetail
import Argus.Hub.SpoolBlocks
import Argus.Insights.Group
import Argus.DecimalParsers
import Argus.FleetSummary
import Argus.Percentile
import Argus.Web.Stats
import Argus.Web.Series
import Argus.TransportUnits
import Argus.Hub.ExactlyOnce
import Argus.Agent.KernelReader
import Argus.Hub.Pressure
import Argus.Hub.SloLoop
import Argus.Hub.PatternQueue
import Argus.Agent.DrainOrder
import Argus.Hub.GroupRequests
import Argus.Hub.InsightsAnswer
