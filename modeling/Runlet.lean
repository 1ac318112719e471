import Runlet.Lib.Transition
import Runlet.Lib.Text
import Runlet.Lib.UrlText
import Runlet.Lib.JsonText
import Runlet.Lib.JsonScan
import Runlet.Lib.JsonMembers
import Runlet.Lib.JsonNames
import Runlet.Lib.Pipeline
import Runlet.Lib.Ledger
import Runlet.Lib.Budget
import Runlet.Lib.Merge
import Runlet.Lib.Channel
import Runlet.Lib.Framing
import Runlet.Lib.DecimalFormat
import Runlet.Lib.DecimalRounding
import Runlet.Lib.Apportionment
import Runlet.Lib.PercentText
import Runlet.Lib.UrlNormal
import Runlet.Lib.XmlText
import Runlet.Lib.Separator
import Runlet.Lib.Binary64
import Runlet.Lib.NumberText
import Runlet.Lib.JsObject
import Runlet.Lib.StableSort
import Runlet.Lib.CheckDigit
import Runlet.Lib.Tiling
import Runlet.Lib.Gregorian
import Runlet.Lib.Rfc3339
import Runlet.Lib.LocalTime
import Runlet.Lib.Walk
import Runlet.Lib.FileName
import Runlet.Core.Errors
import Runlet.Core.Ssrf
import Runlet.Core.Embeddings
import Runlet.Core.Http
import Runlet.Core.LocalEgress
import Runlet.Core.S3
import Runlet.Core.S3Requests
import Runlet.Core.S3Recording
import Runlet.Core.S3Signing
import Runlet.Core.S3Objects
import Runlet.Core.S3Verify
import Runlet.Core.S3Listing
import Runlet.Core.S3Usage
import Runlet.Core.Capability
import Runlet.Core.MuxRuns
import Runlet.Core.OpBudgets
import Runlet.Core.Logs
import Runlet.Core.Pool
import Runlet.Core.Classify
import Runlet.Core.EngineErrors
import Runlet.Core.Bytecode
import Runlet.Core.Registries
import Runlet.Core.RegistryKeys
import Runlet.Core.Decimal
import Runlet.Core.SafeSplits
import Runlet.Core.ExactAllocation
import Runlet.Core.RoundTo
import Runlet.Core.MinorUnits
import Runlet.Core.Money
import Runlet.Core.TextSplit
import Runlet.Core.TextAffixes
import Runlet.Core.TextPadding
import Runlet.Core.Check
import Runlet.Core.CheckMod97
import Runlet.Core.Dict
import Runlet.Core.ListValues
import Runlet.Core.Grouping
import Runlet.Core.Identity
import Runlet.Core.Aggregates
import Runlet.Core.AggregateRuns
import Runlet.Core.AggregateOrder
import Runlet.Core.AggregateTexts
import Runlet.Core.AggregateExact
import Runlet.Core.SortBy
import Runlet.Core.Datetime
import Runlet.Core.DatetimeValue
import Runlet.Core.Chrono
import Runlet.Core.Boundaries
import Runlet.Core.ZonedBoundaries
import Runlet.Core.UtcBoundaries
import Runlet.Core.BusinessDays
import Runlet.Core.IsoRoundTrip
import Runlet.Core.Sys
import Runlet.Core.LatencyHistogram
import Runlet.Core.Scrapes
import Runlet.Wire.Messages
import Runlet.Wire.Frames
import Runlet.Wire.Breaker
import Runlet.Server.Quota
import Runlet.Server.Identity
import Runlet.Server.Gates
import Runlet.Server.Execute
import Runlet.Server.Egress
import Runlet.Server.Executions
import Runlet.Server.ExecutionAccounting
import Runlet.Server.ExecutionBounds
import Runlet.Server.Broker
import Runlet.Server.BrokerAlignment
import Runlet.Server.Response
import Runlet.Server.Telemetry
import Runlet.Server.Metering
import Runlet.Server.MetaIo
import Runlet.Server.KeyRefresh
import Runlet.Server.Events
import Runlet.Server.Contexts
import Runlet.Server.RawContexts
import Runlet.Server.Batch
import Runlet.Server.Decisions
import Runlet.Server.BatchResults
import Runlet.Server.ContextBounds
import Runlet.Server.Audit
import Runlet.Server.ItemParity
import Runlet.Server.Lifecycle
import Runlet.Server.Tenancy
import Runlet.Server.ResponseCap
import Runlet.Lib.Marking
import Runlet.Lib.ScriptHeap
import Runlet.Core.StdSurface
import Runlet.Lib.Confinement
import Runlet.Core.AmbientAuthority
import Runlet.Server.QuicPool
import Runlet.Lib.Matching
import Runlet.Core.TextShaping
import Runlet.Core.CivilTime
import Runlet.Server.GoBroker
import Runlet.Server.Boot
import Runlet.Lib.Base64
import Runlet.Lib.TextCodec
import Runlet.Core.Codecs
import Runlet.Lib.QueryText
import Runlet.Core.HttpWrapper
import Runlet.Lib.Placeholders
import Runlet.Server.Logger
