import Tokudo.Effect.Run
import Tokudo.Effect.Prog
import Tokudo.Effect.Pool
import Tokudo.Store.Ledger
import Tokudo.Store.Fifo
import Tokudo.Json.Value
import Tokudo.Json.Text
import Tokudo.Json.RoundTrip
import Tokudo.Core.Rig
import Tokudo.Core.Provenance
import Tokudo.Core.Traits
import Tokudo.Core.Pricing
import Tokudo.Core.Dispatch
import Tokudo.Core.Model
import Tokudo.Core.TextSerde
import Tokudo.Cache.Backend
import Tokudo.Cache.Memory
import Tokudo.Cache.Eviction
import Tokudo.Cache.Foyer
import Tokudo.Cache.Memvid
import Tokudo.Call.Transcript
import Tokudo.Call.World
import Tokudo.Call.Legs
import Tokudo.Call.Concurrent
import Tokudo.Call.Validation
import Tokudo.Call.Sequential
import Tokudo.Call.Transparency
import Tokudo.Call.Isolation
import Tokudo.Call.Accounting
import Tokudo.Core.KeyFields
import Tokudo.Call.Telemetry
import Tokudo.Route.Predictive
import Tokudo.Call.Routing
import Tokudo.Cache.FoyerRace
import Tokudo.Cache.Semantic
import Tokudo.Cache.Separation
import Tokudo.Report.Stats
import Tokudo.Report.Quality
import Tokudo.Report.Replay
import Tokudo.Report.Savings
import Tokudo.Json.Pretty
import Tokudo.Json.Fields
import Tokudo.Report.Saved
import Tokudo.Json.Path
import Tokudo.Json.Size
import Tokudo.Compress.JsonPruner
import Tokudo.Compress.Pruning
import Tokudo.Compress.Size
import Tokudo.Seq.Top
import Tokudo.Seq.Elide
import Tokudo.Seq.Words
import Tokudo.Compress.Llmlingua
import Tokudo.Compress.Selection
import Tokudo.Compress.Rendering
import Tokudo.Compress.Retention
import Tokudo.Compress.Surfaces
import Tokudo.Seq.Lcs
import Tokudo.Report.Rouge
import Tokudo.Report.Totals
import Tokudo.Json.Pointer
import Tokudo.Route.Validator
import Tokudo.Route.Nearest
import Tokudo.Cache.Reads
import Tokudo.Core.PriceResolution
import Tokudo.Seq.Fields
import Tokudo.Core.EdgeIds
import Tokudo.Json.Compact
import Tokudo.Call.Lineage
import Tokudo.Wire.Provenance
import Tokudo.Wire.Envelope
import Tokudo.Wire.Rows
import Tokudo.Effect.Instrument
import Tokudo.Effect.Tickets
import Tokudo.Wire.Emit
import Tokudo.Effect.Files
import Tokudo.Report.Artifacts
import Tokudo.Call.Failures
import Tokudo.Call.Backends
import Tokudo.Compress.Settled
import Tokudo.Compress.Budget
import Tokudo.Seq.Firsts
import Tokudo.Report.Workload
import Tokudo.Call.Durable
import Tokudo.Effect.Schedules
import Tokudo.Call.Schedules
import Tokudo.Report.Gate
import Tokudo.Call.Dropping
import Tokudo.Report.Measure
import Tokudo.Report.Measured
