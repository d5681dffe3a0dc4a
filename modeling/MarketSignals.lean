import MarketSignals.Broker
import MarketSignals.Cache
import MarketSignals.Config
import MarketSignals.Config.Environment
import MarketSignals.Database.Row
import MarketSignals.Database.Session
import MarketSignals.Database.Statement
import MarketSignals.Decimal.Plain
import MarketSignals.Decimal.Shortest
import MarketSignals.Decision.Basic
import MarketSignals.Decision.Rules
import MarketSignals.Decision.Source
import MarketSignals.Event
import MarketSignals.Indicator.Compute
import MarketSignals.Indicator.Lookbacks
import MarketSignals.Indicator.Momentum
import MarketSignals.Indicator.Readings
import MarketSignals.Indicator.Series
import MarketSignals.Indicator.Trend
import MarketSignals.Json.Basic
import MarketSignals.Json.Bytes
import MarketSignals.Json.Escape
import MarketSignals.Json.Number
import MarketSignals.Json.Printer
import MarketSignals.Json.Reader
import MarketSignals.Json.Shape
import MarketSignals.Keyed
import MarketSignals.Metrics.Basic
import MarketSignals.Metrics.Exposition
import MarketSignals.Pipeline.Cycle
import MarketSignals.Pipeline.Delivery
import MarketSignals.Pipeline.Error
import MarketSignals.Pipeline.Process
import MarketSignals.Pipeline.Upkeep
import MarketSignals.Pipeline.World
import MarketSignals.Price
import MarketSignals.Proofs.Cache.Kept
import MarketSignals.Proofs.Cache.LastSet
import MarketSignals.Proofs.Config.Environment
import MarketSignals.Proofs.Database.Collapse
import MarketSignals.Proofs.Database.Counts
import MarketSignals.Proofs.Database.Cut
import MarketSignals.Proofs.Database.Listing
import MarketSignals.Proofs.Database.PriceWindow
import MarketSignals.Proofs.Database.Replays
import MarketSignals.Proofs.Database.Rows
import MarketSignals.Proofs.Database.SignalRows
import MarketSignals.Proofs.Float.Arithmetic
import MarketSignals.Proofs.Float.Bounds
import MarketSignals.Proofs.Float.Extended
import MarketSignals.Proofs.Float.Operations
import MarketSignals.Proofs.Float.Packing
import MarketSignals.Proofs.Float.Rounding
import MarketSignals.Proofs.Float.Shares
import MarketSignals.Proofs.Float.Unpacked
import MarketSignals.Proofs.Indicator.Agreement
import MarketSignals.Proofs.Indicator.AnyOrder
import MarketSignals.Proofs.Indicator.Compute
import MarketSignals.Proofs.Indicator.Flat
import MarketSignals.Proofs.Indicator.FullHistory
import MarketSignals.Proofs.Indicator.Places
import MarketSignals.Proofs.Indicator.Ranges
import MarketSignals.Proofs.Indicator.Sizes
import MarketSignals.Proofs.Indicator.Sliding
import MarketSignals.Proofs.Indicator.Strength
import MarketSignals.Proofs.Indicator.UnitInterval
import MarketSignals.Proofs.Indicator.Windows
import MarketSignals.Proofs.Json.Documents
import MarketSignals.Proofs.Json.Floats
import MarketSignals.Proofs.Json.Magnitude
import MarketSignals.Proofs.Json.Numerals
import MarketSignals.Proofs.Metrics.Counters
import MarketSignals.Proofs.Pipeline.AppendOnly
import MarketSignals.Proofs.Pipeline.CacheCoherence
import MarketSignals.Proofs.Pipeline.Calls
import MarketSignals.Proofs.Pipeline.Calm
import MarketSignals.Proofs.Pipeline.DecisionStage
import MarketSignals.Proofs.Pipeline.Draining
import MarketSignals.Proofs.Pipeline.History
import MarketSignals.Proofs.Pipeline.IndicatorStage
import MarketSignals.Proofs.Pipeline.Isolation
import MarketSignals.Proofs.Pipeline.Ledger
import MarketSignals.Proofs.Pipeline.Malformed
import MarketSignals.Proofs.Pipeline.Overlap
import MarketSignals.Proofs.Pipeline.Pruning
import MarketSignals.Proofs.Pipeline.Redelivery
import MarketSignals.Proofs.Pipeline.Rerecording
import MarketSignals.Proofs.Pipeline.Running
import MarketSignals.Proofs.Pipeline.SignalBounds
import MarketSignals.Proofs.Pipeline.SignalCount
import MarketSignals.Proofs.Pipeline.Slice
import MarketSignals.Proofs.Pipeline.Sweep
import MarketSignals.Proofs.Pipeline.WriteAhead
import MarketSignals.Proofs.Process.Path
import MarketSignals.Proofs.Redis.Interchange
import MarketSignals.Proofs.Remote.Acceptance
import MarketSignals.Proofs.Sorting
import MarketSignals.Proofs.Store.Bisection
import MarketSignals.Proofs.Store.FirstWrite
import MarketSignals.Proofs.Store.NewestSignals
import MarketSignals.Proofs.Store.Queries
import MarketSignals.Proofs.Store.Registrations
import MarketSignals.Proofs.Store.Retention
import MarketSignals.Proofs.Text.Digits
import MarketSignals.Proofs.Text.Order
import MarketSignals.Proofs.Text.Trimmed
import MarketSignals.Proofs.Time.DateOrder
import MarketSignals.Proofs.Time.DaysBefore
import MarketSignals.Proofs.Time.Literal
import MarketSignals.Proofs.Time.Reading
import MarketSignals.Proofs.Time.Rfc3339
import MarketSignals.Proofs.Wire.Published
import MarketSignals.Proofs.Wire.RoundTrip
import MarketSignals.Redis.Command
import MarketSignals.Remote.Reply
import MarketSignals.Remote.Service
import MarketSignals.Remote.Status
import MarketSignals.Remote.Target
import MarketSignals.Scheduler
import MarketSignals.Signal
import MarketSignals.Store
import MarketSignals.Text.Blank
import MarketSignals.Text.Digits
import MarketSignals.Time.Calendar
import MarketSignals.Time.Reader
import MarketSignals.Time.Span
import MarketSignals.Time.Timestamp
import MarketSignals.Time.Written
import MarketSignals.Wire.Events
import MarketSignals.Wire.Values
