import TradeLedger.Word
import TradeLedger.Basic
import TradeLedger.Decimal.Basic
import TradeLedger.Decimal.Rounding
import TradeLedger.Decimal.Arith
import TradeLedger.Decimal.Text
import TradeLedger.Double
import TradeLedger.Precision
import TradeLedger.KeyMap
import TradeLedger.Config
import TradeLedger.Error
import TradeLedger.Security
import TradeLedger.Order.Status
import TradeLedger.Order.Basic
import TradeLedger.Order.Book
import TradeLedger.Position
import TradeLedger.Margin
import TradeLedger.Balance
import TradeLedger.Event
import TradeLedger.Account.Basic
import TradeLedger.Account.Settlement
import TradeLedger.Account.Orders
import TradeLedger.Account.Sync
import TradeLedger.Account.Queries
import TradeLedger.Account.Api
import TradeLedger.Snapshot
import TradeLedger.Simulation
import TradeLedger.Wire.Json
import TradeLedger.Wire.Document
import TradeLedger.Wire.Codec
import TradeLedger.Wire.Tools
import TradeLedger.Wire.Books
import TradeLedger.Wire.Session
import TradeLedger.Wire.Service
import TradeLedger.Main
import TradeLedger.Proofs.KeyMap
import TradeLedger.Proofs.OrderBook
import TradeLedger.Proofs.Run
import TradeLedger.Proofs.Effects
import TradeLedger.Proofs.Commands
import TradeLedger.Proofs.Reachable
import TradeLedger.Proofs.Refusals
import TradeLedger.Proofs.Lifecycle
import TradeLedger.Proofs.BookConsistency
import TradeLedger.Proofs.Quantities
import TradeLedger.Proofs.Slots
import TradeLedger.Proofs.Fallback
import TradeLedger.Proofs.Redelivery
import TradeLedger.Proofs.Reconciliation
import TradeLedger.Proofs.Keeps
import TradeLedger.Proofs.Coherence
import TradeLedger.Proofs.Convergence
import TradeLedger.Proofs.Faults
import TradeLedger.Proofs.EventReplay
import TradeLedger.Proofs.LogRetention
import TradeLedger.Proofs.EventSteps
import TradeLedger.Proofs.EventTrace
import TradeLedger.Proofs.FillConservation
import TradeLedger.Proofs.ExactProducts
import TradeLedger.Proofs.FillOrder
import TradeLedger.Proofs.GridRoundTrip
import TradeLedger.Proofs.FillShapes
import TradeLedger.Proofs.UnrealizedDrift
import TradeLedger.Proofs.ReplaceConfirmation
import TradeLedger.Proofs.SnapshotOrder
import TradeLedger.Proofs.SnapshotRoundTrip
import TradeLedger.Proofs.Expiration
import TradeLedger.Proofs.CorrectRounding
import TradeLedger.Proofs.RiskMonotone
import TradeLedger.Proofs.EnumerationOrder
import TradeLedger.Proofs.DecimalReadBack
