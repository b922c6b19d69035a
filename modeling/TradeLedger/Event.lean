import TradeLedger.Order.Basic

/-!
# The event log

Every change of the ledger is recorded as an event with an id and the account's time. Ids start
at 1 and grow by one per event; the log keeps only the most recent `capacity` events, and
draining it empties it without resetting the ids.
-/

namespace TradeLedger

/-- What an event records. -/
inductive EventPayload where
  | orderAccepted (clientOrderId : ClientOrderId) (securityId : SecurityId) (side : Side)
      (quantity : Decimal) (price : Option Decimal)
  | orderStatusChanged (clientOrderId : ClientOrderId) (fromStatus toStatus : OrderStatus)
      (executionType : ExecutionType)
  | fill (clientOrderId : ClientOrderId) (securityId : SecurityId) (tradeId : TradeId) (side : Side)
      (price quantity : Decimal) (taker : Bool)
  | positionChanged (securityId : SecurityId) (oldRawSize newRawSize cost realizedPnl : Int64)
  | commission (securityId : SecurityId) (tradeId : TradeId) (rate : Decimal) (amount : Int64)
  | balanceChanged (asset : String) (delta newBalance : Decimal)
  | synced (securities orders positions balances : Nat) (margin : Int64)
  deriving DecidableEq

/-- One recorded event. -/
structure Event where
  id : Nat
  timestamp : Timestamp
  payload : EventPayload
  deriving DecidableEq

/-- The most recent events, up to a capacity. -/
structure EventLog where
  events : List Event
  nextId : Nat
  capacity : Nat
  deriving DecidableEq

namespace EventLog

/-- An empty log whose first event gets id 1. -/
def create (capacity : Nat) : EventLog := ⟨[], 1, capacity⟩

/-- Records an event at time `t`, dropping the oldest beyond the capacity. -/
def record (log : EventLog) (t : Timestamp) (payload : EventPayload) : EventLog :=
  let events := log.events ++ [⟨log.nextId, t, payload⟩]
  { log with events := events.drop (events.length - log.capacity), nextId := log.nextId + 1 }

/-- The last `n` events kept. -/
def recent (log : EventLog) (n : Nat) : List Event := log.events.drop (log.events.length - n)

def drain (log : EventLog) : List Event × EventLog := (log.events, { log with events := [] })

end EventLog

end TradeLedger
