import TradeLedger.Basic
import TradeLedger.Precision
import TradeLedger.Error
import TradeLedger.Order.Status

/-!
# Orders and their records

An `Order` is what the venue sees. The ledger keeps it in an `OrderRecord` together with its
quantities in raw lot units, the status to fall back to when a cancel or replace is refused, a
pending amendment and the trade ids already applied. The decimal quantities of the order are
always derived from the raw ones (`refresh`).
-/

namespace TradeLedger

/-- How long an order works. -/
inductive TimeInForce where
  | gtc
  | gtd
  | ioc
  | fok
  | postOnly
  deriving DecidableEq, Repr, Inhabited

def TimeInForce.names : List (String × TimeInForce) :=
  [("GTC", .gtc), ("GTD", .gtd), ("IOC", .ioc), ("FOK", .fok), ("PostOnly", .postOnly)]

/-- Limit or market. -/
inductive OrderType where
  | limit
  | market
  deriving DecidableEq, Repr, Inhabited

def OrderType.names : List (String × OrderType) := [("Limit", .limit), ("Market", .market)]

/-- An order as the venue sees it. -/
structure Order where
  clientOrderId : ClientOrderId
  venueOrderId : Option VenueOrderId
  securityId : SecurityId
  side : Side
  orderType : OrderType
  timeInForce : TimeInForce
  price : Option Decimal
  quantity : Decimal
  leavesQuantity : Decimal
  cumQuantity : Decimal
  status : OrderStatus
  expireAt : Option Timestamp
  createdAt : Timestamp
  deriving DecidableEq, Inhabited

namespace Order

def limit (clientOrderId : ClientOrderId) (securityId : SecurityId) (side : Side)
    (quantity price : Decimal) (timeInForce : TimeInForce) (createdAt : Timestamp) : Order :=
  { clientOrderId, venueOrderId := none, securityId, side, orderType := .limit, timeInForce,
    price := some price, quantity, leavesQuantity := quantity, cumQuantity := Decimal.zero,
    status := .pendingNew, expireAt := none, createdAt }

def market (clientOrderId : ClientOrderId) (securityId : SecurityId) (side : Side)
    (quantity : Decimal) (createdAt : Timestamp) : Order :=
  { clientOrderId, venueOrderId := none, securityId, side, orderType := .market,
    timeInForce := .ioc, price := none, quantity, leavesQuantity := quantity,
    cumQuantity := Decimal.zero, status := .pendingNew, expireAt := none, createdAt }

def withExpiry (o : Order) (expireAt : Timestamp) : Order :=
  { o with timeInForce := .gtd, expireAt := some expireAt }

def isFilled (o : Order) : Bool := o.status == .filled

end Order

/-- A price or size change waiting on the venue; the size is a new total in raw lots. -/
structure Amendment where
  price : Option Decimal
  rawQuantity : Option Int64
  deriving DecidableEq

/-- One order in the ledger, with the ledger's own bookkeeping. -/
structure OrderRecord where
  order : Order
  /-- The status to restore when a cancel or replace is refused. -/
  previousStatus : OrderStatus
  rawQuantity : Int64
  rawLeaves : Int64
  rawCum : Int64
  amendment : Option Amendment
  /-- Trade ids already applied, most recent first. -/
  tradeIds : List TradeId
  deriving DecidableEq

namespace OrderRecord

/-- A record of `order` with the given raw quantities; the fallback status is the order's. -/
def create (order : Order) (rawQuantity rawLeaves rawCum : Int64) : OrderRecord :=
  { order, previousStatus := order.status, rawQuantity, rawLeaves, rawCum, amendment := none,
    tradeIds := [] }

def status (r : OrderRecord) : OrderStatus := r.order.status

/-- Moves to `s`, remembering the status it leaves. -/
def beginPending (r : OrderRecord) (s : OrderStatus) : OrderRecord :=
  { r with previousStatus := r.order.status, order := { r.order with status := s } }

/-- Back to the remembered status, without the pending amendment. -/
def restorePrevious (r : OrderRecord) : OrderRecord :=
  { r with order := { r.order with status := r.previousStatus }, amendment := none }

def hasTrade (r : OrderRecord) (t : TradeId) : Bool := r.tradeIds.contains t

def noteTrade (r : OrderRecord) (t : TradeId) : OrderRecord :=
  if r.hasTrade t then r else { r with tradeIds := t :: r.tradeIds }

/-- The decimal quantities derived again from the raw ones. -/
def refresh (r : OrderRecord) (lot : Precision) : OrderRecord :=
  { r with order := { r.order with quantity := lot.fromRaw r.rawQuantity,
                                   leavesQuantity := lot.fromRaw r.rawLeaves,
                                   cumQuantity := lot.fromRaw r.rawCum } }

@[simp] theorem beginPending_status (r : OrderRecord) (s : OrderStatus) :
    (r.beginPending s).status = s := rfl

@[simp] theorem restorePrevious_status (r : OrderRecord) :
    r.restorePrevious.status = r.previousStatus := rfl

@[simp] theorem refresh_status (r : OrderRecord) (lot : Precision) :
    (r.refresh lot).status = r.status := rfl

@[simp] theorem hasTrade_noteTrade (r : OrderRecord) (t : TradeId) :
    (r.noteTrade t).hasTrade t = true := by
  unfold noteTrade
  split
  · assumption
  · simp [hasTrade]

end OrderRecord

/-- A conjunction of optional conditions on an order; an absent condition holds always. -/
structure OrderFilter where
  securityId : Option SecurityId := none
  side : Option Side := none
  venueOrderId : Option VenueOrderId := none
  clientOrderId : Option ClientOrderId := none
  status : Option OrderStatus := none
  deriving DecidableEq, Inhabited

/-- Whether the order meets every condition of the filter. An order without a venue id meets
no venue-id condition. -/
def OrderFilter.matches (f : OrderFilter) (o : Order) : Bool :=
  (f.securityId.all (· == o.securityId)) &&
  (f.side.all (· == o.side)) &&
  (f.venueOrderId.all (fun v => o.venueOrderId == some v)) &&
  (f.clientOrderId.all (· == o.clientOrderId)) &&
  (f.status.all (· == o.status))

/-- The acknowledgment of one transition, handed back to the requester. -/
structure ExecutionReport where
  seqNum : Nat
  clientOrderId : ClientOrderId
  venueOrderId : Option VenueOrderId
  executionType : ExecutionType
  orderStatus : OrderStatus
  securityId : SecurityId
  side : Side
  price : Option Decimal
  leavesQuantity : Decimal
  cumQuantity : Decimal
  fillPrice : Option Decimal
  fillQuantity : Option Decimal
  tradeId : Option TradeId
  rejectReason : Option RejectReason
  timestamp : Timestamp
  deriving DecidableEq, Inhabited

namespace ExecutionReport

def ofOrder (o : Order) (e : ExecutionType) (t : Timestamp) : ExecutionReport :=
  { seqNum := 0, clientOrderId := o.clientOrderId, venueOrderId := o.venueOrderId,
    executionType := e, orderStatus := o.status, securityId := o.securityId, side := o.side,
    price := o.price, leavesQuantity := o.leavesQuantity, cumQuantity := o.cumQuantity,
    fillPrice := none, fillQuantity := none, tradeId := none, rejectReason := none, timestamp := t }

def withFill (r : ExecutionReport) (t : TradeId) (price quantity : Decimal) : ExecutionReport :=
  { r with tradeId := some t, fillPrice := some price, fillQuantity := some quantity }

def withRejectReason (r : ExecutionReport) (reason : RejectReason) : ExecutionReport :=
  { r with rejectReason := some reason }

def withSeqNum (r : ExecutionReport) (n : Nat) : ExecutionReport := { r with seqNum := n }

end ExecutionReport

end TradeLedger
