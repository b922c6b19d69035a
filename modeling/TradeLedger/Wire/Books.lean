import TradeLedger.Wire.Tools

/-!
# Scripts on the balance and order books

A script is a list of operations run in order on a fresh book; each answers a result and the
book's state after it. An operation that cannot be read, or that names a slot without a
record, answers `{"bad_step": true}` and leaves the book as it was. A fault in a balance
operation ends the whole script.
-/

namespace TradeLedger

namespace Wire

open Json

def badStep : Json := .obj [("bad_step", .bool true)]

/-! ## Balances -/

/-- One operation on a balance book. -/
inductive BalanceOp where
  | credit (asset : String) (amount : Decimal)
  | debit (asset : String) (amount : Decimal)
  | set (asset : String) (amount : Decimal)
  | get (asset : String)

def decBalanceOp (j : Json) : Option BalanceOp := do
  let asset ← req j "asset" str?
  match ← req j "do" str? with
  | "credit" => .credit asset <$> req j "amount" dec?
  | "debit" => .debit asset <$> req j "amount" dec?
  | "set" => .set asset <$> req j "amount" dec?
  | "get" => pure (.get asset)
  | _ => none

/-- Runs a balance operation: the book after it and the result (`null` but for `get`). -/
def BalanceOp.run (b : Balances) : BalanceOp → Except Fault (Balances × Json)
  | .credit a q => do pure (← b.credit a q, .null)
  | .debit a q => do pure (← b.debit a q, .null)
  | .set a q => pure (b.set a q, .null)
  | .get a => pure (b, dec (b.get a))

/-- The entries of a balance script, one per operation. -/
def balanceSteps (b : Balances) : List Json → Except Fault (List Json)
  | [] => pure []
  | j :: rest =>
    match decBalanceOp j with
    | none => (badStep :: ·) <$> balanceSteps b rest
    | some op => do
      let (b, result) ← op.run b
      let entry := Json.obj [("result", result), ("all", encBalances b.all), ("len", int b.size),
                             ("is_empty", .bool (b.size == 0))]
      (entry :: ·) <$> balanceSteps b rest

def balancesRequest (j : Json) : Option Json := do
  let ops ← req j "ops" items?
  pure (unlessFaulted ((fun steps => .obj [("steps", .arr steps)]) <$> balanceSteps Balances.empty ops))

/-! ## Order books -/

/-- One operation on an order book. -/
inductive BookOp where
  | insert (order : Order) (rawQuantity rawLeaves rawCum : Int64)
  | assignVenueId (index : Nat) (venueOrderId : VenueOrderId)
  | venueOwner (venueOrderId : VenueOrderId) (except : Option Nat)
  | lookup (ref : OrderRef)
  | find (ref : OrderRef)
  | get (index : Nat)
  | remove (index : Nat)
  | containsClient (clientOrderId : ClientOrderId)
  | terminalIndexes
  | beginPending (index : Nat) (status : OrderStatus)
  | restorePrevious (index : Nat)
  | noteTrade (index : Nat) (tradeId : TradeId)
  | hasTrade (index : Nat) (tradeId : TradeId)
  | refresh (index : Nat)
  | setStatus (index : Nat) (status : OrderStatus)

def decBookOp (j : Json) : Option BookOp := do
  let index := req j "index" nat?
  match ← req j "do" str? with
  | "insert" => do
    pure (.insert (← req j "order" decOrder) (← req j "raw_quantity" word?) (← req j "raw_leaves" word?)
      (← req j "raw_cum" word?))
  | "assign_venue_id" => do pure (.assignVenueId (← index) (← req j "venue_order_id" str?))
  | "venue_owner" => do pure (.venueOwner (← req j "venue_order_id" str?) (looseField j "index" nat?))
  | "lookup" => .lookup <$> req j "ref" decOrderRef
  | "find" => .find <$> req j "ref" decOrderRef
  | "get" => .get <$> index
  | "remove" => .remove <$> index
  | "contains_client" => .containsClient <$> req j "id" str?
  | "terminal_indexes" => pure .terminalIndexes
  | "begin_pending" => do pure (.beginPending (← index) (← req j "status" decStatus))
  | "restore_previous" => .restorePrevious <$> index
  | "note_trade" => do pure (.noteTrade (← index) (← req j "trade_id" str?))
  | "has_trade" => do pure (.hasTrade (← index) (← req j "trade_id" str?))
  | "refresh" => .refresh <$> index
  | "set_status" => do pure (.setStatus (← index) (← req j "status" decStatus))
  | _ => none

def updateRecord (b : OrderBook) (i : Nat) (f : OrderRecord → OrderRecord × Json) :
    Option (OrderBook × Json) := do
  let r ← b.get? i
  let (r', result) := f r
  pure (b.modify i fun _ => r', result)

/-- Runs an order book operation; `none` when it names a slot without a record. -/
def BookOp.run (lot : Precision) (b : OrderBook) : BookOp → Option (OrderBook × Json)
  | .insert o q l c =>
    let (i, b) := b.insert (OrderRecord.create o q l c)
    pure (b, int i)
  | .assignVenueId i v => pure (b.assignVenueId i v, .null)
  | .venueOwner v except => pure (b, opt .str (b.venueOwner v except))
  | .lookup ref => pure (b, opt nat (b.lookup ref))
  | .find ref => pure (b, opt encRecord (b.find? ref))
  | .get i => pure (b, opt encRecord (b.get? i))
  | .remove i =>
    match b.remove i with
    | some (r, b) => pure (b, encRecord r)
    | none => pure (b, .null)
  | .containsClient c => pure (b, .bool (b.containsClient c))
  | .terminalIndexes => pure (b, .arr ((b.slotsWhere (·.status.isTerminal)).map nat))
  | .beginPending i s => updateRecord b i fun r => (r.beginPending s, .null)
  | .restorePrevious i => updateRecord b i fun r => (r.restorePrevious, .null)
  | .noteTrade i t => updateRecord b i fun r => (r.noteTrade t, .bool !(r.hasTrade t))
  | .hasTrade i t => updateRecord b i fun r => (r, .bool (r.hasTrade t))
  | .refresh i => updateRecord b i fun r => (r.refresh lot, .null)
  | .setStatus i s => updateRecord b i fun r => ({ r with order := { r.order with status := s } }, .null)

def encBook (b : OrderBook) : Json :=
  .obj [("len", int b.size), ("is_empty", .bool (b.size == 0)), ("venue_indexed", int b.venueIndexed),
        ("records", .arr (b.records.map encRecord))]

/-- The entries of an order book script, one per operation. -/
def bookSteps (lot : Precision) (b : OrderBook) : List Json → List Json
  | [] => []
  | j :: rest =>
    match decBookOp j >>= BookOp.run lot b with
    | none => badStep :: bookSteps lot b rest
    | some (b, result) => .obj [("result", result), ("state", encBook b)] :: bookSteps lot b rest

def orderBookRequest (j : Json) : Option Json := do
  let lot ← match looseField j "lot" decPrecision with
    | some p => pure p
    | none => Precision.new? 1
  let ops ← req j "ops" items?
  pure (.obj [("steps", .arr (bookSteps lot OrderBook.empty ops))])

end Wire

end TradeLedger
