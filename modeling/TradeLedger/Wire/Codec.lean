import TradeLedger.Wire.Json
import TradeLedger.Account.Api
import TradeLedger.Snapshot

/-!
# The ledger's messages as JSON

Field names are snake case; enumerations are written by name; an enumeration value with a
payload is an object whose only key is the value's name (`{"Client": "c-1"}`); decimals are
strings; raw amounts, times and ids are numbers.

When read, a record (an account id, security, order, position, filter, venue position or venue
balance) may also be an array of all its fields in declaration order, while the fields of a
command or query are always an object.
-/

namespace TradeLedger

namespace Wire

open Json

def sideNames : List (String × Side) := [("Buy", .buy), ("Sell", .sell)]

/-! ## Writing -/

def encAccountId (a : AccountId) : Json := .obj [("exchange", .str a.exchange), ("name", .str a.name)]

def encOrderRef : OrderRef → Json
  | .client c => .obj [("Client", .str c)]
  | .venue v => .obj [("Venue", .str v)]

def encSide (s : Side) : Json := nameOf sideNames s

def encStatus (s : OrderStatus) : Json := nameOf OrderStatus.names s

def encReason (r : RejectReason) : Json := nameOf RejectReason.names r

def encSecurity (s : Security) : Json :=
  .obj [("security_id", int s.securityId), ("symbol", .str s.symbol),
        ("security_type", nameOf SecurityType.names s.securityType),
        ("min_price_increment", dec s.minPriceIncrement), ("round_lot", dec s.roundLot),
        ("multiplier", dec s.multiplier), ("is_inverse", .bool s.isInverse),
        ("maker_fee", dec s.makerFee), ("taker_fee", dec s.takerFee),
        ("underlying", .str s.underlying), ("quote_currency", .str s.quoteCurrency)]

def encInstrument (i : Instrument) : Json :=
  .obj [("security", encSecurity i.security), ("tick", int i.tick.scale), ("lot", int i.lot.scale)]

def encOrder (o : Order) : Json :=
  .obj [("client_order_id", .str o.clientOrderId), ("venue_order_id", opt .str o.venueOrderId),
        ("security_id", int o.securityId), ("side", encSide o.side),
        ("order_type", nameOf OrderType.names o.orderType),
        ("time_in_force", nameOf TimeInForce.names o.timeInForce), ("price", opt dec o.price),
        ("quantity", dec o.quantity), ("leaves_quantity", dec o.leavesQuantity),
        ("cum_quantity", dec o.cumQuantity), ("status", encStatus o.status),
        ("expire_at", opt word o.expireAt), ("created_at", word o.createdAt)]

def encRecord (r : OrderRecord) : Json :=
  .obj [("order", encOrder r.order), ("status", encStatus r.status),
        ("previous_status", encStatus r.previousStatus), ("raw_quantity", word r.rawQuantity),
        ("raw_leaves", word r.rawLeaves), ("raw_cum", word r.rawCum),
        ("amendment", opt (fun (a : Amendment) =>
          .obj [("price", opt dec a.price), ("raw_quantity", opt word a.rawQuantity)]) r.amendment)]

def encReport (r : ExecutionReport) : Json :=
  .obj [("seq_num", int r.seqNum), ("client_order_id", .str r.clientOrderId),
        ("venue_order_id", opt .str r.venueOrderId),
        ("execution_type", nameOf ExecutionType.names r.executionType),
        ("order_status", encStatus r.orderStatus), ("security_id", int r.securityId),
        ("side", encSide r.side), ("price", opt dec r.price),
        ("leaves_quantity", dec r.leavesQuantity), ("cum_quantity", dec r.cumQuantity),
        ("fill_price", opt dec r.fillPrice), ("fill_quantity", opt dec r.fillQuantity),
        ("trade_id", opt .str r.tradeId), ("reject_reason", opt encReason r.rejectReason),
        ("timestamp", word r.timestamp)]

def encPosition (p : Position) : Json :=
  .obj [("security_id", int p.securityId), ("cost", word p.cost), ("raw_size", word p.rawSize),
        ("cross", .bool p.cross)]

def encPositionView (p : PositionView) : Json :=
  .obj [("security_id", int p.securityId), ("quantity", dec p.quantity), ("cost", dec p.cost),
        ("cross", .bool p.cross)]

def encBalances (bs : List (String × Decimal)) : Json := .arr (bs.map fun (a, q) => .arr [.str a, dec q])

def encPayload : EventPayload → Json
  | .orderAccepted c sid side q p => .obj [("OrderAccepted", .obj [("client_order_id", .str c),
      ("security_id", int sid), ("side", encSide side), ("quantity", dec q), ("price", opt dec p)])]
  | .orderStatusChanged c f t e => .obj [("OrderStatusChanged", .obj [("client_order_id", .str c),
      ("from", encStatus f), ("to", encStatus t), ("execution_type", nameOf ExecutionType.names e)])]
  | .fill c sid t side p q taker => .obj [("Fill", .obj [("client_order_id", .str c),
      ("security_id", int sid), ("trade_id", .str t), ("side", encSide side), ("price", dec p),
      ("quantity", dec q), ("taker", .bool taker)])]
  | .positionChanged sid o n c r => .obj [("PositionChanged", .obj [("security_id", int sid),
      ("old_raw_size", word o), ("new_raw_size", word n), ("cost", word c), ("realized_pnl", word r)])]
  | .commission sid t rate amount => .obj [("Commission", .obj [("security_id", int sid),
      ("trade_id", .str t), ("rate", dec rate), ("amount", word amount)])]
  | .balanceChanged a d b => .obj [("BalanceChanged", .obj [("asset", .str a), ("delta", dec d),
      ("new_balance", dec b)])]
  | .synced s o p b m => .obj [("Synced", .obj [("securities", int s), ("orders", int o),
      ("positions", int p), ("balances", int b), ("margin", word m)])]

def encEvent (e : Event) : Json :=
  .obj [("id", int e.id), ("timestamp", word e.timestamp), ("payload", encPayload e.payload)]

def encApiError (e : ApiError) : Json :=
  .obj [("code", .str e.code), ("reject_reason", opt encReason e.rejectReason),
        ("message", .str e.message), ("fatal", .bool e.fatal)]

def encResponse : Response → Json
  | .report r => .obj [("Report", opt encReport r)]
  | .reports rs => .obj [("Reports", .arr (rs.map encReport))]
  | .pruned n => .obj [("Pruned", int n)]
  | .done => .str "Done"
  | .orders os => .obj [("Orders", .arr (os.map encOrder))]
  | .order o => .obj [("Order", opt encOrder o)]
  | .positions ps => .obj [("Positions", .arr (ps.map encPositionView))]
  | .balances bs => .obj [("Balances", encBalances bs)]
  | .value d => .obj [("Value", dec d)]
  | .error e => .obj [("Error", encApiError e)]

def encConfig (c : Config) : Json :=
  .obj [("margin_currency", .str c.marginCurrency), ("margin_precision", word c.marginPrecision),
        ("lot_tolerance", dec c.lotTolerance), ("max_events", int c.maxEvents),
        ("verbose", .bool c.verbose)]

def encSnapshot (s : AccountSnapshot) : Json :=
  .obj [("account", encAccountId s.account), ("margin_currency", .str s.marginCurrency),
        ("margin", dec s.margin), ("orders", .arr (s.orders.map encOrder)),
        ("positions", .arr (s.positions.map encPositionView)), ("balances", encBalances s.balances),
        ("taken_at", word s.takenAt)]

/-! ## Reading -/

def decAccountId (j : Json) : Option AccountId := do
  let j ← record? ["exchange", "name"] j
  pure ⟨← req j "exchange" str?, ← req j "name" str?⟩

def decOrderRef (j : Json) : Option OrderRef :=
  match j.tagged? with
  | some ("Client", some (.str c)) => some (.client c)
  | some ("Venue", some (.str v)) => some (.venue v)
  | _ => none

def decSide : Json → Option Side := name? sideNames

def decStatus : Json → Option OrderStatus := name? OrderStatus.names

def decReason : Json → Option RejectReason := name? RejectReason.names

def decSecurity (j : Json) : Option Security := do
  let j ← record? ["security_id", "symbol", "security_type", "min_price_increment", "round_lot",
    "multiplier", "is_inverse", "maker_fee", "taker_fee", "underlying", "quote_currency"] j
  pure { securityId := ← req j "security_id" nat?, symbol := ← req j "symbol" str?,
         securityType := ← req j "security_type" (name? SecurityType.names),
         minPriceIncrement := ← req j "min_price_increment" dec?, roundLot := ← req j "round_lot" dec?,
         multiplier := ← req j "multiplier" dec?, isInverse := ← req j "is_inverse" bool?,
         makerFee := ← req j "maker_fee" dec?, takerFee := ← req j "taker_fee" dec?,
         underlying := ← req j "underlying" str?, quoteCurrency := ← req j "quote_currency" str? }

def decOrder (j : Json) : Option Order := do
  let j ← record? ["client_order_id", "venue_order_id", "security_id", "side", "order_type",
    "time_in_force", "price", "quantity", "leaves_quantity", "cum_quantity", "status", "expire_at",
    "created_at"] j
  pure { clientOrderId := ← req j "client_order_id" str?,
         venueOrderId := ← optField j "venue_order_id" str?, securityId := ← req j "security_id" nat?,
         side := ← req j "side" decSide, orderType := ← req j "order_type" (name? OrderType.names),
         timeInForce := ← req j "time_in_force" (name? TimeInForce.names),
         price := ← optField j "price" dec?, quantity := ← req j "quantity" dec?,
         leavesQuantity := ← req j "leaves_quantity" dec?, cumQuantity := ← req j "cum_quantity" dec?,
         status := ← req j "status" decStatus, expireAt := ← optField j "expire_at" word?,
         createdAt := ← req j "created_at" word? }

def decPosition (j : Json) : Option Position := do
  let j ← record? ["security_id", "cost", "raw_size", "cross"] j
  pure { securityId := ← req j "security_id" nat?, cost := ← req j "cost" word?,
         rawSize := ← req j "raw_size" word?, cross := ← req j "cross" bool? }

def decPrecision (j : Json) : Option Precision := do
  Precision.new? (← j.word?).toInt

def decTerms (j : Json) : Option ContractTerms := do
  pure ⟨← req j "lot" decPrecision, ← req j "margin" decPrecision, ← req j "multiplier" dec?⟩

/-- An order filter; every condition may be missing or null. -/
def decFilter (j : Json) : Option OrderFilter := do
  let j ← record? ["security_id", "side", "venue_order_id", "client_order_id", "status"] j
  pure { securityId := ← optField j "security_id" nat?, side := ← optField j "side" decSide,
         venueOrderId := ← optField j "venue_order_id" str?,
         clientOrderId := ← optField j "client_order_id" str?, status := ← optField j "status" decStatus }

def decSync (j : Json) : Option SyncInput := do
  let _ ← j.fields?
  let position (p : Json) : Option VenuePosition := do
    let p ← record? ["account", "security_id", "quantity", "cost", "cross"] p
    pure { account := ← req p "account" decAccountId, securityId := ← req p "security_id" nat?,
           quantity := ← req p "quantity" dec?, cost := ← req p "cost" dec?, cross := ← req p "cross" bool? }
  let balance (b : Json) : Option VenueBalance := do
    let b ← record? ["account", "asset", "quantity"] b
    pure { account := ← req b "account" decAccountId, asset := ← req b "asset" str?,
           quantity := ← req b "quantity" dec? }
  pure { securities := ← req j "securities" (list? decSecurity), orders := ← req j "orders" (list? decOrder),
         positions := ← req j "positions" (list? position), balances := ← req j "balances" (list? balance),
         makerFee := ← optField j "maker_fee" dec?, takerFee := ← optField j "taker_fee" dec? }

def decCommand (j : Json) : Option Command :=
  match j.tagged? with
  | some ("CheckExpiration", none) | some ("CheckExpiration", some .null) => some .checkExpiration
  | some ("PruneClosed", none) | some ("PruneClosed", some .null) => some .pruneClosed
  | some (tag, some p) => match tag with
    | "SetTime" => (.setTime ·) <$> p.word?
    | "NewOrder" => (.newOrder ·) <$> decOrder p
    | "ConfirmNewOrder" => do
      pure (.confirmNewOrder (← req p "client_order_id" str?) (← req p "venue_order_id" str?))
    | "RejectNewOrder" => do
      pure (.rejectNewOrder (← req p "client_order_id" str?) (← req p "reason" decReason))
    | "CancelOrder" => (.cancelOrder ·) <$> decOrderRef p
    | "ConfirmCancelOrder" => (.confirmCancelOrder ·) <$> decOrderRef p
    | "RejectCancelOrder" => do
      pure (.rejectCancelOrder (← req p "order" decOrderRef) (← req p "reason" decReason))
    | "ReplaceOrder" => do
      pure (.replaceOrder (← req p "order" decOrderRef) (← optField p "price" dec?) (← optField p "quantity" dec?))
    | "ConfirmReplaceOrder" => do
      pure (.confirmReplaceOrder (← req p "order" decOrderRef) (← optField p "venue_order_id" str?))
    | "RejectReplaceOrder" => do
      pure (.rejectReplaceOrder (← req p "order" decOrderRef) (← req p "reason" decReason))
    | "PendingFilled" => (.pendingFilled ·) <$> decOrderRef p
    | "ConfirmFill" => do
      pure (.confirmFill (← req p "order" decOrderRef) (← req p "trade_id" str?) (← req p "price" dec?)
        (← req p "quantity" dec?) (← req p "taker" bool?))
    | "ConfirmExpiredOrder" => (.confirmExpiredOrder ·) <$> decOrderRef p
    | "Sync" => (.sync ·) <$> decSync p
    | _ => none
  | _ => none

def decMarks : Json → Option (List (SecurityId × Decimal)) := list? (pair? nat? dec?)

def decQuery (j : Json) : Option Query :=
  match j.tagged? with
  | some ("Positions", none) | some ("Positions", some .null) => some .positions
  | some ("Margin", none) | some ("Margin", some .null) => some .margin
  | some ("Balances", none) | some ("Balances", some .null) => some .balances
  | some (tag, some p) => match tag with
    | "Orders" => (.orders ·) <$> nullable? decFilter p
    | "Order" => (.order ·) <$> decOrderRef p
    | "UnrealizedPnl" => do
      pure (.unrealizedPnl (← req p "security_id" nat?) (← req p "mark" dec?))
    | "Leverage" => do
      pure (.leverage (← req p "marks" decMarks))
    | "AvailableMargin" => do
      pure (.availableMargin (← req p "marks" decMarks) (← req p "leverage" dec?))
    | _ => none
  | _ => none

/-! ## Standalone answers -/

def badInput : Json := .obj [("error", .str "BadInput")]

/-- The answer to a request whose computation overflowed a checked step. -/
def faulted : Json := .obj [("panic", .bool true)]

def failure (code message : String) : Json := .obj [("error", .str code), ("message", .str message)]

def refusal (e : LedgerError) : Json := failure e.code e.message

def unlessFaulted : Except Fault Json → Json
  | .ok j => j
  | .error _ => faulted

end Wire

end TradeLedger
