import TradeLedger.Account.Settlement

/-!
# The order state machine

Every venue round trip has two halves: a local request that takes effect at once (a new order
is `pendingNew`, a cancel `pendingCancel`, a replace `pendingReplace`), and the venue's
confirmation or refusal later. An acknowledgment that arrives twice, or late, changes nothing and
answers no report, so acknowledgments may be delivered at least once. A fill is settled before
the order moves, and a trade id is applied at most once.
-/

namespace TradeLedger

namespace OrderRecord

/-- Confirmed by the venue: `new`, which is also where a refused cancel or replace returns. -/
def acknowledge (r : OrderRecord) : OrderRecord :=
  { r with order := { r.order with status := .new }, previousStatus := .new }

def reject (r : OrderRecord) : OrderRecord :=
  { r with order := { r.order with status := .rejected }, rawLeaves := 0 }

def cancel (r : OrderRecord) : OrderRecord :=
  { r with order := { r.order with status := .canceled }, rawLeaves := 0, amendment := none }

def requestAmend (am : Amendment) (r : OrderRecord) : OrderRecord :=
  { r.beginPending .pendingReplace with amendment := some am }

/-- The amendment `am` applied: its price, and its total with `leaves?` raw lots still open; the
order is `new` again. -/
def amend (am : Amendment) (leaves? : Option Int64) (r : OrderRecord) : OrderRecord :=
  let r := match am.price with
    | some p => { r with order := { r.order with price := some p } }
    | none => r
  let r := match am.rawQuantity, leaves? with
    | some q, some l => { r with rawQuantity := q, rawLeaves := l }
    | _, _ => r
  { r with amendment := none, order := { r.order with status := .new }, previousStatus := .new }

/-- A fill under `tradeId` that leaves `leaves` raw lots open and `cum` filled: `filled` when
nothing is left, else `partiallyFilled`. A pending cancel or replace stays pending, and a refusal
of it then falls back to `partiallyFilled`. -/
def fill (tradeId : TradeId) (leaves cum : Int64) (r : OrderRecord) : OrderRecord :=
  let r : OrderRecord := { r.noteTrade tradeId with rawLeaves := leaves, rawCum := cum }
  if leaves.toInt = 0 then { r with order := { r.order with status := .filled }, amendment := none }
  else if r.status = .pendingCancel ∨ r.status = .pendingReplace then
    { r with previousStatus := .partiallyFilled }
  else { r with order := { r.order with status := .partiallyFilled } }

def expire (r : OrderRecord) : OrderRecord :=
  { r with order := { r.order with status := .expired }, rawLeaves := 0, amendment := none }

end OrderRecord

namespace AccountM

def indexOf (ref : OrderRef) : AccountM Nat := do
  orThrow (.rejected .unknownOrder) ((← get).orders.lookup ref)

def recordAt (i : Nat) : AccountM OrderRecord := do
  orThrow (.rejected .unknownOrder) ((← get).orders.get? i)

/-- Changes the record in slot `i`, derives its decimal quantities again, records the status
change and reports the order after it. -/
def transition (i : Nat) (e : ExecutionType) (change : OrderRecord → OrderRecord) :
    AccountM ExecutionReport := do
  let r ← recordAt i
  let lot := (← view r.order.securityId).lot
  modify fun a => { a with orders := a.orders.modify i fun r => (change r).refresh lot }
  let r' ← recordAt i
  let report := ExecutionReport.ofOrder r'.order e (← get).time
  emit (.orderStatusChanged r'.order.clientOrderId r.status r'.status e)
  pure report

/-- Gives slot `i` the venue id `v`, unless another order is indexed under it. -/
def claimVenueId (i : Nat) (v : VenueOrderId) : AccountM Unit := do
  match (← get).orders.venueOwner v (some i) with
  | some owner => throw (.duplicateVenueOrder v owner)
  | none => modify fun a => { a with orders := a.orders.assignVenueId i v }

/-- Accepts a locally created order as `pendingNew`. The quantity must be positive and on the lot
grid, and a price is moved to the nearest tick. -/
def newOrder (o : Order) : AccountM ExecutionReport := do
  let a ← get
  if a.orders.containsClient o.clientOrderId then throw (.rejected .duplicateOrder)
  if o.status ≠ .pendingNew then throw (.rejected .other)
  let i ← orThrow (.rejected .unknownSymbol) (a.instrument? o.securityId)
  let lot := i.lot
  if !o.cumQuantity.isZero ∨ o.leavesQuantity ≤ Decimal.zero ∨
      !lot.isAligned o.leavesQuantity a.config.lotTolerance then
    throw (.rejected .incorrectQuantity)
  let rawLeaves ← orThrow (.rejected .incorrectQuantity) (lot.toRaw? o.leavesQuantity)
  let price ← match o.price with
    | none => pure none
    | some p => match i.roundPrice? p with
      | some q => if Decimal.zero < q then pure (some q) else throw (.rejected .other)
      | none => throw (.rejected .other)
  if o.timeInForce = .gtd ∧ o.expireAt.isNone then throw (.rejected .other)
  let r := (OrderRecord.create { o with price } rawLeaves rawLeaves 0).refresh lot
  let report := ExecutionReport.ofOrder r.order .pendingNew a.time
  modify fun a => { a with orders := (a.orders.insert r).2 }
  emit (.orderAccepted o.clientOrderId r.order.securityId r.order.side r.order.quantity r.order.price)
  pure report

/-- The venue accepted the order: it is indexed by its venue id and becomes `new`. The venue id is
indexed even when a fill overtook the acknowledgment. -/
def confirmNewOrder (c : ClientOrderId) (v : VenueOrderId) : AccountM (Option ExecutionReport) := do
  let i ← indexOf (.client c)
  let r ← recordAt i
  if r.order.venueOrderId.isNone then claimVenueId i v
  if r.status ≠ .pendingNew then return none
  some <$> transition i .new OrderRecord.acknowledge

/-- The venue refused the order: it is rejected and leaves the book. -/
def rejectNewOrder (c : ClientOrderId) (reason : RejectReason) : AccountM ExecutionReport := do
  let ref := OrderRef.client c
  let i ← indexOf ref
  let r ← recordAt i
  if r.status ≠ .pendingNew then throw (.invalidTransition ref r.status .rejectNew)
  let report ← transition i .rejected OrderRecord.reject
  modify fun a => { a with orders := a.orders.discard i }
  pure (report.withRejectReason reason)

/-- The refusal for a cancel or replace request on an order in status `s`, if any: only a
resting order may be canceled or amended. -/
def refusalOf (s : OrderStatus) : Option RejectReason :=
  match s with
  | .new | .partiallyFilled => none
  | .pendingCancel => some .cancelAlreadyPending
  | .pendingReplace => some .replaceAlreadyPending
  | .pendingNew => some .other
  | .filled | .canceled | .rejected | .expired => some .tooLateToCancel

/-- A local cancel request: the order waits for the venue in `pendingCancel`. -/
def cancelOrder (ref : OrderRef) : AccountM ExecutionReport := do
  let i ← indexOf ref
  let r ← recordAt i
  if let some reason := refusalOf r.status then
    throw (.rejected reason)
  transition i .pendingCancel (·.beginPending .pendingCancel)

/-- The venue canceled the order: nothing is left to fill. -/
def confirmCancelOrder (ref : OrderRef) : AccountM (Option ExecutionReport) := do
  let i ← indexOf ref
  let r ← recordAt i
  match r.status with
  | .canceled => pure none
  | .pendingCancel => some <$> transition i .canceled OrderRecord.cancel
  | s => throw (.invalidTransition ref s .confirmCancel)

/-- The venue refused the cancel: the order goes back to where it was. -/
def rejectCancelOrder (ref : OrderRef) (reason : RejectReason) : AccountM (Option ExecutionReport) := do
  let i ← indexOf ref
  let r ← recordAt i
  if r.status ≠ .pendingCancel then return none
  let report ← transition i .rejected OrderRecord.restorePrevious
  pure (some (report.withRejectReason reason))

/-- A local amend request: a new price, a new total quantity, or both. The price goes to the
nearest tick and must stay positive; the quantity must be on the lot grid and above what is
already filled. The order waits for the venue in `pendingReplace`. -/
def replaceOrder (ref : OrderRef) (price quantity : Option Decimal) : AccountM ExecutionReport := do
  let i ← indexOf ref
  let r ← recordAt i
  if let some reason := refusalOf r.status then
    throw (.rejected reason)
  if price.isNone ∧ quantity.isNone then throw (.rejected .other)
  let v ← view r.order.securityId
  let newPrice ← match price with
    | none => pure none
    | some p => match v.roundPrice? p with
      | some q => if Decimal.zero < q then pure (some q) else throw (.rejected .other)
      | none => throw (.rejected .other)
  let tolerance := (← get).config.lotTolerance
  let rawQuantity ← match quantity with
    | none => pure none
    | some q =>
      let raw := if v.lot.isAligned q tolerance then v.lot.toRaw? q else none
      match raw with
      | some raw => if raw.toInt > r.rawCum.toInt then pure (some raw)
                    else throw (.rejected .incorrectQuantity)
      | none => throw (.rejected .incorrectQuantity)
  transition i .pendingReplace (OrderRecord.requestAmend ⟨newPrice, rawQuantity⟩)

/-- The venue applied the amendment, possibly under a new venue id. When fills during the wait
reached the new quantity, the order goes back to where it was and the replace is refused. -/
def confirmReplaceOrder (ref : OrderRef) (newVenueId : Option VenueOrderId) :
    AccountM (Option ExecutionReport) := do
  let i ← indexOf ref
  let r ← recordAt i
  if r.status.isResting then return none
  if r.status ≠ .pendingReplace then throw (.invalidTransition ref r.status .confirmReplace)
  let am := r.amendment.getD ⟨none, none⟩
  if let some q := am.rawQuantity then
    if q.toInt ≤ r.rawCum.toInt then
      let _ ← transition i .rejected OrderRecord.restorePrevious
      throw (.rejected .incorrectQuantity)
  if let some v := newVenueId then claimVenueId i v
  let leaves? ← match am.rawQuantity with
    | none => pure none
    | some q => some <$> ofFault (match Word.sub? q r.rawCum with
        | some l => .ok l
        | none => .error .arithmeticOverflow)
  some <$> transition i .replaced (OrderRecord.amend am leaves?)

/-- The venue refused the amendment: price, quantity and status stay as they were. -/
def rejectReplaceOrder (ref : OrderRef) (reason : RejectReason) : AccountM (Option ExecutionReport) := do
  let i ← indexOf ref
  let r ← recordAt i
  if r.status ≠ .pendingReplace then return none
  let report ← transition i .rejected OrderRecord.restorePrevious
  pure (some (report.withRejectReason reason))

/-- The venue no longer knows the order of a pending cancel or replace, because it filled: the
request is dropped so that the fills in flight can land. -/
def pendingFilled (ref : OrderRef) : AccountM (Option ExecutionReport) := do
  let i ← indexOf ref
  let r ← recordAt i
  match r.status with
  | .pendingCancel | .pendingReplace =>
    let report ← transition i .rejected OrderRecord.restorePrevious
    pure (some (report.withRejectReason .tooLateToCancel))
  | _ => pure none

/-- A venue fill. The quantity must lie on the lot grid and within the leaves; it is booked on
the grid. The fill settles first, then the order moves; a repeated trade id is ignored. -/
def confirmFill (ref : OrderRef) (tradeId : TradeId) (price quantity : Decimal) (taker : Bool) :
    AccountM (Option ExecutionReport) := do
  let i ← indexOf ref
  let r ← recordAt i
  if r.hasTrade tradeId then return none
  if price ≤ Decimal.zero then throw (.rejected .other)
  let lot := (← view r.order.securityId).lot
  if !lot.isAligned quantity (← get).config.lotTolerance then throw (.rejected .incorrectQuantity)
  let rawFill ← orThrow .overflow (lot.toRaw? quantity)
  if rawFill.toInt ≤ 0 then throw (.rejected .incorrectQuantity)
  if rawFill.toInt > r.rawLeaves.toInt then
    throw (.fillExceedsLeaves r.order.clientOrderId rawFill r.rawLeaves)
  let booked := lot.fromRaw rawFill
  settleFill r.order.securityId r.order.side tradeId price booked rawFill taker
  let r ← recordAt i
  let cum ← ofFault (match Word.add? r.rawCum rawFill with
    | some c => .ok c
    | none => .error .arithmeticOverflow)
  let leaves := Int64.ofInt (r.rawLeaves.toInt - rawFill.toInt)
  let report ← transition i .trade (OrderRecord.fill tradeId leaves cum)
  emit (.fill r.order.clientOrderId r.order.securityId tradeId r.order.side price booked taker)
  pure (some (report.withFill tradeId price booked))

/-- The venue reports the order expired. -/
def confirmExpiredOrder (ref : OrderRef) : AccountM (Option ExecutionReport) := do
  let i ← indexOf ref
  let r ← recordAt i
  match r.status with
  | .expired => pure none
  | s => if s.isTerminal then throw (.invalidTransition ref s .confirmExpired)
         else some <$> transition i .expired OrderRecord.expire

/-- Expires every working order (resting, or waiting on a cancel or replace) whose expiry time
has come, in slot order. -/
def checkExpiration : AccountM (List ExecutionReport) := do
  let a ← get
  let due := a.orders.slotsWhere fun r =>
    (r.status.isResting || r.status == .pendingCancel || r.status == .pendingReplace) &&
      r.order.expireAt.any (·.toInt ≤ a.time.toInt)
  due.mapM fun i => transition i .expired OrderRecord.expire

/-- Removes every finished order from the book; answers how many. -/
def pruneClosed : AccountM Nat := do
  let a ← get
  let closed := a.orders.slotsWhere (·.status.isTerminal)
  let orders := closed.foldl OrderBook.discard a.orders
  set { a with orders }
  pure closed.length

end AccountM

end TradeLedger
