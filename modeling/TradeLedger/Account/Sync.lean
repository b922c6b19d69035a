import TradeLedger.Account.Basic

/-!
# Reconciliation

A sync rebuilds the account from a full venue snapshot: instruments are added or replaced, the
order book is rebuilt from the reported orders in their order, every position is reset and then
set from the reported ones, and reported balances are set (others stay). A balance in the
margin currency sets the margin. Everything is built aside and takes effect only when all of it
succeeded; then one event summarises the result.
-/

namespace TradeLedger

/-- A position as the venue reports it: signed quantity, cost in margin currency. -/
structure VenuePosition where
  account : AccountId
  securityId : SecurityId
  quantity : Decimal
  cost : Decimal
  cross : Bool
  deriving DecidableEq

/-- A balance as the venue reports it. -/
structure VenueBalance where
  account : AccountId
  asset : String
  quantity : Decimal
  deriving DecidableEq

/-- A full venue snapshot, with optional fee rates for all instruments of the account. -/
structure SyncInput where
  securities : List Security
  orders : List Order
  positions : List VenuePosition
  balances : List VenueBalance
  makerFee : Option Decimal
  takerFee : Option Decimal
  deriving DecidableEq

namespace Account

/-- The account's instruments with the reported securities added or replaced, and the fee
overrides applied to all of them. -/
def rebuildInstruments (a : Account) (x : SyncInput) : Except LedgerError (KeyMap SecurityId Instrument) := do
  let views ← x.securities.foldlM (fun m s => do
    let i ← Instrument.ofSecurity s
    pure (m.insert s.securityId i)) a.instruments
  pure <| views.mapValues fun i =>
    let s := i.security
    let s := match x.makerFee with | some f => { s with makerFee := f } | none => s
    let s := match x.takerFee with | some f => { s with takerFee := f } | none => s
    { i with security := s }

/-- A book of the reported orders, in their order. A client id may occur once and a venue id
once; every order needs a known instrument and quantities that fit the lot grid. -/
def rebuildOrders (views : KeyMap SecurityId Instrument) (orders : List Order) :
    Except LedgerError OrderBook :=
  orders.foldlM (fun b o => do
    if b.containsClient o.clientOrderId then throw (.duplicateSnapshotOrder o.clientOrderId)
    if let some v := o.venueOrderId then
      if let some owner := b.venueOwner v none then throw (.duplicateVenueOrder v owner)
    let i ← match views.get? o.securityId with
      | some i => pure i
      | none => throw (.unknownSecurity o.securityId)
    let toRaw (d : Decimal) : Except LedgerError Int64 :=
      match i.lot.toRaw? d with
      | some r => pure r
      | none => throw .overflow
    let q ← toRaw o.quantity
    let l ← toRaw o.leavesQuantity
    let c ← toRaw o.cumQuantity
    pure (b.insert ((OrderRecord.create o q l c).refresh i.lot)).2) OrderBook.empty

def checkAccount (a : Account) (got : AccountId) : Except LedgerError Unit :=
  if got = a.id then pure () else throw (.foreignAccount a.id got)

/-- All positions reset, then set from the reported ones. A reported flat position has cost 0. -/
def rebuildPositions (a : Account) (views : KeyMap SecurityId Instrument) (ps : List VenuePosition) :
    Except LedgerError (KeyMap SecurityId Position) :=
  ps.foldlM (fun m p => do
    a.checkAccount p.account
    let i ← match views.get? p.securityId with
      | some i => pure i
      | none => throw (.unknownSecurity p.securityId)
    let rawSize ← match i.lot.toRaw? p.quantity with
      | some r => pure r
      | none => throw .overflow
    let cost ← if rawSize.toInt = 0 then pure 0 else match a.marginGrid.toRaw? p.cost with
      | some c => pure c
      | none => throw .overflow
    let old := (m.get? p.securityId).getD (Position.create p.securityId p.cross)
    pure (m.insert p.securityId { old with rawSize, cost, cross := p.cross }))
    (a.positions.mapValues Position.reset)

/-- The balances with the reported ones set, and the margin they imply. -/
def rebuildBalances (a : Account) (bs : List VenueBalance) : Except LedgerError (Balances × Int64) :=
  bs.foldlM (fun (b, margin) r => do
    a.checkAccount r.account
    let b := b.set r.asset r.quantity
    if r.asset = a.config.marginCurrency then
      match a.marginGrid.toRaw? r.quantity with
      | some m => pure (b, m)
      | none => throw .overflow
    else pure (b, margin)) (a.balances, a.margin)

end Account

namespace AccountM

/-- Rebuilds the account from a venue snapshot. -/
def sync (x : SyncInput) : AccountM Unit := do
  let a ← get
  let r : Except LedgerError _ := do
    let views ← a.rebuildInstruments x
    let orders ← Account.rebuildOrders views x.orders
    let positions ← a.rebuildPositions views x.positions
    let (balances, margin) ← a.rebuildBalances x.balances
    pure (views, orders, positions, balances, margin)
  match r with
  | .error e => throw e
  | .ok (views, orders, positions, balances, margin) =>
    set { a with instruments := views, orders, positions, balances, margin }
    emit (.synced views.size orders.size (positions.values.filter (!·.isFlat)).length balances.size margin)

end AccountM

end TradeLedger
