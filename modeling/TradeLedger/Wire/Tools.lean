import TradeLedger.Wire.Codec
import TradeLedger.Margin

/-!
# Standalone requests

Requests that exercise one part of the ledger without an account: grids, instruments, the fill
arithmetic, the margin formulas, spot settlement, settings, filters, presets, order construction
and the small value types. Each reader answers `none` when the request cannot be read; the
caller answers that as bad input.
-/

namespace TradeLedger

namespace Wire

open Json

/-- Settings laid over the defaults key by key; a missing key keeps the default, and a key that
is present (`null` too) must read as a setting. -/
def decConfig (j : Json) : Option Config := do
  let _ ← j.fields?
  let d := Config.default
  pure { marginCurrency := (← presentField j "margin_currency" str?).getD d.marginCurrency,
         marginPrecision := (← presentField j "margin_precision" word?).getD d.marginPrecision,
         lotTolerance := (← presentField j "lot_tolerance" dec?).getD d.lotTolerance,
         maxEvents := (← presentField j "max_events" nat?).getD d.maxEvents,
         verbose := (← presentField j "verbose" bool?).getD d.verbose }

def configOf (j : Json) : Option Config := do
  match ← optField j "config" some with
  | none => pure Config.default
  | some c => decConfig c

def encGrid (p : Precision) : Json := int p.scale

def precisionRequest (j : Json) : Option Json := do
  match ← req j "fn" str? with
  | "from_increment" =>
    let inc ← req j "increment" dec?
    pure (.obj [("scale", opt encGrid (Precision.fromIncrement? inc))])
  | "new" =>
    let s ← req j "scale" word?
    pure (.obj [("scale", opt encGrid (Precision.new? s.toInt))])
  | "to_raw" =>
    let p ← req j "scale" decPrecision
    let v ← req j "value" dec?
    pure (.obj [("raw", opt word (p.toRaw? v))])
  | "from_raw" =>
    let p ← req j "scale" decPrecision
    let raw ← req j "raw" word?
    pure (.obj [("value", dec (p.fromRaw raw))])
  | "is_aligned" =>
    let p ← req j "scale" decPrecision
    let v ← req j "value" dec?
    let tol ← req j "tolerance" dec?
    pure (.obj [("aligned", .bool (p.isAligned v tol))])
  | _ => none

/-- An instrument's grids, rates and prices. -/
def instrumentRequest (j : Json) : Option Json := do
  let s ← req j "security" decSecurity
  let prices := (← presentField j "prices" (list? dec?)).getD []
  match Instrument.ofSecurity s with
  | .error e => pure (refusal e)
  | .ok i =>
    pure (.obj [("tick", encGrid i.tick), ("lot", encGrid i.lot), ("is_margined", .bool i.isMargined),
                ("maker_rate", dec (i.feeRate false)), ("taker_rate", dec (i.feeRate true)),
                ("round_price", .arr (prices.map fun p => opt dec (i.roundPrice? p))),
                ("settlement_price", .arr (prices.map fun p => opt dec (i.settlementPrice? p)))])

/-- A fill applied to a raw position. -/
def applyFillRequest (j : Json) : Option Json := do
  let p ← req j "position" decPosition
  let side ← req j "side" decSide
  let fill ← req j "raw_fill" word?
  if fill.toInt ≤ 0 then none
  let price ← req j "price" dec?
  let t ← req j "terms" decTerms
  pure <| match (applyFill p side fill price t).run with
    | .error _ => faulted
    | .ok (.error e) => refusal e
    | .ok (.ok (p', u)) =>
      .obj [("update", .obj [("old_raw_size", word u.oldRawSize), ("new_raw_size", word u.newRawSize),
                             ("closed", word u.closed), ("opened", word u.opened),
                             ("realized_pnl", word u.realizedPnl)]),
            ("position", encPosition p')]

def marginRequest (j : Json) : Option Json := do
  let result ← match ← req j "fn" str? with
    | "notional" => do
      pure (.ok (opt dec (Margin.notional? (← req j "quantity" dec?) (← req j "price" dec?)
        (← req j "multiplier" dec?))))
    | "commission" => do
      pure (.ok (opt word (Margin.commission? (← req j "rate" dec?) (← req j "notional" dec?)
        (← req j "margin" decPrecision))))
    | "leverage_ratio" => do
      pure (dec <$> Margin.leverageRatio (← req j "exposure" dec?) (← req j "equity" dec?))
    | "margin_value" => do
      let t ← req j "terms" decTerms
      pure (.ok (opt word (t.marginValue? (← req j "raw_size" word?) (← req j "price" dec?))))
    | "unrealized_pnl" => do
      pure (.ok (opt word (Margin.unrealizedPnl? (← req j "position" decPosition) (← req j "mark" dec?)
        (← req j "terms" decTerms))))
    | "exposure" => do
      pure (opt word <$> Margin.exposure? (← req j "position" decPosition) (← req j "mark" dec?)
        (← req j "terms" decTerms))
    | "leveraged_cost" => do
      pure (.ok (opt dec (Margin.leveragedCost? (← req j "position" decPosition) (← req j "leverage" dec?)
        (← req j "margin" decPrecision))))
    | _ => none
  pure (unlessFaulted ((fun r => .obj [("result", r)]) <$> result))

/-- Spot settlement against a set of balances. -/
def spotRequest (j : Json) : Option Json := do
  let start ← req j "balances" (list? (pair? str? dec?))
  let side ← req j "side" decSide
  let base ← req j "base" str?
  let quote ← req j "quote" str?
  let price ← req j "price" dec?
  let quantity ← req j "quantity" dec?
  let rate ← req j "fee_rate" dec?
  let b := start.foldl (fun b (a, q) => b.set a q) Balances.empty
  pure <| unlessFaulted do
    match ← b.settleSpot side base quote price quantity rate with
    | none => pure (.obj [("settlement", .null), ("balances", encBalances b.all)])
    | some (s, b') =>
      pure (.obj [("settlement", .obj [("base_delta", dec s.baseDelta), ("quote_delta", dec s.quoteDelta),
                                       ("commission", dec s.commission)]),
                  ("balances", encBalances b'.all)])

def configRequest (j : Json) : Option Json := do
  let c ← configOf j
  pure <| match c.validate with
    | .error e => failure e.code e.message
    | .ok () => .obj [("ok", .bool true), ("margin_scale", opt encGrid c.marginGrid?)]

def filterRequest (j : Json) : Option Json := do
  let f ← req j "filter" decFilter
  let o ← req j "order" decOrder
  pure (.obj [("matches", .bool (f.matches o))])

/-- The built-in securities and settings. -/
def presetsRequest (j : Json) : Option Json := do
  let currency ← req j "margin_currency" str?
  pure (.obj [("securities", .arr ([Security.btcusdPerp, Security.ethusdtPerp, Security.btcusdtSpot].map
                encSecurity)),
              ("inverse_btc", encConfig Config.inverseBtc), ("linear_usd", encConfig (Config.linearUsd currency)),
              ("default_time_in_force", .str "GTC")])

/-- An order built by its constructor, and a report of it. -/
def orderRequest (j : Json) : Option Json := do
  let c ← req j "client_order_id" str?
  let sid ← req j "security_id" nat?
  let side ← req j "side" decSide
  let quantity ← req j "quantity" dec?
  let t ← req j "timestamp" word?
  let o ← match ← req j "kind" str? with
    | "limit" => do
      pure (Order.limit c sid side quantity (← req j "price" dec?)
        (← req j "time_in_force" (name? TimeInForce.names)) t)
    | "market" => pure (Order.market c sid side quantity t)
    | _ => none
  let o := match looseField j "expire_at" word? with
    | some e => o.withExpiry e
    | none => o
  let o := match looseField j "status" decStatus with
    | some s => { o with status := s }
    | none => o
  let e := (looseField j "execution_type" (name? ExecutionType.names)).getD .new
  let r := (ExecutionReport.ofOrder o e t).withSeqNum ((looseField j "seq_num" nat?).getD 0)
  let r := match looseField j "reject_reason" decReason with
    | some reason => r.withRejectReason reason
    | none => r
  let r := match looseField j "trade_id" str?, looseField j "fill_price" dec?,
      looseField j "fill_quantity" dec? with
    | some tid, some p, some q => r.withFill tid p q
    | _, _, _ => r
  pure (.obj [("order", encOrder o), ("is_filled", .bool o.isFilled), ("report", encReport r)])

def statusRequest (j : Json) : Option Json := do
  let s ← req j "status" decStatus
  pure (.obj [("is_terminal", .bool s.isTerminal), ("is_resting", .bool s.isResting),
              ("is_pending", .bool s.isPending)])

def encRefOf (id : String) (ref : OrderRef) : Json :=
  .obj [("id", .str id), ("ref", encOrderRef ref), ("display", .str ref.render)]

def typesRequest (j : Json) : Option Json := do
  let result ← match ← req j "fn" str? with
    | "side" => do
      let s ← req j "side" decSide
      pure (.obj [("sign", int s.sign), ("opposite", encSide s.opposite)])
    | "client_ref" => do
      let id ← req j "id" str?
      pure (encRefOf id (.client id))
    | "venue_ref" => do
      let id ← req j "id" str?
      pure (encRefOf id (.venue id))
    | "trade_id" => .str <$> req j "id" str?
    | "security_id" => (fun (n : Nat) => .str (toString n)) <$> req j "id" nat?
    | "account_id" => do
      let a : AccountId := ⟨← req j "exchange" str?, ← req j "name" str?⟩
      pure (.obj [("display", .str a.render), ("json", encAccountId a)])
    | "precision_display" => (fun (p : Precision) => .str p.render) <$> req j "scale" decPrecision
    | "timestamp" => do
      let ms ← req j "ms" word?
      let added := Word.saturatingAdd ms (← req j "add" word?)
      pure (.obj [("ms", word ms), ("added", word added), ("less", .bool (decide (ms.toInt < added.toInt)))])
    | "reject" => do
      let r ← req j "reason" decReason
      pure (.obj [("api", encApiError (LedgerError.rejected r).toApi), ("reason_display", .str r.describe)])
    | _ => none
  pure (.obj [("result", result)])

def positionRequest (j : Json) : Option Json := do
  let p ← req j "position" decPosition
  pure (.obj [("side", opt encSide p.side?), ("is_flat", .bool p.isFlat), ("reset", encPosition p.reset),
              ("new", encPosition (Position.create p.securityId p.cross))])

end Wire

end TradeLedger
