import TradeLedger.Account.Basic
import TradeLedger.Margin

/-!
# Reading an account

Read-only views of an account: orders sorted by client id, open positions sorted by security
id, margin and balances in decimal units, and the risk figures. Unrealized profit, leverage and
available margin need a mark price per open position and fail with `noMarkPrice` rather than
guess; positions are taken in order of their security id.
-/

namespace TradeLedger

/-- An open position in decimal units; the cost is in margin currency. -/
structure PositionView where
  securityId : SecurityId
  quantity : Decimal
  cost : Decimal
  cross : Bool
  deriving DecidableEq

/-- The unrealized profit and the absolute exposure of a position at its mark, raw units. -/
structure Valuation where
  unrealized : Int64
  exposure : Int64

namespace Account

/-- The orders that pass the filter (all for `none`), sorted by client id. -/
def ordersMatching (a : Account) (f : Option OrderFilter) : List Order :=
  ((a.orders.records.map (·.order)).filter fun o => f.all (·.matches o)).mergeSort
    (fun x y => decide (x.clientOrderId ≤ y.clientOrderId))

def order? (a : Account) (ref : OrderRef) : Option Order := (a.orders.find? ref).map (·.order)

def positionView? (a : Account) (p : Position) : Option PositionView :=
  (a.instrument? p.securityId).map fun i =>
    { securityId := p.securityId, quantity := i.lot.fromRaw p.rawSize,
      cost := a.marginGrid.fromRaw p.cost, cross := p.cross }

/-- The positions with open size, sorted by security id. -/
def openPositions (a : Account) : List Position :=
  (a.positions.values.filter (!·.isFlat)).mergeSort (fun x y => decide (x.securityId ≤ y.securityId))

def positionViews (a : Account) : List PositionView := a.openPositions.filterMap a.positionView?

def positionOf? (a : Account) (sid : SecurityId) : Option PositionView :=
  (a.positions.get? sid).bind fun p => if p.isFlat then none else a.positionView? p

def marginValue (a : Account) : Decimal := a.marginGrid.fromRaw a.margin

/-- The mark of a position's instrument in a list of marks, where a later entry wins. -/
def markOf? (marks : List (SecurityId × Decimal)) (sid : SecurityId) : Option Decimal :=
  (marks.reverse.find? (·.1 == sid)).map (·.2)

/-- A position valued at a mark. -/
def valuation (a : Account) (p : Position) (mark : Decimal) : Checked Valuation := do
  let i ← Checked.orError (.unknownSecurity p.securityId) (a.instrument? p.securityId)
  let t := a.terms i
  let price ← Checked.orError (.noMarkPrice p.securityId) (i.settlementPrice? mark)
  let unrealized ← Checked.orError .overflow (Margin.unrealizedPnl? p price t)
  let exposure ← ExceptT.lift (Margin.exposure? p price t)
  let exposure ← Checked.orError .overflow exposure
  pure ⟨unrealized, exposure⟩

/-- The unrealized profit of one instrument's position at a mark; zero without a position. -/
def unrealizedPnl (a : Account) (sid : SecurityId) (mark : Decimal) : Checked Decimal :=
  match a.positions.get? sid with
  | none => pure Decimal.zero
  | some p => do
    let v ← a.valuation p mark
    pure (a.marginGrid.fromRaw v.unrealized)

/-- One open position's share of the leverage: its absolute mark value is added to the
exposure and its unrealized profit to the equity, raw units, each sum checked. -/
def leverageStep (a : Account) (marks : List (SecurityId × Decimal)) :
    Int64 × Int64 → Position → Checked (Int64 × Int64) :=
  fun (exposure, equity) p => do
    let mark ← Checked.orError (.noMarkPrice p.securityId) (markOf? marks p.securityId)
    let v ← a.valuation p mark
    let exposure ← Checked.orError .overflow (Word.add? exposure v.exposure)
    let equity ← Checked.orError .overflow (Word.add? equity v.unrealized)
    pure (exposure, equity)

/-- Total exposure over equity (margin plus all unrealized profit). -/
def leverage (a : Account) (marks : List (SecurityId × Decimal)) : Checked Decimal := do
  let (exposure, equity) ← a.openPositions.foldlM (a.leverageStep marks) ((0 : Int64), a.margin)
  ExceptT.lift (Margin.leverageRatio (a.marginGrid.fromRaw exposure) (a.marginGrid.fromRaw equity))

/-- One open position's share of the available margin: its unrealized profit is added to the
running sum and the margin it ties up at `leverage` taken off, each step checked. -/
def availableStep (a : Account) (marks : List (SecurityId × Decimal)) (leverage : Decimal)
    (available : Decimal) (p : Position) : Checked Decimal := do
  let mark ← Checked.orError (.noMarkPrice p.securityId) (markOf? marks p.securityId)
  let v ← a.valuation p mark
  let locked ← Checked.orError .overflow (Margin.leveragedCost? p leverage a.marginGrid)
  Checked.orError .overflow
    ((available.add? (a.marginGrid.fromRaw v.unrealized)).bind (·.sub? locked))

/-- Margin plus, per open position, its unrealized profit minus the margin it ties up at
`leverage`; never below zero. A leverage that is not positive is refused. -/
def availableMargin (a : Account) (marks : List (SecurityId × Decimal)) (leverage : Decimal) :
    Checked Decimal := do
  if leverage ≤ Decimal.zero then throw (.rejected .other)
  let available ← a.openPositions.foldlM (a.availableStep marks leverage) a.marginValue
  pure (Decimal.maxOf available Decimal.zero)

end Account

end TradeLedger
