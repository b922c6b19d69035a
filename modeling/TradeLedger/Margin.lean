import TradeLedger.Position

/-!
# Fees and margin

Commission is charged on the absolute notional of a fill and floored to the margin grid; a
negative rate is a rebate. Unrealized profit is the mark value of the open size minus its cost.
Leverage is exposure over equity, with no exposure meaning 0 and no equity the largest decimal.
-/

namespace TradeLedger

namespace Margin

/-- `|quantity * price * multiplier|`, the price being the settlement price. -/
def notional? (quantity price multiplier : Decimal) : Option Decimal := do
  let v ← quantity.mul? price
  let v ← v.mul? multiplier
  pure v.abs

/-- `⌊rate * notional * scale⌋` in raw margin units. -/
def commission? (rate notional : Decimal) (margin : Precision) : Option Int64 := do
  let v ← rate.mul? notional
  let v ← v.mul? margin.unit
  v.floor.toInt64?

/-- Mark value minus cost, raw units; 0 for a flat position. -/
def unrealizedPnl? (p : Position) (mark : Decimal) (t : ContractTerms) : Option Int64 :=
  if p.isFlat then some 0
  else do
    let v ← t.marginValue? p.rawSize mark
    Word.sub? v p.cost

/-- The absolute mark value of the position, raw units. The magnitude of the least word is a
fault. -/
def exposure? (p : Position) (mark : Decimal) (t : ContractTerms) : Except Fault (Option Int64) :=
  match t.marginValue? p.rawSize mark with
  | none => .ok none
  | some v => match Word.abs? v with
    | some a => .ok (some a)
    | none => .error .arithmeticOverflow

/-- The margin a position ties up at `leverage`: `|cost| / leverage`; `none` for a leverage that
is not positive. -/
def leveragedCost? (p : Position) (leverage : Decimal) (margin : Precision) : Option Decimal :=
  if leverage ≤ Decimal.zero then none else (margin.fromRaw p.cost).abs.div? leverage

/-- Exposure over equity: 0 without exposure, the largest decimal without positive equity. A
quotient too large to hold is a fault. -/
def leverageRatio (exposure equity : Decimal) : Except Fault Decimal :=
  if exposure.isZero then .ok Decimal.zero
  else if equity ≤ Decimal.zero then .ok Decimal.max
  else match exposure.div? equity with
    | some r => .ok r
    | none => .error .arithmeticOverflow

end Margin

end TradeLedger
