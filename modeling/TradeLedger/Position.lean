import TradeLedger.Basic
import TradeLedger.Precision
import TradeLedger.Error

/-!
# Positions and fills

A position holds a signed size in raw lots (positive long, negative short) and its cost: the
margin, in raw margin units, still allocated to the open size. A fill first closes against the
position, moving the closed share of its unrealized profit into realized profit, and then opens
in its own direction with whatever is left. A full close leaves cost 0: the closed slice of the
mark value minus the realized profit is exactly the cost.
-/

namespace TradeLedger

/-- A net position in one instrument. -/
structure Position where
  securityId : SecurityId
  /-- Raw margin units allocated to the open size. -/
  cost : Int64
  /-- Raw lots, positive long and negative short. -/
  rawSize : Int64
  cross : Bool
  deriving DecidableEq, Inhabited

namespace Position

def create (securityId : SecurityId) (cross : Bool) : Position :=
  { securityId, cost := 0, rawSize := 0, cross }

def isFlat (p : Position) : Bool := p.rawSize.toInt == 0

def side? (p : Position) : Option Side :=
  if p.rawSize.toInt > 0 then some .buy else if p.rawSize.toInt < 0 then some .sell else none

/-- Flat, with no cost; the margin mode stays. -/
def reset (p : Position) : Position := { p with cost := 0, rawSize := 0 }

end Position

/-- What the fill arithmetic needs to know of an instrument. -/
structure ContractTerms where
  lot : Precision
  margin : Precision
  multiplier : Decimal

/-- `(raw / lot) * price * multiplier` in raw margin units; `none` on overflow. -/
def ContractTerms.marginValue? (t : ContractTerms) (rawSize : Int64) (price : Decimal) : Option Int64 := do
  let v ← (t.lot.fromRaw rawSize).mul? price
  let v ← v.mul? t.multiplier
  t.margin.toRaw? v

/-- What a fill did to a position. -/
structure FillUpdate where
  oldRawSize : Int64
  newRawSize : Int64
  /-- Lots taken off the existing size. -/
  closed : Int64
  /-- Lots added in the fill's direction. -/
  opened : Int64
  /-- Profit moved out of the cost into the account's margin, raw units. -/
  realizedPnl : Int64
  deriving DecidableEq

/-- `closed * numerator / size`, the quotient cut toward zero, when it fits a word. -/
def proportional (closed numerator size : Int) : Option Int64 :=
  Word.ofInt? ((closed * numerator).tdiv size)

/-- Applies a fill of `rawFill` lots at the settlement `price`: it closes against the position
first, then opens with the rest. -/
def applyFill (p : Position) (side : Side) (rawFill : Int64) (price : Decimal) (t : ContractTerms) :
    Checked (Position × FillUpdate) := do
  let size := p.rawSize.toInt
  let against := size ≠ 0 ∧ Word.signum p.rawSize ≠ side.sign
  let (p, closed, realized) ← if against then do
      let magnitude ← Checked.orFault (Word.abs? p.rawSize)
      let closed : Int := min rawFill.toInt magnitude.toInt
      let signedClosed := closed * Word.signum p.rawSize
      let markValue ← Checked.orError .overflow (t.marginValue? p.rawSize price)
      let unrealized := markValue.toInt - p.cost.toInt
      let markSlice ← Checked.orError .overflow (proportional signedClosed markValue.toInt size)
      let realized ← Checked.orError .overflow (proportional signedClosed unrealized size)
      let entrySlice ← Checked.orError .overflow (Word.sub? markSlice realized)
      let cost ← Checked.orError .overflow (Word.sub? p.cost entrySlice)
      pure ({ p with cost, rawSize := Int64.ofInt (size - signedClosed) }, closed, realized)
    else pure (p, 0, 0)
  let remaining := rawFill.toInt - closed
  let p ← if remaining > 0 then do
      let signedOpen := Int64.ofInt (side.sign * remaining)
      let notional ← Checked.orError .overflow (t.marginValue? signedOpen price)
      let cost ← Checked.orError .overflow (Word.add? p.cost notional)
      let rawSize ← Checked.orError .overflow (Word.add? p.rawSize signedOpen)
      pure { p with cost, rawSize }
    else pure p
  pure (p, { oldRawSize := Int64.ofInt size, newRawSize := p.rawSize, closed := Int64.ofInt closed,
             opened := Int64.ofInt remaining, realizedPnl := realized })

end TradeLedger
