import TradeLedger.Decimal.Text
import TradeLedger.Word

/-!
# Fixed-point grids

A `Precision` is a grid of `scale` raw units per whole unit: a tick grid for prices, a lot grid
for sizes, a margin grid for money. Converting to raw units multiplies by the scale and rounds
half away from zero; converting back divides. A value is aligned with the grid when its scaled
value lies within a tolerance of a whole number (ties of the whole number go to even).
-/

namespace TradeLedger

/-- A grid of `scale` raw units per whole unit, `scale` a positive signed 64-bit number. -/
structure Precision where
  scale : Nat
  pos : 0 < scale
  lt : scale < 9223372036854775808
  deriving DecidableEq

namespace Precision

def new? (scale : Int) : Option Precision :=
  if h : 0 < scale ∧ scale < 9223372036854775808 then some ⟨scale.toNat, by omega, by omega⟩ else none

theorem scale_lt_bound (p : Precision) : p.scale < Decimal.bound := by
  have := p.lt
  unfold Decimal.bound
  omega

def unit (p : Precision) : Decimal := ⟨false, p.scale, 0, p.scale_lt_bound, Decimal.zero_le_maxScale⟩

def word (p : Precision) : Int64 := Int64.ofInt p.scale

/-- The finest grid whose unit is at most `increment`: `⌈1 / increment⌉` units per whole. -/
def fromIncrement? (increment : Decimal) : Option Precision := do
  if increment ≤ Decimal.zero then none
  let q ← Decimal.one.div? increment
  let n ← q.ceil.toInt64?
  new? n.toInt

/-- `value` in raw units: scaled, then rounded half away from zero; `none` on overflow. -/
def toRaw? (p : Precision) (value : Decimal) : Option Int64 := do
  let scaled ← value.mul? p.unit
  (scaled.roundWhole .awayFromZero).toInt64?

/-- The value of `raw` units. The quotient always exists: the divisor is at least one and the
dividend fits 64 bits. -/
def fromRaw (p : Precision) (raw : Int64) : Decimal :=
  ((Decimal.ofInt64 raw).div? p.unit).getD Decimal.zero

/-- Whether `value` lies within `tolerance` raw units of the grid; a value whose scaled form
overflows is not aligned. -/
def isAligned (p : Precision) (value tolerance : Decimal) : Bool :=
  match value.mul? p.unit with
  | none => false
  | some scaled =>
    match scaled.sub? scaled.round with
    | some gap => decide (gap.abs ≤ tolerance)
    | none => false

/-- Written `1/scale`. -/
def render (p : Precision) : String := "1/" ++ toString p.scale

end Precision

end TradeLedger
