import TradeLedger.Decimal.Rounding

/-!
# Decimal arithmetic

Sums, differences and products are exact whenever the exact result fits: a sum at the larger of
the two scales, a product at the sum of the scales. Otherwise the fewest trailing digits are
dropped, rounding ties to even, and a result that does not fit even at scale 0 overflows
(`none`). A zero operand is a shortcut: the product is the unsigned zero of scale 0, and a sum
returns the other operand as it is.

Division produces as many digits as fit, up to 28 places: it extends the quotient by up to nine
digits at a time while a remainder is left, rounds the last digit to even, and then strips some
trailing zeros in steps of eight, four, two and one (the step of eight only while the low 32
bits of the mantissa are zero). So `1500 / 1000 = 1.50` and `1 / 3 = 0.3333333333333333333333333333`.
-/

namespace TradeLedger

namespace Decimal

/-- `a + b`, or `a - b` when `subtract` holds. Two nonzero operands that cancel give the
unsigned zero at the larger scale. -/
def addSigned (a b : Decimal) (subtract : Bool) : Option Decimal :=
  if a.mantissa = 0 then some (if subtract && b.mantissa != 0 then b.neg else b)
  else if b.mantissa = 0 then some a
  else
    let s := Nat.max a.scale b.scale
    let x := a.mantissa * pow10 (s - a.scale)
    let y := b.mantissa * pow10 (s - b.scale)
    if subtract != (a.negative != b.negative) then
      if x = y then make? false 0 s
      else if y < x then fit a.negative (x - y) s
      else fit (!a.negative) (y - x) s
    else fit a.negative (x + y) s

def add? (a b : Decimal) : Option Decimal := addSigned a b false

def sub? (a b : Decimal) : Option Decimal := addSigned a b true

/-- The product, `none` on overflow. For two mantissas below `2 ^ 32` the result is unsigned
when it is zero, and scales that add up to more than 47 give zero outright; a wider product
rounded to zero keeps its sign. -/
def mul? (a b : Decimal) : Option Decimal :=
  let exact := a.mantissa * b.mantissa
  let negative := a.negative != b.negative
  if a.mantissa = 0 ∨ b.mantissa = 0 then some zero
  else if a.mantissa < limb ∧ b.mantissa < limb then
    if a.scale + b.scale > 47 then some zero
    else (fit negative exact (a.scale + b.scale)).map dropZeroSign
  else fit negative exact (a.scale + b.scale)

/-- The largest `x ≤ min 9 (28 - scale)` with `q * 10 ^ x` below `2 ^ 96`: how far the quotient can
be extended in one round. A full round of nine digits is always taken; a shorter one that
leaves the scale negative means the quotient overflows (`none`). -/
def room (q : Nat) (scale : Int) : Option Nat :=
  let cap := Nat.min 9 (28 - scale).toNat
  let x := ((List.range (cap + 1)).reverse.find? (fun k => q * pow10 k < bound)).getD 0
  if x < 9 ∧ (x : Int) + scale < 0 then none else some x

/-- One more digit dropped from a quotient `v` that ran past 96 bits, rounding ties to even;
`sticky` records that the division left a remainder below `v`. -/
def dropDigit (v : Nat) (scale : Int) (sticky : Bool) : Option (Nat × Int) :=
  if scale < 1 then none
  else
    let q := v / 10
    let r := v % 10
    some (if r > 5 ∨ (r = 5 ∧ (sticky ∨ q % 2 = 1)) then q + 1 else q, scale - 1)

/-- The quotient `q` rounded by its remainder `r` against the divisor `d`, ties to even. -/
def roundQuotient (q r d : Nat) (scale : Int) : Option (Nat × Int) :=
  if 2 * r > d ∨ (2 * r = d ∧ q % 2 = 1) then
    if q + 1 < bound then some (q + 1, scale) else dropDigit (q + 1) scale true
  else some (q, scale)

/-- The rounds of long division by `d`: the quotient `q`, the remainder `r`, the scale of `q`
and whether a remainder was met. Each round raises the scale by at least one, from at least
`-28` to at most `28`, so 64 rounds are more than enough. -/
def divRounds (d : Nat) : Nat → Nat → Nat → Int → Bool → Option (Nat × Int × Bool)
  | 0, q, _, scale, inexact => some (q, scale, inexact)
  | fuel + 1, q, r, scale, inexact =>
    let next : Option Nat :=
      if r = 0 then (if scale ≥ 0 then none else some (Nat.min 9 (-scale).toNat))
      else if scale = 28 then some 0 else room q scale
    let inexact := inexact || r != 0
    match r, next with
    | 0, none => some (q, scale, inexact)
    | _ + 1, none => none
    | _, some 0 => (roundQuotient q r d scale).map fun (q', s') => (q', s', inexact)
    | _, some (p + 1) =>
      let q₁ := q * pow10 (p + 1)
      if q₁ ≥ bound then none
      else
        let t := r * pow10 (p + 1)
        let q₂ := q₁ + t / d
        let r₂ := t % d
        let s₂ := scale + (p + 1)
        if q₂ ≥ bound then (dropDigit q₂ s₂ (r₂ != 0)).map fun (q', s') => (q', s', inexact)
        else divRounds d fuel q₂ r₂ s₂ inexact

/-- Strips eight zeros at a time while the low 32 bits are zero and the scale allows it. -/
def stripEights : Nat → Nat → Int → Nat × Int
  | 0, q, s => (q, s)
  | n + 1, q, s =>
    if q % limb = 0 ∧ s ≥ 8 ∧ q % pow10 8 = 0 then stripEights n (q / pow10 8) (s - 8) else (q, s)

/-- Drops `10 ^ k` from `q` once, when the low bits `q % m` are zero, the scale allows it and
`10 ^ k` divides `q`. -/
def stripOnce (m k : Nat) (qs : Nat × Int) : Nat × Int :=
  if qs.1 % m = 0 ∧ qs.2 ≥ k ∧ qs.1 % pow10 k = 0 then (qs.1 / pow10 k, qs.2 - k) else qs

/-- The trailing zeros an inexact quotient loses: by eights, then once each by four, two, one. -/
def stripZeros (q : Nat) (scale : Int) : Nat × Int :=
  stripOnce 2 1 (stripOnce 4 2 (stripOnce 16 4 (stripEights 4 q scale)))

/-- The quotient, `none` when the divisor is zero or the quotient overflows. -/
def div? (a b : Decimal) : Option Decimal :=
  if b.mantissa = 0 then none
  else if a.mantissa = 0 then some zero
  else
    match divRounds b.mantissa 64 (a.mantissa / b.mantissa) (a.mantissa % b.mantissa)
        ((a.scale : Int) - b.scale) false with
    | none => none
    | some (q, scale, inexact) =>
      let (q, scale) := if inexact then stripZeros q scale else (q, scale)
      if scale < 0 then none else normalized? (a.negative != b.negative) q scale.toNat

end Decimal

end TradeLedger
