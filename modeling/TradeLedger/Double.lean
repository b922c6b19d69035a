/-!
# Doubles

Finite non-negative IEEE binary64 numbers as exact values `mantissa * 2 ^ exponent`, with no
floating-point arithmetic anywhere: every operation is exact rational arithmetic followed by one
rounding.

* `round?` takes an exact rational to the nearest double: the exponent is the larger of
  `⌊log₂ v⌋ - 52` and `-1074` (below that the double is subnormal), the mantissa is rounded to
  nearest with ties to an even mantissa, a carry to `2 ^ 53` moves up one binade, and a result
  at `2 ^ 1024` or beyond is infinite (`none`).
* `mul?` and `div?` are the exact product and quotient, rounded once.
* `shortest` finds the decimal with the fewest significant digits that rounds back to the double:
  for one digit, then two, and so on, it tries the two neighbours of the value on that decimal
  grid against the interval of reals that round to the double (its ends belong to it when the
  mantissa is even); of two neighbours in the interval the nearer wins, an exact tie going up.
  Above a power of two the interval reaches a quarter of a unit down and half a unit up.
* `render` writes that decimal out with a point and without an exponent (`0.5`, `100`,
  `0.000001`), a minus sign in front when asked for.
-/

namespace TradeLedger

/-- A finite non-negative double, `mantissa * 2 ^ exponent`. Values made by `round?` have a
mantissa below `2 ^ 53`, and of at least `2 ^ 52` unless the exponent is the least, `-1074`. -/
structure Double where
  /-- The integer significand. -/
  mantissa : Nat
  /-- The power of two it is scaled by. -/
  exponent : Int
  deriving DecidableEq, Inhabited

namespace Double

def zero : Double := ⟨0, -1074⟩

def atLeastPow2 (num den : Nat) (t : Int) : Bool :=
  if 0 ≤ t then den * Nat.pow 2 t.toNat ≤ num else den ≤ num * Nat.pow 2 (-t).toNat

/-- `⌊log₂ (num / den)⌋` for positive `num` and `den`: the ratio lies strictly between
`2 ^ (log₂ num - log₂ den - 1)` and `2 ^ (log₂ num - log₂ den + 1)`, so one comparison settles
it. -/
def log2Ratio (num den : Nat) : Int :=
  let k : Int := (Nat.log2 num : Int) - Nat.log2 den
  if atLeastPow2 num den k then k else k - 1

/-- `num / den` rounded to the nearest natural number, a tie going to the even one. -/
def roundHalfEven (num den : Nat) : Nat :=
  let q := num / den
  let r := num % den
  if 2 * r > den ∨ (2 * r = den ∧ q % 2 = 1) then q + 1 else q

/-- The double nearest to `num / den * 2 ^ shift` (for `den > 0`), a tie going to the even
mantissa; `none` when the value rounds to infinity. -/
def round? (num den : Nat) (shift : Int) : Option Double :=
  if num = 0 then some zero
  else
    let q := max (log2Ratio num den + shift - 52) (-1074)
    let s := shift - q
    let m := if 0 ≤ s then roundHalfEven (num * Nat.pow 2 s.toNat) den
      else roundHalfEven num (den * Nat.pow 2 (-s).toNat)
    let (m, q) := if m = Nat.pow 2 53 then (Nat.pow 2 52, q + 1) else (m, q)
    if q > 971 then none else some ⟨m, q⟩

def ofNat? (n : Nat) : Option Double := round? n 1 0

def tenTo? (k : Nat) : Option Double := round? (Nat.pow 10 k) 1 0

/-- The product, rounded once; `none` when it is infinite. -/
def mul? (a b : Double) : Option Double := round? (a.mantissa * b.mantissa) 1 (a.exponent + b.exponent)

/-- The quotient by a non-zero double, rounded once. -/
def div? (a b : Double) : Option Double := round? a.mantissa b.mantissa (a.exponent - b.exponent)

/-- The double of `significand * 10 ^ exponent` as a JSON reader computes it, in up to three
roundings rather than one: the significand is rounded to a double, then multiplied by the double
nearest `10 ^ exponent`, or divided by the double nearest `10 ^ -exponent`. When the power is
beyond `10 ^ 308`, a positive one is out of range unless the significand is zero, and a negative
one first divides by the double of `10 ^ 308` (at most twice before the value is zero).
`none` when a product is infinite. -/
def ofScaled? (significand : Nat) (exponent : Int) : Option Double := do
  scaleBy 3 (← ofNat? significand) exponent
where
  /-- Applies `10 ^ e` to `f`, with fuel for the divisions by `10 ^ 308`. -/
  scaleBy : Nat → Double → Int → Option Double
    | fuel, f, e =>
      if e.natAbs ≤ 308 then do
        let p ← tenTo? e.natAbs
        if 0 ≤ e then mul? f p else div? f p
      else if f.mantissa = 0 then some f
      else if 0 ≤ e then none
      else
        match fuel with
        | 0 => some zero
        | fuel + 1 => do scaleBy fuel (← div? f (← tenTo? 308)) (e + 308)

/-! ## Shortest decimal text -/

def digitCount (n : Nat) : Nat := (Nat.toDigits 10 n).length

/-- `⌊log₁₀ v⌋` of a positive double. Below 1, `v * 10 ^ j` is the whole number
`mantissa * 5 ^ j` for `j = -exponent`. -/
def log10Floor (d : Double) : Int :=
  if 0 ≤ d.exponent then (digitCount (d.mantissa * Nat.pow 2 d.exponent.toNat) : Int) - 1
  else
    let j := (-d.exponent).toNat
    (digitCount (d.mantissa * Nat.pow 5 j) : Int) - 1 - j

/-- The digits of a decimal read off the grid of spacing `10 ^ p`, if one of the value's two
neighbours on that grid lies in the interval the double stands for. Values are compared as whole
numbers after scaling by `2 ^ max (2 - e) 0 * 10 ^ max (-p) 0`, where `e` is the exponent: the
interval's ends are quarter units of the mantissa. The interval is half a unit wide on each side,
but only a quarter unit below a mantissa of exactly `2 ^ 52`; its ends belong to it when the
mantissa is even, and always for a subnormal, whose mantissa counts in half units. -/
def gridHit (d : Double) (p : Int) : Option Nat :=
  let e := d.exponent
  let asymmetric := d.mantissa = Nat.pow 2 52
  let bound (quarters : Nat) : Nat :=
    quarters * Nat.pow 2 (e - 2).toNat * Nat.pow 10 (-p).toNat
  let unit := Nat.pow 10 p.toNat * Nat.pow 2 (2 - e).toNat
  let v := bound (4 * d.mantissa)
  let low := bound (4 * d.mantissa - (if asymmetric then 1 else 2))
  let high := bound (4 * d.mantissa + 2)
  let inclusive := d.mantissa % 2 = 0 ∨ d.mantissa < Nat.pow 2 52
  let c := v / unit
  let down := if inclusive then low ≤ c * unit else low < c * unit
  let up := if inclusive then (c + 1) * unit ≤ high else (c + 1) * unit < high
  if up ∧ (!down ∨ v - c * unit ≥ (c + 1) * unit - v) then some (c + 1)
  else if down then some c
  else none

def dropZeros : Nat → Nat → Int → Nat × Int
  | 0, c, p => (c, p)
  | fuel + 1, c, p => if c ≠ 0 ∧ c % 10 = 0 then dropZeros fuel (c / 10) (p + 1) else (c, p)

/-- The shortest decimal `c * 10 ^ p` that rounds back to a positive double, found on the
grids of 1 to 17 significant digits (17 always suffice). -/
def shortest (d : Double) : Nat × Int :=
  let k := log10Floor d
  let hit := (List.range 17).findSome? fun (i : Nat) =>
    (gridHit d (k - i)).map fun c => (c, k - (i : Int))
  let (c, p) := hit.getD (d.mantissa, 0)
  dropZeros (digitCount c) c p

/-- A decimal `c * 10 ^ p` written with a point and no exponent, without trailing zeros after
the point. -/
def positional (c : Nat) (p : Int) : String :=
  let ds := Nat.toDigits 10 c
  let point := (ds.length : Int) + p
  if point ≤ 0 then "0." ++ String.ofList (List.replicate (-point).toNat '0' ++ ds)
  else if point < ds.length then
    String.ofList (ds.take point.toNat) ++ "." ++ String.ofList (ds.drop point.toNat)
  else String.ofList (ds ++ List.replicate (point - ds.length).toNat '0')

/-- The shortest text of a double, negated when `negative` holds (also for zero: `-0`). -/
def render (negative : Bool) (d : Double) : String :=
  (if negative then "-" else "") ++
    (if d.mantissa = 0 then "0" else let (c, p) := d.shortest; positional c p)

end Double

end TradeLedger
