import TradeLedger.Decimal.Basic
import TradeLedger.Word

/-!
# Rounding decimals

Dropping `k` trailing digits of a mantissa `n` is division by `10 ^ k`, followed by a rounding
rule for the dropped part. Two rules occur: ties to the even neighbour (the default) and ties
away from zero. On top of these sit the conversions to whole numbers: rounding, truncation,
ceiling and floor, each giving a decimal of scale 0, and the conversion to a machine integer.

`fit` brings an exact result that may be too wide (a mantissa of 2 ^ 96 or more, or a scale
above 28) back into range by dropping the fewest digits that make it fit.
-/

namespace TradeLedger

namespace Decimal

/-- The rule for a dropped part of exactly one half. -/
inductive Tie where
  /-- Ties go to the even neighbour. -/
  | toEven
  /-- Ties go away from zero. -/
  | awayFromZero
  deriving DecidableEq, Repr

/-- `n / 10 ^ k` rounded to the nearest whole number, ties as `tie` says. -/
def roundDiv (tie : Tie) (n k : Nat) : Nat :=
  let p := pow10 k
  let q := n / p
  let r := n % p
  match tie with
  | .toEven => if 2 * r > p ∨ (2 * r = p ∧ q % 2 = 1) then q + 1 else q
  | .awayFromZero => if k ≠ 0 ∧ 2 * r ≥ p then q + 1 else q

@[simp] theorem roundDiv_zero (tie : Tie) (n : Nat) : roundDiv tie n 0 = n := by
  cases tie <;> simp [roundDiv, Nat.mod_one]

theorem roundDiv_le (tie : Tie) (n k : Nat) : roundDiv tie n k ≤ n / pow10 k + 1 := by
  cases tie <;> simp only [roundDiv] <;> split <;> omega

theorem div_le_roundDiv (tie : Tie) (n k : Nat) : n / pow10 k ≤ roundDiv tie n k := by
  cases tie <;> simp only [roundDiv] <;> split <;> omega

/-- The number of digits to drop from `n` at scale `s` so that the result, rounded with ties to
even, has a mantissa below `2 ^ 96` and a scale of at most 28: the fewest such, and never more
than `s`. -/
def fitDrop (n s : Nat) : Option Nat :=
  (List.range' (s - 28) (s + 1 - (s - 28))).find? (fun k => roundDiv .toEven n k < bound)

/-- The exact result `± n / 10 ^ s`, brought into range by `fitDrop`; `none` when even scale 0
cannot hold it. The sign flag stays, also on a result rounded to zero. -/
def fit (negative : Bool) (n s : Nat) : Option Decimal :=
  match fitDrop n s with
  | some k => make? negative (roundDiv .toEven n k) (s - k)
  | none => none

theorem quotient_succ_lt {m s : Nat} (hm : m < bound) (hs : s ≠ 0) : m / pow10 s + 1 < bound := by
  have h1 : pow10 1 ≤ pow10 s := pow10_le_pow10 (by omega)
  have h2 : m / pow10 s ≤ m / 10 := Nat.div_le_div_left h1 (by decide)
  unfold bound at *
  omega

theorem roundDiv_lt {m s : Nat} (tie : Tie) (hm : m < bound) (hs : s ≠ 0) :
    roundDiv tie m s < bound :=
  Nat.lt_of_le_of_lt (roundDiv_le tie m s) (quotient_succ_lt hm hs)

/-- The whole number nearest to `d`, ties as `tie` says, at scale 0. A zero keeps its sign flag;
any other result that rounds to zero drops it. -/
def roundWhole (tie : Tie) (d : Decimal) : Decimal :=
  if d.mantissa = 0 then ⟨d.negative, 0, 0, zero_lt_bound, zero_le_maxScale⟩
  else if hs : d.scale = 0 then d
  else
    let q := roundDiv tie d.mantissa d.scale
    ⟨d.negative && q != 0, q, 0, roundDiv_lt tie d.mantissa_lt hs, zero_le_maxScale⟩

/-- Banker's rounding to a whole number. -/
def round (d : Decimal) : Decimal := roundWhole .toEven d

/-- The integer part, at scale 0; a zero result drops the sign flag. -/
def trunc (d : Decimal) : Decimal :=
  let q := d.mantissa / pow10 d.scale
  ⟨d.negative && q != 0, q, 0, Nat.lt_of_le_of_lt (Nat.div_le_self _ _) d.mantissa_lt, zero_le_maxScale⟩

def hasFraction (d : Decimal) : Bool := d.mantissa % pow10 d.scale != 0

/-- The smallest whole number not below `d`, at scale 0; a decimal of scale 0 is returned as
it is. -/
def ceil (d : Decimal) : Decimal :=
  if hs : d.scale = 0 then d
  else if !d.negative && d.hasFraction then
    ⟨false, d.mantissa / pow10 d.scale + 1, 0, quotient_succ_lt d.mantissa_lt hs, zero_le_maxScale⟩
  else d.trunc

/-- The largest whole number not above `d`, at scale 0; a decimal of scale 0 is returned as
it is. -/
def floor (d : Decimal) : Decimal :=
  if hs : d.scale = 0 then d
  else if d.negative && d.hasFraction then
    ⟨true, d.mantissa / pow10 d.scale + 1, 0, quotient_succ_lt d.mantissa_lt hs, zero_le_maxScale⟩
  else d.trunc

def toInt64? (d : Decimal) : Option Int64 :=
  let q : Int := (d.mantissa / pow10 d.scale : Nat)
  Word.ofInt? (if d.negative then -q else q)

/-- Drops the trailing zeros of the digits after the point, down to scale 0 at most; a zero
becomes the unsigned zero of scale 0. -/
def normalize (d : Decimal) : Decimal :=
  if d.mantissa = 0 then zero
  else
    let k := ((List.range (d.scale + 1)).filter (fun j => d.mantissa % pow10 j = 0)).length - 1
    ⟨d.negative, d.mantissa / pow10 k, d.scale - k,
      Nat.lt_of_le_of_lt (Nat.div_le_self _ _) d.mantissa_lt, Nat.le_trans (Nat.sub_le _ _) d.scale_le⟩

@[simp] theorem trunc_scale (d : Decimal) : d.trunc.scale = 0 := rfl

end Decimal

end TradeLedger
