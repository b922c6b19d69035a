/-!
# Fixed-scale decimals

A `Decimal` is a sign flag, a natural-number mantissa below `2 ^ 96` and a scale from 0 to 28;
its value is `± mantissa / 10 ^ scale`. The scale belongs to the number (`1.50` and `1.5` are
different decimals of equal value) and zero may carry the sign flag. Comparisons are by value,
so `-0 = 0` and `1.50 = 1.5` as far as `compare` is concerned, while `=` is the structural
equality of the three fields.
-/

namespace TradeLedger

/-- A decimal number `± mantissa / 10 ^ scale` with a 96-bit mantissa and at most 28 places. -/
structure Decimal where
  /-- The sign flag. A zero mantissa may carry it. -/
  negative : Bool
  /-- All digits of the number, read as one natural number. -/
  mantissa : Nat
  /-- How many of those digits stand after the decimal point. -/
  scale : Nat
  /-- The mantissa is below `2 ^ 96`. -/
  mantissa_lt : mantissa < 79228162514264337593543950336
  scale_le : scale ≤ 28
  deriving DecidableEq

namespace Decimal

def maxScale : Nat := 28

def bound : Nat := 79228162514264337593543950336

theorem bound_eq : bound = Nat.pow 2 96 := rfl

def limb : Nat := 4294967296

theorem limb_eq : limb = Nat.pow 2 32 := rfl

def pow10 (k : Nat) : Nat := Nat.pow 10 k

@[simp] theorem pow10_zero : pow10 0 = 1 := rfl

theorem pow10_succ (k : Nat) : pow10 (k + 1) = pow10 k * 10 := rfl

theorem pow10_pos (k : Nat) : 0 < pow10 k := Nat.pow_pos (by decide)

theorem pow10_le_pow10 {j k : Nat} (h : j ≤ k) : pow10 j ≤ pow10 k :=
  Nat.pow_le_pow_right (by decide) h

def make? (negative : Bool) (mantissa scale : Nat) : Option Decimal :=
  if h : mantissa < bound ∧ scale ≤ 28 then some ⟨negative, mantissa, scale, h.1, h.2⟩ else none

def normalized? (negative : Bool) (mantissa scale : Nat) : Option Decimal :=
  make? (negative && mantissa != 0) mantissa scale

theorem zero_lt_bound : 0 < bound := by decide

theorem zero_le_maxScale : 0 ≤ 28 := Nat.zero_le _

theorem one_lt_bound : 1 < bound := by decide

theorem pred_bound_lt_bound : 79228162514264337593543950335 < bound := by decide

def zero : Decimal := ⟨false, 0, 0, zero_lt_bound, zero_le_maxScale⟩

def one : Decimal := ⟨false, 1, 0, one_lt_bound, zero_le_maxScale⟩

/-- The largest decimal, `2 ^ 96 - 1`. -/
def max : Decimal := ⟨false, 79228162514264337593543950335, 0, pred_bound_lt_bound, zero_le_maxScale⟩

/-- The decimal with the given sign, mantissa and scale when they fit, and zero otherwise: the
way to write a decimal constant. -/
def ofParts (negative : Bool) (mantissa scale : Nat) : Decimal :=
  (make? negative mantissa scale).getD zero

instance : Inhabited Decimal := ⟨zero⟩

def num (d : Decimal) : Int := if d.negative then -(d.mantissa : Int) else d.mantissa

/-- A decimal is zero when its mantissa is, whatever its scale and sign flag. -/
def isZero (d : Decimal) : Bool := d.mantissa == 0

def isPos (d : Decimal) : Bool := !d.negative && d.mantissa != 0

def isNeg (d : Decimal) : Bool := d.negative && d.mantissa != 0

/-- The same digits with the sign flag flipped; zero keeps its digits and scale. -/
def neg (d : Decimal) : Decimal := { d with negative := !d.negative }

def abs (d : Decimal) : Decimal := { d with negative := false }

/-- The same number, with the sign flag dropped from a zero. -/
def dropZeroSign (d : Decimal) : Decimal := if d.mantissa = 0 then d.abs else d

def ofInt (n : Int) (h : n.natAbs < bound) : Decimal := ⟨decide (n < 0), n.natAbs, 0, h, zero_le_maxScale⟩

theorem natAbs_toInt_lt_bound (n : Int64) : n.toInt.natAbs < bound := by
  have := Int64.le_toInt n
  have := Int64.toInt_lt n
  unfold bound
  omega

def ofInt64 (n : Int64) : Decimal :=
  ofInt n.toInt (natAbs_toInt_lt_bound n)

/-- Comparison by value: both signed mantissas are brought to the larger scale. -/
def compare (a b : Decimal) : Ordering :=
  let s := Nat.max a.scale b.scale
  Ord.compare (a.num * (pow10 (s - a.scale) : Int)) (b.num * (pow10 (s - b.scale) : Int))

instance : Ord Decimal := ⟨compare⟩

instance : LT Decimal := ⟨fun a b => a.compare b = .lt⟩

instance : LE Decimal := ⟨fun a b => a.compare b ≠ .gt⟩

instance (a b : Decimal) : Decidable (a < b) := inferInstanceAs (Decidable (a.compare b = .lt))

instance (a b : Decimal) : Decidable (a ≤ b) := inferInstanceAs (Decidable (a.compare b ≠ .gt))

def sameValue (a b : Decimal) : Bool := a.compare b == .eq

/-- The larger of two decimals by value; on a tie the first one, so `maxOf x zero` keeps the
scale of a zero `x` (`0.00` stays `0.00`). -/
def maxOf (a b : Decimal) : Decimal := if a < b then b else a

@[simp] theorem num_zero : zero.num = 0 := rfl

@[simp] theorem isZero_iff (d : Decimal) : d.isZero = true ↔ d.mantissa = 0 := by
  simp [isZero]

@[simp] theorem neg_mantissa (d : Decimal) : d.neg.mantissa = d.mantissa := rfl

@[simp] theorem neg_scale (d : Decimal) : d.neg.scale = d.scale := rfl

@[simp] theorem abs_mantissa (d : Decimal) : d.abs.mantissa = d.mantissa := rfl

@[simp] theorem abs_scale (d : Decimal) : d.abs.scale = d.scale := rfl

theorem make?_eq_some {negative : Bool} {m s : Nat} {d : Decimal}
    (h : make? negative m s = some d) : d.negative = negative ∧ d.mantissa = m ∧ d.scale = s := by
  unfold make? at h
  split at h
  · cases h; exact ⟨rfl, rfl, rfl⟩
  · cases h

end Decimal

end TradeLedger
