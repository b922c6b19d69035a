import TradeLedger.Proofs.FillConservation

/-!
# Exact decimal products

A decimal product is exact whenever its digits fit: a mantissa below `2 ^ 96` at a scale of at
most 28 (`Decimal.mul?_exact`). Rounding to a whole number loses nothing when the digits after the
point are zeros, and a scale-0 decimal converts to the word of its signed mantissa. On a grid of
one raw unit per whole unit a raw size is its own value.

Put together: on whole lots, at a price and multiplier whose product with the margin grid is a
whole number of raw units that fits with room for any size, the margin value is exactly the size
times that number (`ContractTerms.roundsLinearly_of_whole_lots`).
-/

namespace TradeLedger

theorem Word.natAbs_toInt_le (x : Int64) : x.toInt.natAbs ≤ 9223372036854775808 := by
  have := Int64.le_toInt x
  have := Int64.toInt_lt x
  omega

namespace Decimal

theorem fitDrop_of_lt {n s : Nat} (hn : n < bound) (hs : s ≤ 28) : fitDrop n s = some 0 := by
  unfold fitDrop
  rw [show s - 28 = 0 by omega, show s + 1 - 0 = s + 1 by omega, List.range'_succ]
  simp [hn]

theorem fit_of_lt {negative : Bool} {n s : Nat} (hn : n < bound) (hs : s ≤ 28) :
    fit negative n s = some ⟨negative, n, s, hn, hs⟩ := by
  unfold fit
  rw [fitDrop_of_lt hn hs]
  simp only [roundDiv_zero, Nat.sub_zero]
  unfold make?
  rw [dif_pos ⟨hn, hs⟩]

theorem mul?_of_left_zero {a : Decimal} (ha : a.mantissa = 0) (b : Decimal) : a.mul? b = some zero := by
  simp [mul?, ha]

theorem mul?_of_right_zero (a : Decimal) {b : Decimal} (hb : b.mantissa = 0) : a.mul? b = some zero := by
  simp [mul?, hb]

/-- A product whose digits fit is exact. -/
theorem mul?_exact {a b : Decimal} (ha : a.mantissa ≠ 0) (hb : b.mantissa ≠ 0)
    (h : a.mantissa * b.mantissa < bound) (hs : a.scale + b.scale ≤ 28) :
    a.mul? b = some ⟨a.negative != b.negative, a.mantissa * b.mantissa, a.scale + b.scale, h, hs⟩ := by
  unfold mul?
  simp only [ha, hb, or_self, if_false]
  split
  · rw [if_neg (by omega), fit_of_lt h hs]
    simp [dropZeroSign, Nat.mul_ne_zero ha hb]
  · exact fit_of_lt h hs

theorem roundDiv_of_dvd (tie : Tie) {n k : Nat} (h : pow10 k ∣ n) : roundDiv tie n k = n / pow10 k := by
  have hr : n % pow10 k = 0 := Nat.mod_eq_zero_of_dvd h
  have hp := pow10_pos k
  cases tie <;> simp only [roundDiv, hr] <;> split <;> omega

theorem roundWhole_of_dvd (tie : Tie) {d : Decimal} (hm : d.mantissa ≠ 0)
    (h : pow10 d.scale ∣ d.mantissa) :
    (d.roundWhole tie).negative = d.negative ∧ (d.roundWhole tie).mantissa = d.mantissa / pow10 d.scale ∧
      (d.roundWhole tie).scale = 0 := by
  unfold roundWhole
  rw [if_neg hm]
  split
  · rename_i hs
    simp [hs]
  · have hq : d.mantissa / pow10 d.scale ≠ 0 :=
      Nat.div_ne_zero_iff_of_dvd h |>.mpr ⟨hm, Nat.pos_iff_ne_zero.mp (pow10_pos _)⟩
    simp [roundDiv_of_dvd tie h, hq]

theorem toInt64?_of_scale_zero {d : Decimal} (hs : d.scale = 0) : d.toInt64? = Word.ofInt? d.num := by
  simp [toInt64?, hs, num]

/-- A decimal whose digits after the point are zeros rounds to the word of its whole part. -/
theorem toInt_of_roundWhole_of_dvd {tie : Tie} {d : Decimal} {v : Int64}
    (h : (d.roundWhole tie).toInt64? = some v) (hm : d.mantissa ≠ 0)
    (hdvd : pow10 d.scale ∣ d.mantissa) :
    v.toInt = if d.negative then -((d.mantissa / pow10 d.scale : Nat) : Int)
      else ((d.mantissa / pow10 d.scale : Nat) : Int) := by
  obtain ⟨hn, hmant, hs⟩ := roundWhole_of_dvd tie hm hdvd
  rw [toInt64?_of_scale_zero hs] at h
  rw [Word.toInt_of_ofInt? h, num, hn, hmant]

end Decimal

theorem Precision.fromRaw_of_scale_one {p : Precision} (hp : p.scale = 1) (x : Int64) :
    p.fromRaw x = Decimal.ofInt64 x := by
  unfold fromRaw Decimal.div?
  have hunit : p.unit.mantissa = 1 := hp
  rw [if_neg (by omega)]
  split
  · rename_i hx
    have hx' : x.toInt = 0 := Int.natAbs_eq_zero.mp hx
    simp [Decimal.zero, Decimal.ofInt64, Decimal.ofInt, hx']
  · rename_i hx
    have hdiv : Decimal.divRounds 1 64 (Decimal.ofInt64 x).mantissa 0 0 false =
        some ((Decimal.ofInt64 x).mantissa, 0, false) := rfl
    rw [hunit, Nat.div_one, Nat.mod_one, show p.unit.scale = 0 from rfl, Nat.cast_zero, sub_zero,
      show (Decimal.ofInt64 x).scale = 0 from rfl, Nat.cast_zero, hdiv]
    have hx' : x.toInt.natAbs ≠ 0 := hx
    simp [Decimal.normalized?, Decimal.make?, Decimal.ofInt64, Decimal.ofInt, Precision.unit,
      Decimal.natAbs_toInt_lt_bound x]
    have hne : (x.toInt.natAbs != 0) = true := bne_iff_ne.mpr hx'
    rw [hne, Bool.and_true]

section Linear

open Decimal

theorem Precision.toRaw?_of_zero {p : Precision} {d : Decimal} (hd : d.mantissa = 0) :
    p.toRaw? d = some 0 := by
  simp [Precision.toRaw?, mul?_of_left_zero hd, roundWhole, toInt64?, zero, Word.ofInt?, Word.inRange]

theorem ContractTerms.marginValue?_of_zero_factor {t : ContractTerms} {price : Decimal}
    {x v : Int64} (hlot : t.lot.scale = 1)
    (hzero : x.toInt = 0 ∨ price.mantissa = 0 ∨ t.multiplier.mantissa = 0)
    (h : t.marginValue? x price = some v) : v = 0 := by
  unfold marginValue? at h
  rw [Precision.fromRaw_of_scale_one hlot] at h
  rcases hzero with hx | hP | hM
  · rw [mul?_of_left_zero (by simp [ofInt64, ofInt, hx])] at h
    simp only [Option.bind_eq_bind, Option.bind_some, mul?_of_left_zero (rfl : zero.mantissa = 0),
      Precision.toRaw?_of_zero (rfl : zero.mantissa = 0)] at h
    exact (Option.some.inj h).symm
  · rw [mul?_of_right_zero _ hP] at h
    simp only [Option.bind_eq_bind, Option.bind_some, mul?_of_left_zero (rfl : zero.mantissa = 0),
      Precision.toRaw?_of_zero (rfl : zero.mantissa = 0)] at h
    exact (Option.some.inj h).symm
  · simp only [Option.bind_eq_bind, mul?_of_right_zero _ hM, Option.bind_some,
      Precision.toRaw?_of_zero (rfl : zero.mantissa = 0)] at h
    obtain ⟨_, -, h⟩ := Option.bind_eq_some_iff.mp h
    exact (Option.some.inj h).symm

theorem Decimal.rate_eq_of_dvd {price m : Decimal} {G Q : Nat}
    (hQ : price.mantissa * m.mantissa * G = pow10 (price.scale + m.scale) * Q) :
    ((price.num * m.num * G : Int) : ℚ) / (pow10 (price.scale + m.scale) : ℚ) =
      (if price.negative then -1 else 1) * (if m.negative then -1 else 1) * (Q : ℚ) := by
  have hpow : (pow10 (price.scale + m.scale) : ℚ) ≠ 0 := by exact_mod_cast (pow10_pos _).ne'
  rw [div_eq_iff hpow]
  have hQ' : ((price.mantissa * m.mantissa * G : ℕ) : ℚ) = (pow10 (price.scale + m.scale) : ℚ) * Q := by
    exact_mod_cast hQ
  push_cast at hQ'
  cases hpn : price.negative <;> cases hmn : m.negative <;> simp [num, hpn, hmn] <;>
    linear_combination hQ'

/-- On whole lots, at a price and multiplier whose product with the margin grid is a whole number
of raw units with room for any size, the margin value is exactly the size times that number. -/
theorem ContractTerms.roundsLinearly_of_whole_lots {t : ContractTerms} {price : Decimal}
    (hlot : t.lot.scale = 1) (hs : price.scale + t.multiplier.scale ≤ 28)
    (hfit : 9223372036854775808 * (price.mantissa * t.multiplier.mantissa * t.margin.scale) < bound)
    (hdvd : pow10 (price.scale + t.multiplier.scale) ∣
      price.mantissa * t.multiplier.mantissa * t.margin.scale) :
    t.RoundsLinearly price ((price.num * t.multiplier.num * t.margin.scale : Int) /
      (pow10 (price.scale + t.multiplier.scale) : ℚ)) := by
  intro x v h
  by_cases hzero : x.toInt = 0 ∨ price.mantissa = 0 ∨ t.multiplier.mantissa = 0
  · have hv := t.marginValue?_of_zero_factor hlot hzero h
    have hk : (x.toInt : ℚ) * ((price.num * t.multiplier.num * t.margin.scale : Int) /
        (pow10 (price.scale + t.multiplier.scale) : ℚ)) = 0 := by
      rcases hzero with hx | hP | hM
      · simp [hx]
      · simp [num, hP]
      · simp [num, hM]
    rw [hv, hk]
    simp
  · unfold marginValue? at h
    rw [Precision.fromRaw_of_scale_one hlot] at h
    simp only [not_or] at hzero
    obtain ⟨hx, hP, hM⟩ := hzero
    have hx' : (ofInt64 x).mantissa ≠ 0 := by simpa [ofInt64, ofInt] using hx
    have hxle := Word.natAbs_toInt_le x
    have hG := t.margin.pos
    have hP₁ : price.mantissa ≤ price.mantissa * t.multiplier.mantissa * t.margin.scale :=
      Nat.le_mul_of_pos_right _ hG |>.trans' (Nat.le_mul_of_pos_right _ (Nat.pos_of_ne_zero hM))
    have hP₂ : price.mantissa * t.multiplier.mantissa ≤
        price.mantissa * t.multiplier.mantissa * t.margin.scale := Nat.le_mul_of_pos_right _ hG
    have h₁ : (ofInt64 x).mantissa * price.mantissa < bound :=
      lt_of_le_of_lt (Nat.mul_le_mul hxle hP₁) hfit
    have h₂ : (ofInt64 x).mantissa * price.mantissa * t.multiplier.mantissa < bound := by
      rw [Nat.mul_assoc]
      exact lt_of_le_of_lt (Nat.mul_le_mul hxle hP₂) hfit
    have h₃ : (ofInt64 x).mantissa * price.mantissa * t.multiplier.mantissa * t.margin.unit.mantissa <
        bound := by
      rw [show t.margin.unit.mantissa = t.margin.scale from rfl, Nat.mul_assoc, Nat.mul_assoc,
        ← Nat.mul_assoc price.mantissa]
      exact lt_of_le_of_lt (Nat.mul_le_mul hxle le_rfl) hfit
    rw [mul?_exact hx' hP h₁ (by simpa [ofInt64, ofInt] using hs.trans' (Nat.le_add_right _ _))] at h
    simp only [Option.bind_eq_bind, Option.bind_some] at h
    rw [mul?_exact (Nat.mul_ne_zero hx' hP) hM h₂ (by simp [ofInt64, ofInt]; omega)] at h
    simp only [Option.bind_some, Precision.toRaw?, Option.bind_eq_bind] at h
    rw [mul?_exact (Nat.mul_ne_zero (Nat.mul_ne_zero hx' hP) hM) (by simp [Precision.unit]; omega) h₃
      (by simp [ofInt64, ofInt, Precision.unit]; omega)] at h
    simp only [Option.bind_some] at h
    have hv := toInt_of_roundWhole_of_dvd h (Nat.mul_ne_zero (Nat.mul_ne_zero (Nat.mul_ne_zero hx' hP) hM)
      (by simp [Precision.unit]; omega)) (by
        simp only [ofInt64, ofInt, Precision.unit, Nat.zero_add, Nat.add_zero]
        rw [Nat.mul_assoc, Nat.mul_assoc, ← Nat.mul_assoc price.mantissa]
        exact Dvd.dvd.mul_left hdvd _)
    obtain ⟨Q, hQ⟩ := hdvd
    have hmant : (ofInt64 x).mantissa * price.mantissa * t.multiplier.mantissa *
        t.margin.unit.mantissa / pow10 ((ofInt64 x).scale + price.scale + t.multiplier.scale +
          t.margin.unit.scale) = x.toInt.natAbs * Q := by
      simp only [ofInt64, ofInt, Precision.unit, Nat.zero_add, Nat.add_zero]
      rw [Nat.mul_assoc, Nat.mul_assoc, ← Nat.mul_assoc price.mantissa, hQ, Nat.mul_left_comm,
        Nat.mul_div_cancel_left _ (pow10_pos _)]
    dsimp only at hv
    rw [hmant] at hv
    rw [rate_eq_of_dvd hQ, hv]
    rcases lt_or_gt_of_ne hx with hneg | hpos
    · have hxa : (x.toInt : ℚ) = -(x.toInt.natAbs : ℚ) := by
        rw [← Int.cast_natCast, Int.ofNat_natAbs_of_nonpos hneg.le]; push_cast; ring
      rw [hxa]
      cases price.negative <;> cases t.multiplier.negative <;>
        simp [ofInt64, ofInt, Precision.unit, hneg]
    · have hxa : (x.toInt : ℚ) = (x.toInt.natAbs : ℚ) := by
        rw [← Int.cast_natCast, Int.natAbs_of_nonneg hpos.le]
      rw [hxa]
      cases price.negative <;> cases t.multiplier.negative <;>
        simp [ofInt64, ofInt, Precision.unit, not_lt.mpr hpos.le]

end Linear

end TradeLedger
