import TradeLedger.Proofs.GridRoundTrip

/-!
# Decimal arithmetic rounds correctly

The exact result of a sum, a difference, a product or a quotient of two decimals is a rational
number. Each operation returns it rounded to the nearest decimal, ties to even, at the finest
scale that holds it (`Decimal.RoundsTo`): scale 28, or the scale at which one more place would
need a mantissa of `2 ^ 96` or more, or a scale at which the result is exact.

That rounding is monotone (`Decimal.RoundsTo.mono`). At one scale it is rounding to a grid. The
grid of a coarser scale is part of every finer one, and a number that is rounded on a coarser
grid because the finer one overflows lies above every number that a finer grid holds; so two
ordered exact results round to ordered decimals, whatever scales they end at. Every operation
therefore keeps the order of the exact results it is given. Rounding to a whole number with
ties away from zero, by which a value is put on a grid of raw units, is monotone as well
(`Decimal.roundHalfAway_mono`).
-/

namespace TradeLedger

namespace Decimal

/-! ## The value of a decimal -/

/-- The rational number a decimal stands for. -/
def val (d : Decimal) : ℚ := d.num / (pow10 d.scale : ℚ)

theorem pow10_pos_rat (k : Nat) : (0 : ℚ) < pow10 k := by exact_mod_cast pow10_pos k

theorem pow10_add_rat (a b : Nat) : (pow10 (a + b) : ℚ) = pow10 a * pow10 b := by
  rw [pow10_add]
  push_cast
  rfl

theorem val_eq_at {d : Decimal} {s : Nat} (h : d.scale ≤ s) :
    d.val = ((d.num * pow10 (s - d.scale) : ℤ) : ℚ) / pow10 s := by
  have hs : (pow10 s : ℚ) = pow10 d.scale * pow10 (s - d.scale) := by
    rw [← pow10_add_rat, Nat.add_sub_cancel' h]
  have h1 := (pow10_pos_rat d.scale).ne'
  have h2 := (pow10_pos_rat (s - d.scale)).ne'
  unfold val
  rw [hs]
  push_cast
  field_simp

theorem le_iff_val_le (a b : Decimal) : a ≤ b ↔ a.val ≤ b.val := by
  have ha := val_eq_at (Nat.le_max_left a.scale b.scale)
  have hb := val_eq_at (Nat.le_max_right a.scale b.scale)
  rw [ha, hb, div_le_div_iff_of_pos_right (pow10_pos_rat _), Int.cast_le]
  exact Int.compare_ne_gt

theorem lt_iff_val_lt (a b : Decimal) : a < b ↔ a.val < b.val := by
  have ha := val_eq_at (Nat.le_max_left a.scale b.scale)
  have hb := val_eq_at (Nat.le_max_right a.scale b.scale)
  rw [ha, hb, div_lt_div_iff_of_pos_right (pow10_pos_rat _), Int.cast_lt]
  exact Int.compare_eq_lt

@[simp] theorem val_zero : zero.val = 0 := by simp [val, zero, num]

theorem val_of_mantissa_zero {d : Decimal} (h : d.mantissa = 0) : d.val = 0 := by
  simp [val, num, h]

theorem val_eq (d : Decimal) :
    d.val = (if d.negative then -1 else 1) * ((d.mantissa : ℚ) / pow10 d.scale) := by
  unfold val num
  split <;> push_cast <;> ring

/-! ## Rounding half to even -/

/-- The whole number nearest to `z`, ties to the even one. -/
def roundEven (z : ℚ) : ℤ :=
  if z - ⌊z⌋ < 1 / 2 then ⌊z⌋ else if 1 / 2 < z - ⌊z⌋ then ⌊z⌋ + 1 else ⌊z⌋ + ⌊z⌋ % 2

theorem roundEven_bounds (z : ℚ) : ⌊z⌋ ≤ roundEven z ∧ roundEven z ≤ ⌊z⌋ + 1 := by
  have hm0 := Int.emod_nonneg ⌊z⌋ (by norm_num : (2 : ℤ) ≠ 0)
  have hm1 := Int.emod_lt_of_pos ⌊z⌋ (by norm_num : (0 : ℤ) < 2)
  unfold roundEven
  split_ifs <;> omega

theorem abs_roundEven_sub_le (z : ℚ) : |(roundEven z : ℚ) - z| ≤ 1 / 2 := by
  have hlo := Int.floor_le z
  have hhi := Int.lt_floor_add_one z
  have hm0 : (0 : ℚ) ≤ (⌊z⌋ % 2 : ℤ) := by
    exact_mod_cast Int.emod_nonneg ⌊z⌋ (by norm_num : (2 : ℤ) ≠ 0)
  have hm1 : ((⌊z⌋ % 2 : ℤ) : ℚ) ≤ 1 := by exact_mod_cast (show ⌊z⌋ % 2 ≤ 1 by omega)
  unfold roundEven
  split_ifs <;> push_cast <;> rw [abs_le] <;> constructor <;> linarith

@[simp] theorem roundEven_intCast (k : ℤ) : roundEven k = k := by
  simp [roundEven]

@[simp] theorem roundEven_zero : roundEven 0 = 0 := by simpa using roundEven_intCast 0

theorem roundEven_eq_of_near {z : ℚ} {n : ℤ} (h : |z - n| < 1 / 2) : roundEven z = n := by
  have hr := abs_roundEven_sub_le z
  have hlt : |((roundEven z - n : ℤ) : ℚ)| < 1 := by
    push_cast
    calc |(roundEven z : ℚ) - n| = |((roundEven z : ℚ) - z) + (z - n)| := by ring_nf
      _ ≤ |(roundEven z : ℚ) - z| + |z - n| := abs_add_le _ _
      _ < 1 := by linarith
  have : |roundEven z - n| < 1 := by exact_mod_cast hlt
  rw [abs_lt] at this
  omega

theorem le_roundEven_of_lt {z : ℚ} {n : ℤ} (h : (n : ℚ) - 1 / 2 < z) : n ≤ roundEven z := by
  have hr := abs_roundEven_sub_le z
  rw [abs_le] at hr
  have : (n : ℚ) - 1 < roundEven z := by linarith
  have : n - 1 < roundEven z := by exact_mod_cast this
  omega

theorem roundEven_le_of_lt {z : ℚ} {n : ℤ} (h : z < (n : ℚ) + 1 / 2) : roundEven z ≤ n := by
  have hr := abs_roundEven_sub_le z
  rw [abs_le] at hr
  have : (roundEven z : ℚ) < n + 1 := by linarith
  have : roundEven z < n + 1 := by exact_mod_cast this
  omega

theorem sub_half_le_of_le_roundEven {z : ℚ} {n : ℤ} (h : n ≤ roundEven z) : (n : ℚ) - 1 / 2 ≤ z := by
  have hr := abs_roundEven_sub_le z
  rw [abs_le] at hr
  have : (n : ℚ) ≤ roundEven z := by exact_mod_cast h
  linarith

theorem roundEven_mono {z w : ℚ} (h : z ≤ w) : roundEven z ≤ roundEven w := by
  have hf := Int.floor_le_floor h
  rcases lt_or_eq_of_le hf with hlt | heq
  · have := (roundEven_bounds z).2
    have := (roundEven_bounds w).1
    omega
  · unfold roundEven
    rw [heq]
    split_ifs <;> first | omega | (exfalso; linarith)

theorem roundEven_neg (z : ℚ) : roundEven (-z) = -roundEven z := by
  by_cases hz : (⌊z⌋ : ℚ) = z
  · rw [← hz, ← Int.cast_neg, roundEven_intCast, roundEven_intCast]
  · have hlo := Int.floor_le z
    have hhi := Int.lt_floor_add_one z
    have hlt : (⌊z⌋ : ℚ) < z := lt_of_le_of_ne hlo hz
    have hneg : ⌊-z⌋ = -⌊z⌋ - 1 := by
      rw [Int.floor_eq_iff]
      push_cast
      constructor <;> linarith
    unfold roundEven
    rw [hneg]
    push_cast
    split_ifs <;> first | omega | (exfalso; linarith)

theorem roundEven_nonneg {z : ℚ} (h : 0 ≤ z) : 0 ≤ roundEven z := by
  simpa using roundEven_mono h

theorem roundEven_int_add (k : ℤ) {f : ℚ} (h0 : 0 ≤ f) (h1 : f < 1) :
    roundEven (k + f) = if f < 1 / 2 then k else if 1 / 2 < f then k + 1 else k + k % 2 := by
  have hfloor : ⌊(k : ℚ) + f⌋ = k := by
    rw [Int.floor_eq_iff]
    constructor <;> linarith
  unfold roundEven
  rw [hfloor, add_sub_cancel_left]

theorem roundEven_add_frac (q : ℤ) {r d : ℕ} (hr : r < d) :
    roundEven (q + (r : ℚ) / d) =
      if 2 * r < d then q else if d < 2 * r then q + 1 else q + q % 2 := by
  have hd : (0 : ℚ) < d := by exact_mod_cast (Nat.zero_lt_of_lt hr)
  have hr' : (r : ℚ) < d := by exact_mod_cast hr
  have hlt : (r : ℚ) / d < 1 / 2 ↔ 2 * r < d := by
    rw [div_lt_iff₀ hd, ← Nat.cast_lt (α := ℚ)]
    push_cast
    constructor <;> intro h <;> linarith
  have hgt : 1 / 2 < (r : ℚ) / d ↔ d < 2 * r := by
    rw [lt_div_iff₀ hd, ← Nat.cast_lt (α := ℚ)]
    push_cast
    constructor <;> intro h <;> linarith
  rw [roundEven_int_add q (div_nonneg (Nat.cast_nonneg r) hd.le) ((div_lt_one hd).mpr hr')]
  simp only [hlt, hgt]

theorem roundDiv_toEven_eq (n k : Nat) :
    (roundDiv .toEven n k : ℤ) = roundEven ((n : ℚ) / pow10 k) := by
  have hdm := Nat.div_add_mod n (pow10 k)
  have hr := Nat.mod_lt n (pow10_pos k)
  unfold roundDiv
  simp only
  generalize n / pow10 k = q at hdm ⊢
  generalize n % pow10 k = r at hdm hr ⊢
  subst hdm
  have hsplit : ((pow10 k * q + r : ℕ) : ℚ) / pow10 k = ((q : ℕ) : ℤ) + (r : ℚ) / pow10 k := by
    have := (pow10_pos_rat k).ne'
    push_cast
    field_simp
  rw [hsplit, roundEven_add_frac _ hr]
  split_ifs <;> push_cast <;> omega

/-! ## Correct rounding and its order -/

/-- `v` is `x` rounded to the nearest decimal, ties to even, at the finest scale of at most 28
at which the mantissa stays below `2 ^ 96`: the scale `g` of the rounding is 28, or the rounding
is exact, or one more place would need a mantissa of `2 ^ 96` or more. -/
def RoundsTo (x v : ℚ) : Prop :=
  ∃ g ≤ 28, v = roundEven (x * pow10 g) / pow10 g ∧ |roundEven (x * pow10 g)| < (bound : ℤ) ∧
    (g = 28 ∨ v = x ∨ (bound : ℤ) ≤ |roundEven (x * pow10 (g + 1))|)

theorem pow10_split_rat {g h : Nat} (hgh : g ≤ h) : (pow10 h : ℚ) = pow10 g * pow10 (h - g) := by
  rw [← pow10_add_rat, Nat.add_sub_cancel' hgh]

theorem roundEven_of_exact {x : ℚ} {V : ℤ} {g h : Nat} (hx : (V : ℚ) / pow10 g = x)
    (hgh : g ≤ h) : roundEven (x * pow10 h) = V * pow10 (h - g) := by
  have hmul : x * pow10 h = ((V * pow10 (h - g) : ℤ) : ℚ) := by
    have := (pow10_pos_rat g).ne'
    rw [← hx, pow10_split_rat hgh]
    push_cast
    field_simp
  rw [hmul, roundEven_intCast]

theorem eq_roundEven_of_exact {x : ℚ} {V : ℤ} {g h : Nat} (hx : (V : ℚ) / pow10 g = x)
    (hgh : g ≤ h) : x = (roundEven (x * pow10 h) : ℚ) / pow10 h := by
  have := (pow10_pos_rat g).ne'
  have := (pow10_pos_rat (h - g)).ne'
  rw [roundEven_of_exact hx hgh, ← hx, pow10_split_rat hgh]
  push_cast
  field_simp

theorem roundEven_lt_bound_of_le {y : ℚ} (hy : 0 ≤ y) {h h' : Nat} (hh : h' ≤ h)
    (hfit : roundEven (y * pow10 h) < bound) : roundEven (y * pow10 h') < bound := by
  rcases Nat.lt_or_eq_of_le hh with hlt | rfl
  · have hz : y * pow10 h ≤ (bound : ℚ) - 1 / 2 := by
      have := sub_half_le_of_le_roundEven (le_refl (roundEven (y * pow10 h)))
      have hr := abs_roundEven_sub_le (y * pow10 h)
      rw [abs_le] at hr
      have : (roundEven (y * pow10 h) : ℚ) ≤ (bound : ℚ) - 1 := by
        exact_mod_cast (show roundEven (y * pow10 h) ≤ (bound : ℤ) - 1 by omega)
      linarith
    have hstep : (pow10 h' : ℚ) * 10 ≤ pow10 h := by
      have := pow10_le_pow10 (Nat.succ_le_of_lt hlt)
      rw [pow10_succ] at this
      exact_mod_cast this
    have hz' : y * pow10 h' * 10 ≤ (bound : ℚ) - 1 / 2 := by
      calc y * pow10 h' * 10 = y * (pow10 h' * 10) := by ring
        _ ≤ y * pow10 h := mul_le_mul_of_nonneg_left hstep hy
        _ ≤ _ := hz
    have hb : (bound : ℚ) = 79228162514264337593543950336 := by norm_num [bound]
    rw [hb] at hz'
    have h1 : roundEven (y * pow10 h') ≤ 7922816251426433759354395034 :=
      roundEven_le_of_lt (by push_cast; linarith)
    have : (bound : ℤ) = 79228162514264337593543950336 := by norm_num [bound]
    omega
  · exact hfit

theorem boundary_of_overflow {y : ℚ} {h : Nat} (hover : (bound : ℤ) ≤ roundEven (y * pow10 (h + 1))) :
    (bound : ℤ) + 4 ≤ 10 * roundEven (y * pow10 h) := by
  have hz := sub_half_le_of_le_roundEven hover
  have hb : (bound : ℚ) = 79228162514264337593543950336 := by norm_num [bound]
  have hsplit : y * (pow10 (h + 1) : ℚ) = y * pow10 h * 10 := by
    rw [pow10_succ]
    push_cast
    ring
  rw [hsplit] at hz
  push_cast at hz
  rw [hb] at hz
  have hn : (7922816251426433759354395034 : ℤ) ≤ roundEven (y * pow10 h) :=
    le_roundEven_of_lt (by push_cast; linarith)
  have : (bound : ℤ) = 79228162514264337593543950336 := by norm_num [bound]
  omega

theorem RoundsTo.neg {x v : ℚ} (h : RoundsTo x v) : RoundsTo (-x) (-v) := by
  obtain ⟨g, hg, hv, hfit, hfin⟩ := h
  refine ⟨g, hg, ?_, ?_, ?_⟩
  · rw [neg_mul, roundEven_neg, hv]
    push_cast
    ring
  · rwa [neg_mul, roundEven_neg, abs_neg]
  · rcases hfin with h | h | h
    · exact .inl h
    · exact .inr (.inl (by rw [h]))
    · exact .inr (.inr (by rwa [neg_mul, roundEven_neg, abs_neg]))

theorem RoundsTo.nonneg {x v : ℚ} (h : RoundsTo x v) (hx : 0 ≤ x) : 0 ≤ v := by
  obtain ⟨g, -, rfl, -⟩ := h
  have := roundEven_nonneg (mul_nonneg hx (pow10_pos_rat g).le)
  exact div_nonneg (by exact_mod_cast this) (pow10_pos_rat g).le

theorem RoundsTo.nonpos {x v : ℚ} (h : RoundsTo x v) (hx : x ≤ 0) : v ≤ 0 := by
  have := h.neg.nonneg (by linarith)
  linarith

theorem RoundsTo.mono_of_nonneg {x y v w : ℚ} (hx0 : 0 ≤ x) (hxy : x ≤ y) (hx : RoundsTo x v)
    (hy : RoundsTo y w) : v ≤ w := by
  have hy0 : 0 ≤ y := le_trans hx0 hxy
  obtain ⟨g₁, hg₁, rfl, hfit₁, hfin₁⟩ := hx
  obtain ⟨g₂, hg₂, rfl, hfit₂, hfin₂⟩ := hy
  have hscaled : ∀ g : Nat, roundEven (x * pow10 g) ≤ roundEven (y * pow10 g) := fun g =>
    roundEven_mono (mul_le_mul_of_nonneg_right hxy (pow10_pos_rat g).le)
  have hxnn : ∀ g : Nat, 0 ≤ roundEven (x * pow10 g) := fun g =>
    roundEven_nonneg (mul_nonneg hx0 (pow10_pos_rat g).le)
  have hynn : ∀ g : Nat, 0 ≤ roundEven (y * pow10 g) := fun g =>
    roundEven_nonneg (mul_nonneg hy0 (pow10_pos_rat g).le)
  rcases lt_trichotomy g₁ g₂ with hlt | rfl | hgt
  · rcases hfin₁ with h28 | hexact | hover
    · omega
    · calc (roundEven (x * pow10 g₁) : ℚ) / pow10 g₁ = x := hexact
        _ = (roundEven (x * pow10 g₂) : ℚ) / pow10 g₂ := eq_roundEven_of_exact hexact hlt.le
        _ ≤ (roundEven (y * pow10 g₂) : ℚ) / pow10 g₂ :=
            div_le_div_of_nonneg_right (by exact_mod_cast hscaled g₂) (pow10_pos_rat g₂).le
    · exfalso
      rw [abs_of_nonneg (hxnn _)] at hover
      rw [abs_of_nonneg (hynn _)] at hfit₂
      have h3 := roundEven_lt_bound_of_le hy0 (show g₁ + 1 ≤ g₂ by omega) hfit₂
      have := hscaled (g₁ + 1)
      omega
  · exact div_le_div_of_nonneg_right (by exact_mod_cast hscaled g₁) (pow10_pos_rat g₁).le
  · rcases hfin₂ with h28 | hexact | hover
    · omega
    · calc (roundEven (x * pow10 g₁) : ℚ) / pow10 g₁
          ≤ (roundEven (y * pow10 g₁) : ℚ) / pow10 g₁ :=
            div_le_div_of_nonneg_right (by exact_mod_cast hscaled g₁) (pow10_pos_rat g₁).le
        _ = y := (eq_roundEven_of_exact hexact hgt.le).symm
        _ = _ := hexact.symm
    · rw [abs_of_nonneg (hynn _)] at hover
      rw [abs_of_nonneg (hxnn _)] at hfit₁
      have h4 := boundary_of_overflow hover
      have hb : (bound : ℤ) = 79228162514264337593543950336 := by norm_num [bound]
      calc (roundEven (x * pow10 g₁) : ℚ) / pow10 g₁
          ≤ ((79228162514264337593543950335 : ℤ) : ℚ) / pow10 g₁ :=
            div_le_div_of_nonneg_right (by exact_mod_cast (show roundEven (x * pow10 g₁) ≤
              79228162514264337593543950335 by omega)) (pow10_pos_rat _).le
        _ ≤ ((79228162514264337593543950335 : ℤ) : ℚ) / pow10 (g₂ + 1) :=
            div_le_div_of_nonneg_left (by norm_num) (pow10_pos_rat _)
              (by exact_mod_cast pow10_le_pow10 hgt)
        _ ≤ ((10 * roundEven (y * pow10 g₂) : ℤ) : ℚ) / pow10 (g₂ + 1) :=
            div_le_div_of_nonneg_right (by exact_mod_cast (show (79228162514264337593543950335 : ℤ) ≤
              10 * roundEven (y * pow10 g₂) by omega)) (pow10_pos_rat _).le
        _ = (roundEven (y * pow10 g₂) : ℚ) / pow10 g₂ := by
            have := (pow10_pos_rat g₂).ne'
            rw [pow10_succ]
            push_cast
            field_simp

/-- Correct rounding keeps the order: ordered exact results round to ordered decimals. -/
theorem RoundsTo.mono {x y v w : ℚ} (hxy : x ≤ y) (hx : RoundsTo x v) (hy : RoundsTo y w) :
    v ≤ w := by
  rcases le_or_gt 0 x with hx0 | hx0
  · exact mono_of_nonneg hx0 hxy hx hy
  · rcases le_or_gt y 0 with hy0 | hy0
    · have := mono_of_nonneg (by linarith) (neg_le_neg hxy) hy.neg hx.neg
      linarith
    · exact le_trans (hx.nonpos hx0.le) (hy.nonneg hy0.le)

theorem roundsTo_val (d : Decimal) : RoundsTo d.val d.val := by
  have hexact : d.val * pow10 d.scale = (d.num : ℚ) := by
    unfold val
    field_simp [(pow10_pos_rat d.scale).ne']
  refine ⟨d.scale, d.scale_le, ?_, ?_, .inr (.inl rfl)⟩
  · rw [hexact, roundEven_intCast]
    rfl
  · rw [hexact, roundEven_intCast]
    have := d.mantissa_lt
    unfold num
    split <;> simp <;> exact_mod_cast this

/-! ## Fitting an exact result -/

theorem roundEven_signed (negative : Bool) (n k : Nat) :
    roundEven ((if negative then -1 else 1) * ((n : ℚ) / pow10 k)) =
      (if negative then -1 else 1) * (roundDiv .toEven n k : ℤ) := by
  cases negative <;> simp [roundEven_neg, roundDiv_toEven_eq]

theorem signed_at {negative : Bool} {n s g : Nat} (hg : g ≤ s) :
    (if negative then -1 else 1) * ((n : ℚ) / pow10 s) * pow10 g =
      (if negative then -1 else 1) * ((n : ℚ) / pow10 (s - g)) := by
  have := (pow10_pos_rat g).ne'
  have := (pow10_pos_rat (s - g)).ne'
  rw [pow10_split_rat (Nat.sub_le s g), Nat.sub_sub_self hg]
  field_simp

theorem abs_signed_int (negative : Bool) (m : ℤ) : |(if negative then -1 else 1) * m| = |m| := by
  cases negative <;> simp

theorem fit_roundsTo {negative : Bool} {n s : Nat} {d : Decimal}
    (h : fit negative n s = some d) :
    RoundsTo ((if negative then -1 else 1) * ((n : ℚ) / pow10 s)) d.val := by
  unfold fit at h
  cases hk : fitDrop n s with
  | none => simp [hk] at h
  | some k =>
    rw [hk] at h
    obtain ⟨hneg, hmant, hscale⟩ := make?_eq_some h
    have hfind := List.find?_range'_eq_some.mp hk
    obtain ⟨hfits, hmem, hleast⟩ := hfind
    simp only [List.mem_range'_1] at hmem
    simp only [decide_eq_true_eq] at hfits
    refine ⟨s - k, by omega, ?_, ?_, ?_⟩
    · rw [signed_at (Nat.sub_le s k), Nat.sub_sub_self (by omega), roundEven_signed, val_eq,
        hneg, hmant, hscale]
      push_cast
      ring
    · rw [signed_at (Nat.sub_le s k), Nat.sub_sub_self (by omega), roundEven_signed,
        abs_signed_int]
      exact_mod_cast hfits
    · rcases Nat.eq_zero_or_pos k with rfl | hk0
      · refine .inr (.inl ?_)
        simp only [val_eq, hneg, hmant, hscale, roundDiv_zero, Nat.sub_zero]
      · by_cases h28 : s - k = 28
        · exact .inl h28
        · refine .inr (.inr ?_)
          have hprev := hleast (k - 1) (by omega) (by omega)
          simp only [Bool.not_eq_true', decide_eq_false_iff_not, not_lt] at hprev
          rw [signed_at (by omega : s - k + 1 ≤ s), show s - (s - k + 1) = k - 1 by omega,
            roundEven_signed, abs_signed_int]
          exact_mod_cast hprev

/-! ## Products -/

theorem val_mul (a b : Decimal) :
    a.val * b.val = (if (a.negative != b.negative) then -1 else 1) *
      (((a.mantissa * b.mantissa : ℕ) : ℚ) / pow10 (a.scale + b.scale)) := by
  rw [val_eq, val_eq, pow10_add_rat]
  push_cast
  cases a.negative <;> cases b.negative <;> simp <;> ring

theorem val_dropZeroSign (d : Decimal) : d.dropZeroSign.val = d.val := by
  unfold dropZeroSign
  split
  · rename_i h
    rw [val_of_mantissa_zero h, val_of_mantissa_zero (by simpa [abs] using h)]
  · rfl

theorem mul?_roundsTo {a b d : Decimal} (h : a.mul? b = some d) :
    RoundsTo (a.val * b.val) d.val := by
  unfold mul? at h
  split at h
  · rename_i hz
    cases h
    have : a.val * b.val = 0 := by
      rcases hz with hz | hz <;> simp [val_of_mantissa_zero hz]
    rw [this, ← val_zero]
    exact roundsTo_val zero
  · split at h
    · split at h
      · rename_i _ hsmall hwide
        cases h
        have hprod : a.mantissa * b.mantissa < 18446744073709551616 := by
          have := Nat.mul_lt_mul'' hsmall.1 hsmall.2
          simpa [limb] using this
        have hx : |a.val * b.val * pow10 28| < 1 / 2 := by
          rw [val_mul, signed_at (by omega : 28 ≤ a.scale + b.scale), abs_mul]
          have hsign : |(if (a.negative != b.negative) = true then -1 else 1 : ℚ)| = 1 := by
            split <;> simp
          rw [hsign, one_mul, abs_of_nonneg (div_nonneg (Nat.cast_nonneg _) (pow10_pos_rat _).le),
            div_lt_iff₀ (pow10_pos_rat _)]
          have hp : (pow10 20 : ℚ) ≤ pow10 (a.scale + b.scale - 28) := by
            exact_mod_cast pow10_le_pow10 (by omega)
          have : ((a.mantissa * b.mantissa : ℕ) : ℚ) < 18446744073709551616 := by
            exact_mod_cast hprod
          have h20 : (pow10 20 : ℚ) = 100000000000000000000 := by norm_num [pow10]
          linarith
        refine ⟨28, le_rfl, ?_, ?_, .inl rfl⟩
        · rw [roundEven_eq_of_near (n := 0) (by simpa using hx)]
          simp
        · rw [roundEven_eq_of_near (n := 0) (by simpa using hx)]
          simp [bound]
      · obtain ⟨d', hfit, rfl⟩ := Option.map_eq_some_iff.mp h
        rw [val_dropZeroSign, val_mul]
        exact fit_roundsTo hfit
    · rw [val_mul]
      exact fit_roundsTo h

/-! ## Sums and differences -/

theorem val_neg (d : Decimal) : d.neg.val = -d.val := by
  rcases d with ⟨_ | _, m, s, hm, hs⟩ <;> simp [neg, val_eq]

theorem val_eq_signed_at {d : Decimal} {s : Nat} (h : d.scale ≤ s) :
    d.val = (if d.negative then -1 else 1) *
      (((d.mantissa * pow10 (s - d.scale) : ℕ) : ℚ) / pow10 s) := by
  rw [val_eq_at h]
  unfold num
  cases d.negative
  · simp
  · simp
    ring

/-- A sum or difference of two decimals, both moved to the larger scale `s`: the first
operand's sign times the sum or the difference of the two mantissas, by whether the second
operand, as it is added, has the other sign. -/
theorem val_addSigned (a b : Decimal) (subtract : Bool) :
    a.val + (if subtract then -1 else 1) * b.val =
      (if a.negative then -1 else 1) *
        ((((a.mantissa * pow10 (Nat.max a.scale b.scale - a.scale) : ℕ) : ℚ) +
          (if (subtract != (a.negative != b.negative)) then -1 else 1) *
            ((b.mantissa * pow10 (Nat.max a.scale b.scale - b.scale) : ℕ) : ℚ)) /
          pow10 (Nat.max a.scale b.scale)) := by
  rw [val_eq_signed_at (Nat.le_max_left a.scale b.scale),
    val_eq_signed_at (Nat.le_max_right a.scale b.scale)]
  generalize ((a.mantissa * pow10 (Nat.max a.scale b.scale - a.scale) : ℕ) : ℚ) = x
  generalize ((b.mantissa * pow10 (Nat.max a.scale b.scale - b.scale) : ℕ) : ℚ) = y
  generalize (pow10 (Nat.max a.scale b.scale) : ℚ) = p
  cases a.negative <;> cases b.negative <;> cases subtract <;> simp <;> ring

theorem addSigned_roundsTo {a b d : Decimal} {subtract : Bool}
    (h : addSigned a b subtract = some d) :
    RoundsTo (a.val + (if subtract then -1 else 1) * b.val) d.val := by
  unfold addSigned at h
  by_cases ha : a.mantissa = 0
  · rw [if_pos ha] at h
    cases h
    rw [val_of_mantissa_zero ha, zero_add]
    cases subtract
    · simpa using roundsTo_val b
    · by_cases hb0 : b.mantissa = 0
      · simpa [hb0, val_of_mantissa_zero hb0] using roundsTo_val zero
      · simpa [hb0, val_neg] using (roundsTo_val b).neg
  rw [if_neg ha] at h
  by_cases hb : b.mantissa = 0
  · rw [if_pos hb] at h
    cases h
    rw [val_of_mantissa_zero hb, mul_zero, add_zero]
    exact roundsTo_val a
  rw [if_neg hb] at h
  dsimp only at h
  rw [val_addSigned]
  generalize a.mantissa * pow10 (Nat.max a.scale b.scale - a.scale) = x at h ⊢
  generalize b.mantissa * pow10 (Nat.max a.scale b.scale - b.scale) = y at h ⊢
  generalize Nat.max a.scale b.scale = s at h ⊢
  split at h
  · rename_i hopp
    rw [if_pos hopp]
    split at h
    · rename_i hxy
      subst hxy
      obtain ⟨-, hm, -⟩ := make?_eq_some h
      rw [val_of_mantissa_zero hm]
      simpa using roundsTo_val zero
    · split at h
      · rename_i _ hyx
        have := fit_roundsTo h
        rw [Nat.cast_sub hyx.le] at this
        convert this using 2
        ring
      · rename_i hxy hyx
        have := fit_roundsTo h
        rw [Nat.cast_sub (by omega)] at this
        convert this using 1
        cases a.negative <;> simp <;> ring
  · rename_i hsame
    rw [if_neg hsame]
    have := fit_roundsTo h
    push_cast at this
    convert this using 2
    ring

theorem add?_roundsTo {a b d : Decimal} (h : a.add? b = some d) : RoundsTo (a.val + b.val) d.val := by
  simpa using addSigned_roundsTo (show addSigned a b false = some d from h)

theorem sub?_roundsTo {a b d : Decimal} (h : a.sub? b = some d) : RoundsTo (a.val - b.val) d.val := by
  simpa [sub_eq_add_neg] using addSigned_roundsTo (show addSigned a b true = some d from h)

/-! ## Quotients

Long division never holds the exact quotient. It carries a quotient `q` and a remainder `r` at
a place `e`, with `q + r / d` exactly the quotient moved to place `e`, and every way it stops
rounds that number correctly: with nothing left it is exact; at place 28, or where one more
place would not fit, it rounds by the remainder; where the digits of a round run past `2 ^ 96`
it drops the last one, the remainder breaking ties. -/

/-- `Q` units of place `g` are the nonnegative number `X` rounded correctly. -/
def PlaceRounds (X : ℚ) (Q g : Nat) : Prop :=
  g ≤ 28 ∧ (Q : ℤ) = roundEven (X * pow10 g) ∧ Q < bound ∧
    (g = 28 ∨ (Q : ℚ) = X * pow10 g ∨ (bound : ℤ) ≤ roundEven (X * pow10 (g + 1)))

theorem PlaceRounds.roundsTo {X : ℚ} {Q g : Nat} (h : PlaceRounds X Q g) :
    RoundsTo X ((Q : ℚ) / pow10 g) := by
  obtain ⟨hg, hQ, hb, hfin⟩ := h
  refine ⟨g, hg, by rw [← hQ]; push_cast; rfl, by rw [← hQ]; simpa using hb, ?_⟩
  rcases hfin with h | h | h
  · exact .inl h
  · exact .inr (.inl (by rw [h]; field_simp [(pow10_pos_rat g).ne']))
  · exact .inr (.inr (le_trans h (le_abs_self _)))

theorem dropDigit_rounds {v r d q' : Nat} {e e' : ℤ} (hr : r < d)
    (h : dropDigit v e (r != 0) = some (q', e')) :
    1 ≤ e ∧ e' = e - 1 ∧ (q' : ℤ) = roundEven (((v : ℚ) + r / d) / 10) := by
  unfold dropDigit at h
  split at h
  · cases h
  · obtain ⟨rfl, rfl⟩ := Prod.mk.inj (Option.some.inj h)
    refine ⟨by omega, rfl, ?_⟩
    have hd : (0 : ℚ) < d := by exact_mod_cast (Nat.zero_lt_of_lt hr)
    have hρ0 : (0 : ℚ) ≤ r / d := div_nonneg (Nat.cast_nonneg r) hd.le
    have hρ1 : (r : ℚ) / d < 1 := (div_lt_one hd).mpr (by exact_mod_cast hr)
    have hdig : v % 10 < 10 := Nat.mod_lt v (by omega)
    have hsplit : ((v : ℚ) + r / d) / 10 =
        (((v / 10 : ℕ) : ℤ) : ℚ) + (((v % 10 : ℕ) : ℚ) + r / d) / 10 := by
      have hdm : (10 : ℚ) * ((v / 10 : ℕ) : ℚ) + ((v % 10 : ℕ) : ℚ) = v := by
        exact_mod_cast Nat.div_add_mod v 10
      rw [Int.cast_natCast]
      linarith
    have hdigq : ((v % 10 : ℕ) : ℚ) ≤ 9 := by exact_mod_cast (show v % 10 ≤ 9 by omega)
    rw [hsplit, roundEven_int_add _ (by positivity) (by linarith)]
    -- Below five the tenth rounds down, above five up, at five the remainder decides.
    rcases Nat.lt_or_ge (v % 10) 5 with hlo | hhi
    · have h4 : ((v % 10 : ℕ) : ℚ) ≤ 4 := by exact_mod_cast (show v % 10 ≤ 4 by omega)
      have hc : ¬(v % 10 > 5 ∨ v % 10 = 5 ∧ ((r != 0) = true ∨ v / 10 % 2 = 1)) := by
        rintro (h | ⟨h, _⟩) <;> omega
      rw [if_pos (show (((v % 10 : ℕ) : ℚ) + r / d) / 10 < 1 / 2 by linarith), if_neg hc]
    rcases Nat.lt_or_ge 5 (v % 10) with hgt | hle
    · have h6 : (6 : ℚ) ≤ ((v % 10 : ℕ) : ℚ) := by exact_mod_cast hgt
      rw [if_neg (show ¬(((v % 10 : ℕ) : ℚ) + r / d) / 10 < 1 / 2 by linarith),
        if_pos (show 1 / 2 < (((v % 10 : ℕ) : ℚ) + r / d) / 10 by linarith), if_pos (.inl hgt)]
      push_cast
      ring
    have h5 : v % 10 = 5 := by omega
    have h5q : ((v % 10 : ℕ) : ℚ) = 5 := by exact_mod_cast h5
    rcases Nat.eq_zero_or_pos r with rfl | hpos
    · have hf : (((v % 10 : ℕ) : ℚ) + ((0 : ℕ) : ℚ) / d) / 10 = 1 / 2 := by
        rw [h5q]
        norm_num
      rw [hf, if_neg (lt_irrefl _), if_neg (lt_irrefl _)]
      split_ifs with hc <;> simp at hc <;> omega
    · have hpos' : (0 : ℚ) < r / d := div_pos (by exact_mod_cast hpos) hd
      rw [if_neg (show ¬(((v % 10 : ℕ) : ℚ) + r / d) / 10 < 1 / 2 by linarith),
        if_pos (show 1 / 2 < (((v % 10 : ℕ) : ℚ) + r / d) / 10 by linarith),
        if_pos (.inr ⟨h5, .inl (bne_iff_ne.mpr (by omega))⟩)]
      push_cast
      ring

/-- Rounding a quotient by its remainder: at its own place, or, where rounding up reaches
`2 ^ 96`, one place coarser. -/
theorem roundQuotient_rounds {q r d q' : Nat} {e e' : ℤ} (hq : q < bound) (hr : r < d)
    (h : roundQuotient q r d e = some (q', e')) :
    (e' = e ∧ q' < bound ∧ (q' : ℤ) = roundEven (q + (r : ℚ) / d)) ∨
      (1 ≤ e ∧ e' = e - 1 ∧ q' < bound ∧ (q' : ℤ) = roundEven ((q + (r : ℚ) / d) / 10) ∧
        (bound : ℤ) ≤ roundEven (q + (r : ℚ) / d)) := by
  have hround := roundEven_add_frac (q : ℤ) hr
  rw [Int.cast_natCast] at hround
  unfold roundQuotient at h
  split at h
  · rename_i hup
    split at h
    · obtain ⟨rfl, rfl⟩ := Prod.mk.inj (Option.some.inj h)
      refine .inl ⟨rfl, by assumption, ?_⟩
      rw [hround]
      split_ifs <;> omega
    · have hq1 : q + 1 = bound := by omega
      rw [hq1] at h
      unfold dropDigit at h
      split at h
      · cases h
      · obtain ⟨rfl, rfl⟩ := Prod.mk.inj (Option.some.inj h)
        have hd : (0 : ℚ) < d := by exact_mod_cast (Nat.zero_lt_of_lt hr)
        have hhalf : (1 : ℚ) / 2 ≤ r / d := by
          rw [le_div_iff₀ hd]
          have : d ≤ 2 * r := by omega
          have : (d : ℚ) ≤ 2 * r := by exact_mod_cast this
          linarith
        have hr1 : (r : ℚ) / d < 1 := (div_lt_one hd).mpr (by exact_mod_cast hr)
        have hqq : (q : ℚ) = 79228162514264337593543950335 := by
          have : q = 79228162514264337593543950335 := by unfold bound at hq1; omega
          exact_mod_cast this
        refine .inr ⟨by omega, rfl, by decide, ?_, ?_⟩
        · have hdrop : (if bound % 10 > 5 ∨ bound % 10 = 5 ∧ (true = true ∨ bound / 10 % 2 = 1) then
              bound / 10 + 1 else bound / 10) = 7922816251426433759354395034 := by decide
          rw [hdrop, eq_comm]
          apply roundEven_eq_of_near
          rw [abs_sub_lt_iff, hqq]
          push_cast
          constructor <;> linarith
        · rw [hround]
          split_ifs <;> omega
  · obtain ⟨rfl, rfl⟩ := Prod.mk.inj (Option.some.inj h)
    refine .inl ⟨rfl, hq, ?_⟩
    rw [hround]
    split_ifs <;> omega

theorem room_eq_zero {q : Nat} {e : ℤ} (he : e < 28) (h : room q e = some 0) :
    0 ≤ e ∧ bound ≤ q * 10 := by
  have he0 : 0 ≤ e := by
    unfold room at h
    simp only at h
    split at h
    · cases h
    · rename_i hc
      rw [Option.some.inj h] at hc
      omega
  exact ⟨he0, room_zero he0 he h⟩

theorem pow10_eq_zpow (k : Nat) : (pow10 k : ℚ) = (10 : ℚ) ^ (k : ℤ) := by
  rw [zpow_natCast]
  exact_mod_cast rfl

theorem zpow_add_pow10 (e : ℤ) (k : Nat) : (10 : ℚ) ^ (e + k) = 10 ^ e * pow10 k := by
  rw [zpow_add₀ (by norm_num), pow10_eq_zpow]

theorem extend_exact_rat {d : Nat} (hd : 0 < d) (q r k : Nat) :
    ((q * pow10 k + r * pow10 k / d : ℕ) : ℚ) + ((r * pow10 k % d : ℕ) : ℚ) / d =
      ((q : ℚ) + r / d) * pow10 k := by
  have hdm : ((d * (r * pow10 k / d) + r * pow10 k % d : ℕ) : ℚ) = ((r * pow10 k : ℕ) : ℚ) := by
    rw [Nat.div_add_mod]
  have hd' : (d : ℚ) ≠ 0 := by exact_mod_cast hd.ne'
  push_cast at hdm ⊢
  field_simp
  linear_combination hdm

theorem placeRounds_of_coarser {X y : ℚ} {Q : Nat} {e : ℤ} (hinv : y = X * 10 ^ e) (he1 : 1 ≤ e)
    (he : e ≤ 28) (hQr : (Q : ℤ) = roundEven (y / 10)) (hQ : Q < bound)
    (hover : (bound : ℤ) ≤ roundEven y) : PlaceRounds X Q (e - 1).toNat := by
  have hX : X * pow10 (e - 1).toNat = y / 10 := by
    rw [pow10_eq_zpow, Int.toNat_of_nonneg (by omega), zpow_sub_one₀ (by norm_num),
      ← mul_assoc, ← hinv]
    ring
  refine ⟨by omega, by rw [hX]; exact hQr, hQ, .inr (.inr ?_)⟩
  rw [show (e - 1).toNat + 1 = e.toNat by omega, pow10_eq_zpow, Int.toNat_of_nonneg (by omega),
    ← hinv]
  exact hover

theorem roundQuotient_placeRounds {X : ℚ} {q r d Q : Nat} {e E : ℤ}
    (hinv : (q : ℚ) + r / d = X * 10 ^ e) (hr : r < d) (hq : q < bound) (he : e ≤ 28)
    (hstop : e = 28 ∨ (0 ≤ e ∧ bound ≤ q * 10)) (h : roundQuotient q r d e = some (Q, E)) :
    ∃ g : Nat, E = g ∧ PlaceRounds X Q g := by
  rcases roundQuotient_rounds hq hr h with ⟨rfl, hQ, hQr⟩ | ⟨he1, rfl, hQ, hQr, hover⟩
  · have he0 : 0 ≤ E := by rcases hstop with h | h <;> omega
    refine ⟨E.toNat, by omega, by omega, ?_, hQ, ?_⟩
    · rw [pow10_eq_zpow, Int.toNat_of_nonneg he0, ← hinv]
      exact hQr
    · rcases hstop with h28 | ⟨-, hwide⟩
      · exact .inl (by omega)
      · refine .inr (.inr ?_)
        have h10 : X * pow10 (E.toNat + 1) = ((q : ℚ) + r / d) * 10 := by
          rw [pow10_eq_zpow, Nat.cast_succ, Int.toNat_of_nonneg he0,
            zpow_add_one₀ (by norm_num), ← mul_assoc, ← hinv]
        have hfrac : (0 : ℚ) ≤ r / d := by positivity
        calc (bound : ℤ) ≤ ((q * 10 : ℕ) : ℤ) := by exact_mod_cast hwide
          _ = roundEven (((q * 10 : ℕ) : ℤ) : ℚ) := (roundEven_intCast _).symm
          _ ≤ roundEven (X * pow10 (E.toNat + 1)) := by
            rw [h10]
            apply roundEven_mono
            push_cast
            linarith
  · exact ⟨(e - 1).toNat, by omega, placeRounds_of_coarser hinv he1 he hQr hQ hover⟩

theorem dropDigit_placeRounds {X : ℚ} {v r d Q : Nat} {e E : ℤ}
    (hinv : (v : ℚ) + r / d = X * 10 ^ e) (hr : r < d) (he : e ≤ 28) (hwide : bound ≤ v)
    (hQ : Q < bound) (h : dropDigit v e (r != 0) = some (Q, E)) :
    ∃ g : Nat, E = g ∧ PlaceRounds X Q g := by
  obtain ⟨he1, rfl, hQr⟩ := dropDigit_rounds hr h
  refine ⟨(e - 1).toNat, by omega, placeRounds_of_coarser hinv he1 he hQr hQ ?_⟩
  have hfrac : (0 : ℚ) ≤ r / d := by positivity
  calc (bound : ℤ) ≤ (v : ℤ) := by exact_mod_cast hwide
    _ = roundEven ((v : ℤ) : ℚ) := (roundEven_intCast _).symm
    _ ≤ _ := roundEven_mono (by rw [Int.cast_natCast]; linarith)

/-- Long division by `d`, run with enough rounds from a quotient `q` and a remainder `r` at a
place `e` of at most 28, ends on `X` rounded correctly when `q + r / d` is `X` at place `e`.
The invariant carried from round to round is that exact equation. -/
theorem divRounds_rounds {X : ℚ} {d : Nat} (hd : 0 < d) :
    ∀ (fuel q r : Nat) (e : ℤ) (inexact : Bool), (q : ℚ) + r / d = X * 10 ^ e → r < d → q < bound → e ≤ 28 →
      29 ≤ (fuel : ℤ) + e → ∀ Q E inx, divRounds d fuel q r e inexact = some (Q, E, inx) →
        ∃ g : Nat, E = g ∧ PlaceRounds X Q g
  | 0, _, _, e, _, _, _, _, he, hfuel, _, _, _, _ => by omega
  | fuel + 1, q, r, e, inexact, hinv, hr, hq, he, hfuel, Q, E, inx, h => by
    rw [divRounds.eq_def] at h
    simp only at h
    split at h
    · rename_i hnext
      have he0 : 0 ≤ e := by
        simp at hnext
        omega
      obtain ⟨rfl, rfl, -⟩ : q = Q ∧ e = E ∧ _ := by simpa using h
      have hx : X * pow10 e.toNat = ((q : ℤ) : ℚ) := by
        rw [pow10_eq_zpow, Int.toNat_of_nonneg he0, ← hinv]
        simp
      refine ⟨e.toNat, by omega, by omega, ?_, hq, .inr (.inl ?_)⟩
      · rw [hx, roundEven_intCast]
      · rw [hx, Int.cast_natCast]
    · cases h
    · rename_i r _ _ hnext
      have hr0 : r ≠ 0 := by
        rintro rfl
        simp at hnext
        omega
      rw [if_neg hr0] at hnext
      have hstop : e = 28 ∨ (0 ≤ e ∧ bound ≤ q * 10) := by
        split at hnext
        · exact .inl (by assumption)
        · exact .inr (room_eq_zero (by omega) hnext)
      obtain ⟨⟨q', e'⟩, hround, hres⟩ := Option.map_eq_some_iff.mp h
      obtain ⟨rfl, rfl, -⟩ : q' = Q ∧ e' = E ∧ _ := by simpa using hres
      exact roundQuotient_placeRounds hinv hr hq he hstop hround
    · rename_i r _ _ p hnext
      have hplaces : p + 1 ≤ 9 ∧ e + (p + 1) ≤ 28 := by
        split at hnext
        · split at hnext
          · cases hnext
          · have hp := Option.some.inj hnext
            simp only [Nat.min_def] at hp
            split at hp <;> omega
        · split at hnext
          · cases hnext
          · obtain ⟨hcap, -⟩ := room_le hq hnext
            simp only [Nat.min_def] at hcap
            split at hcap <;> omega
      split at h
      · cases h
      rename_i hq₁
      have hinv' := extend_exact_rat hd q r (p + 1)
      rw [hinv, mul_assoc, ← zpow_add_pow10, show ((p + 1 : ℕ) : ℤ) = p + 1 by push_cast; rfl]
        at hinv'
      have hrem : r * pow10 (p + 1) % d < d := Nat.mod_lt _ hd
      split at h
      · rename_i hwide
        obtain ⟨⟨q', e'⟩, hdrop, hres⟩ := Option.map_eq_some_iff.mp h
        obtain ⟨rfl, rfl, -⟩ : q' = Q ∧ e' = E ∧ _ := by simpa using hres
        obtain ⟨-, -, -, hle⟩ := dropDigit_near hdrop
        have hdigits : r * pow10 (p + 1) / d < pow10 (p + 1) :=
          Nat.div_lt_of_lt_mul (Nat.mul_lt_mul_of_pos_right hr (pow10_pos _))
        have hP9 : pow10 (p + 1) ≤ pow10 9 := pow10_le_pow10 hplaces.1
        have hQ : q' < bound := by
          have : pow10 9 = 1000000000 := rfl
          unfold bound at hq₁ ⊢
          omega
        exact dropDigit_placeRounds hinv' hrem (by omega) hwide hQ hdrop
      · exact divRounds_rounds hd fuel _ _ _ _ hinv' hrem (by omega) (by omega) (by omega) _ _ _ h

/-- A quotient at a place of 0 to 28, below `2 ^ 96`, worth `x`. -/
def Placed (x : ℚ) (qs : Nat × Int) : Prop :=
  ∃ g : Nat, qs.2 = g ∧ g ≤ 28 ∧ qs.1 < bound ∧ (qs.1 : ℚ) / pow10 g = x

theorem div_pow10_of_dvd {q g k : Nat} (hk : k ≤ g) (hdvd : pow10 k ∣ q) :
    ((q / pow10 k : ℕ) : ℚ) / pow10 (g - k) = (q : ℚ) / pow10 g := by
  obtain ⟨c, rfl⟩ := hdvd
  have := (pow10_pos_rat k).ne'
  have := (pow10_pos_rat (g - k)).ne'
  rw [Nat.mul_div_cancel_left _ (pow10_pos k), pow10_split_rat hk]
  push_cast
  field_simp

theorem Placed.stripOnce {x : ℚ} {qs : Nat × Int} (h : Placed x qs) (m k : Nat) :
    Placed x (Decimal.stripOnce m k qs) := by
  unfold Decimal.stripOnce
  split
  · rename_i hc
    obtain ⟨g, hg, hg28, hb, hv⟩ := h
    refine ⟨g - k, by omega, by omega, lt_of_le_of_lt (Nat.div_le_self _ _) hb, ?_⟩
    rw [div_pow10_of_dvd (by omega) (Nat.dvd_of_mod_eq_zero hc.2.2)]
    exact hv
  · exact h

theorem Placed.stripEights {x : ℚ} :
    ∀ n q s, Placed x (q, s) → Placed x (Decimal.stripEights n q s)
  | 0, _, _, h => h
  | n + 1, q, s, h => by
    unfold Decimal.stripEights
    split
    · rename_i hc
      obtain ⟨g, hg, hg28, hb, hv⟩ := h
      simp only at hg hb hv
      refine Placed.stripEights n _ _ ⟨g - 8, by simp only; omega, by omega,
        lt_of_le_of_lt (Nat.div_le_self _ _) hb, ?_⟩
      simp only
      rw [div_pow10_of_dvd (by omega) (Nat.dvd_of_mod_eq_zero hc.2.2)]
      exact hv
    · exact h

theorem Placed.stripZeros {x : ℚ} {q : Nat} {s : Int} (h : Placed x (q, s)) :
    Placed x (Decimal.stripZeros q s) :=
  ((((Placed.stripEights 4 q s h).stripOnce 16 4).stripOnce 4 2).stripOnce 2 1)

theorem val_of_normalized? {negative : Bool} {m s : Nat} {d : Decimal}
    (h : normalized? negative m s = some d) :
    d.val = (if negative then -1 else 1) * ((m : ℚ) / pow10 s) := by
  obtain ⟨hneg, hm, hs⟩ := make?_eq_some h
  rw [val_eq, hneg, hm, hs]
  rcases Nat.eq_zero_or_pos m with rfl | hm0
  · simp
  · simp [Nat.pos_iff_ne_zero.mp hm0]

theorem RoundsTo.signed {x v : ℚ} (h : RoundsTo x v) (negative : Bool) :
    RoundsTo ((if negative then -1 else 1) * x) ((if negative then -1 else 1) * v) := by
  cases negative
  · simpa using h
  · simpa using h.neg

theorem val_div (a b : Decimal) :
    a.val / b.val = (if (a.negative != b.negative) then -1 else 1) *
      (((a.mantissa : ℚ) / pow10 a.scale) / ((b.mantissa : ℚ) / pow10 b.scale)) := by
  rw [val_eq, val_eq]
  cases a.negative <;> cases b.negative <;> simp [neg_div, div_neg]

theorem div?_roundsTo {a b d : Decimal} (h : a.div? b = some d) :
    RoundsTo (a.val / b.val) d.val := by
  unfold div? at h
  split at h
  · cases h
  rename_i hb0
  split at h
  · rename_i ha0
    cases h
    rw [val_of_mantissa_zero ha0, zero_div, ← val_zero]
    exact roundsTo_val zero
  rename_i ha0
  split at h
  · cases h
  rename_i q E inx hrun
  set X : ℚ := ((a.mantissa : ℚ) / pow10 a.scale) / ((b.mantissa : ℚ) / pow10 b.scale) with hX
  have hbpos : (0 : ℚ) < b.mantissa := by exact_mod_cast Nat.pos_of_ne_zero hb0
  have hstart : ((a.mantissa / b.mantissa : ℕ) : ℚ) + ((a.mantissa % b.mantissa : ℕ) : ℚ) / b.mantissa =
      X * 10 ^ ((a.scale : ℤ) - b.scale) := by
    have hdm : ((b.mantissa * (a.mantissa / b.mantissa) + a.mantissa % b.mantissa : ℕ) : ℚ) =
        a.mantissa := by rw [Nat.div_add_mod]
    have := (pow10_pos_rat a.scale).ne'
    have := (pow10_pos_rat b.scale).ne'
    rw [zpow_sub₀ (by norm_num), ← pow10_eq_zpow, ← pow10_eq_zpow, hX]
    push_cast at hdm
    field_simp
    linear_combination hdm
  obtain ⟨g, rfl, hplace⟩ := divRounds_rounds (X := X) (Nat.pos_of_ne_zero hb0) 64 _ _ _ false hstart
    (Nat.mod_lt _ (Nat.pos_of_ne_zero hb0))
    (lt_of_le_of_lt (Nat.div_le_self _ _) a.mantissa_lt)
    (by have := a.scale_le; omega) (by have := b.scale_le; omega) q E inx hrun
  have hround := hplace.roundsTo
  have hplaced : Placed ((q : ℚ) / pow10 g) (if inx then stripZeros q g else (q, g)) := by
    have h0 : Placed ((q : ℚ) / pow10 g) (q, (g : ℤ)) := ⟨g, rfl, hplace.1, hplace.2.2.1, rfl⟩
    split
    · exact h0.stripZeros
    · exact h0
  generalize (if inx then stripZeros q g else (q, (g : ℤ))) = qs at h hplaced
  obtain ⟨g', hg', -, -, hv⟩ := hplaced
  obtain ⟨q', s'⟩ := qs
  simp only at hg' hv h
  subst hg'
  rw [if_neg (by omega), Int.toNat_natCast] at h
  rw [val_div, val_of_normalized? h, hv]
  exact hround.signed _

/-! ## The order of results

A correctly rounded result keeps the order of the exact results, so each operation moves the
way its exact counterpart does. -/

theorem mul?_val_le {a b c d x y : Decimal} (h₁ : a.mul? b = some x) (h₂ : c.mul? d = some y)
    (h : a.val * b.val ≤ c.val * d.val) : x.val ≤ y.val :=
  (mul?_roundsTo h₁).mono h (mul?_roundsTo h₂)

theorem div?_val_le {a b c d x y : Decimal} (h₁ : a.div? b = some x) (h₂ : c.div? d = some y)
    (h : a.val / b.val ≤ c.val / d.val) : x.val ≤ y.val :=
  (div?_roundsTo h₁).mono h (div?_roundsTo h₂)

theorem add?_val_le {a b c d x y : Decimal} (h₁ : a.add? b = some x) (h₂ : c.add? d = some y)
    (h : a.val + b.val ≤ c.val + d.val) : x.val ≤ y.val :=
  (add?_roundsTo h₁).mono h (add?_roundsTo h₂)

theorem sub?_val_le {a b c d x y : Decimal} (h₁ : a.sub? b = some x) (h₂ : c.sub? d = some y)
    (h : a.val - b.val ≤ c.val - d.val) : x.val ≤ y.val :=
  (sub?_roundsTo h₁).mono h (sub?_roundsTo h₂)

/-! ## Whole numbers, ties away from zero -/

def roundHalfAway (z : ℚ) : ℤ := if z < 0 then -⌊-z + 1 / 2⌋ else ⌊z + 1 / 2⌋

theorem roundHalfAway_intCast (k : ℤ) : roundHalfAway k = k := by
  have hfloor (j : ℤ) : ⌊(j : ℚ) + 1 / 2⌋ = j := by
    rw [Int.floor_eq_iff]
    constructor <;> linarith
  unfold roundHalfAway
  split
  · rw [← Int.cast_neg, hfloor, neg_neg]
  · exact hfloor k

theorem roundHalfAway_mono {z w : ℚ} (h : z ≤ w) : roundHalfAway z ≤ roundHalfAway w := by
  unfold roundHalfAway
  split_ifs with hz hw hw
  · have := Int.floor_le_floor (show -w + 1 / 2 ≤ -z + 1 / 2 by linarith)
    omega
  · have h1 : 0 ≤ ⌊-z + 1 / 2⌋ := Int.floor_nonneg.mpr (by linarith)
    have h2 : 0 ≤ ⌊w + 1 / 2⌋ := Int.floor_nonneg.mpr (by linarith)
    omega
  · exact absurd (lt_of_le_of_lt h hw) hz
  · exact Int.floor_le_floor (by linarith)

theorem roundDiv_awayFromZero_eq (n k : Nat) :
    (roundDiv .awayFromZero n k : ℤ) = ⌊(n : ℚ) / pow10 k + 1 / 2⌋ := by
  have hdm := Nat.div_add_mod n (pow10 k)
  have hr := Nat.mod_lt n (pow10_pos k)
  unfold roundDiv
  simp only
  generalize n / pow10 k = q at hdm ⊢
  generalize n % pow10 k = r at hdm hr ⊢
  subst hdm
  have hp := pow10_pos_rat k
  have hsplit : ((pow10 k * q + r : ℕ) : ℚ) / pow10 k + 1 / 2 =
      ((q : ℕ) : ℤ) + ((r : ℚ) / pow10 k + 1 / 2) := by
    push_cast
    field_simp
    ring
  have hrq : (r : ℚ) < pow10 k := by exact_mod_cast hr
  rw [hsplit, Int.floor_intCast_add]
  by_cases hhalf : pow10 k ≤ 2 * r
  · have hk : k ≠ 0 := by
      rintro rfl
      simp only [pow10_zero] at hr hhalf
      omega
    have hhalfq : (pow10 k : ℚ) ≤ 2 * r := by exact_mod_cast hhalf
    have hfloor : ⌊(r : ℚ) / pow10 k + 1 / 2⌋ = 1 := by
      rw [Int.floor_eq_iff]
      constructor
      · rw [Int.cast_one, ← sub_le_iff_le_add, le_div_iff₀ hp]
        linarith
      · rw [Int.cast_one, show (1 : ℚ) + 1 = 3 / 2 + 1 / 2 by norm_num, add_lt_add_iff_right,
          div_lt_iff₀ hp]
        linarith
    rw [hfloor, if_pos ⟨hk, hhalf⟩]
    push_cast
    ring
  · have hhalfq : 2 * (r : ℚ) < pow10 k := by exact_mod_cast (not_le.mp hhalf)
    have hfloor : ⌊(r : ℚ) / pow10 k + 1 / 2⌋ = 0 := by
      rw [Int.floor_eq_iff]
      constructor
      · rw [Int.cast_zero]
        positivity
      · rw [Int.cast_zero, zero_add, ← lt_sub_iff_add_lt, div_lt_iff₀ hp]
        linarith
    rw [hfloor, if_neg (fun h => hhalf h.2)]
    simp

theorem roundWhole_scale (tie : Tie) (d : Decimal) : (d.roundWhole tie).scale = 0 := by
  unfold roundWhole
  split
  · rfl
  · split
    · assumption
    · rfl

theorem val_roundWhole_awayFromZero (d : Decimal) :
    (d.roundWhole .awayFromZero).val = roundHalfAway d.val := by
  unfold roundWhole
  split
  · rename_i hm
    rw [val_of_mantissa_zero rfl, val_of_mantissa_zero hm]
    norm_num [roundHalfAway, Int.floor_eq_zero_iff]
  split
  · rename_i hs
    have hwhole : d.val = (d.num : ℚ) := by simp [val, hs]
    rw [hwhole, roundHalfAway_intCast]
  · rename_i hm hs
    have hq := roundDiv_awayFromZero_eq d.mantissa d.scale
    have hx : (0 : ℚ) < d.mantissa / pow10 d.scale :=
      div_pos (by exact_mod_cast Nat.pos_of_ne_zero hm) (pow10_pos_rat _)
    rw [val_eq, val_eq]
    cases d.negative
    · simp only [Bool.false_and, Bool.false_eq_true, if_false, one_mul, pow10_zero, Nat.cast_one,
        div_one]
      rw [roundHalfAway, if_neg (not_lt.mpr hx.le), ← hq]
      rfl
    · simp only [Bool.true_and, if_true, pow10_zero, Nat.cast_one, div_one, neg_one_mul]
      rw [roundHalfAway, if_pos (show -((d.mantissa : ℚ) / pow10 d.scale) < 0 by linarith), neg_neg,
        ← hq]
      split
      · push_cast
        ring
      · rename_i h0
        simp only [bne_iff_ne, ne_eq, not_not] at h0
        rw [h0]
        simp

end Decimal

end TradeLedger
