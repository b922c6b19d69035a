import TradeLedger.Proofs.ExactProducts
import TradeLedger.Proofs.Quantities

/-!
# Raw units survive a round trip through decimals

A number of raw units is shown as its quotient by the grid's scale, computed by long division to
at most 28 places, and read back by multiplying by the scale and rounding half away from zero.
The quotient is often inexact (a scale of 3 or 7 gives a repeating fraction), yet reading it back
always gives the raw number again (`Precision.toRaw?_fromRaw`), for every 64-bit raw number and
every scale below `2 ^ 63`.

The error is measured on cross products, `|q * d - m * 10 ^ e|` for a quotient of `q` units of
the `e`-th place of `m / d`. Long division carries its remainder exactly; each way it stops
rounds the last place, and it stops before place 28 only on a quotient so wide that its last
place is far below the divisor's unit (`Decimal.divRounds_near`). So the quotient is always
within a quarter unit of its last place (`Decimal.QuotientNear`). Multiplied back by the scale,
it is within a quarter unit of `m`; rounding the product to fit drops only places at least ten
times finer than a unit, and rounding to a whole number then lands on `m`.
-/

namespace TradeLedger

namespace Decimal

/-! ## Rounding to a place -/

theorem roundDiv_of_near (tie : Tie) {n k q : Nat}
    (h : 2 * ((n : ℤ) - q * pow10 k).natAbs < pow10 k) : roundDiv tie n k = q := by
  have hp := pow10_pos k
  have hdm := Nat.div_add_mod n (pow10 k)
  unfold roundDiv
  rcases le_or_gt (q * pow10 k) n with hle | hlt
  · have hdiv : n / pow10 k = q :=
      Nat.div_eq_of_lt_le hle (by rw [Nat.succ_mul]; omega)
    rw [hdiv, Nat.mul_comm] at hdm
    cases tie <;> simp only [hdiv] <;> split <;> omega
  · have hq : 0 < q := Nat.pos_of_ne_zero fun h0 => by simp [h0] at hlt
    have hdiv : n / pow10 k = q - 1 :=
      Nat.div_eq_of_lt_le (by rw [Nat.sub_mul, one_mul]; omega)
        (by rw [Nat.sub_add_cancel hq]; exact hlt)
    rw [hdiv, Nat.mul_comm, Nat.sub_mul, one_mul] at hdm
    have hqp : pow10 k ≤ q * pow10 k := Nat.le_mul_of_pos_left _ hq
    have hk : k ≠ 0 := by
      rintro rfl
      simp only [pow10_zero, Nat.mul_one] at h hlt
      omega
    cases tie <;> simp only [hdiv] <;> split <;> omega

theorem roundDiv_near (tie : Tie) (n k : Nat) :
    2 * (((roundDiv tie n k * pow10 k : ℕ) : ℤ) - n).natAbs ≤ pow10 k := by
  have hp := pow10_pos k
  have hdm := Nat.div_add_mod' n (pow10 k)
  have hr := Nat.mod_lt n hp
  have hk0 : k = 0 → pow10 k = 1 := by
    rintro rfl
    rfl
  cases tie <;> simp only [roundDiv] <;> generalize n / pow10 k = q at hdm ⊢ <;>
    generalize n % pow10 k = r at hdm hr ⊢ <;> subst hdm <;> split <;>
    first
      | (rw [Nat.add_mul, Nat.one_mul]; push_cast; omega)
      | (push_cast; omega)

theorem fitDrop_some {n s k : Nat} (h : fitDrop n s = some k) :
    k ≤ s ∧ roundDiv .toEven n k < bound := by
  unfold fitDrop at h
  have hmem := List.mem_of_find?_eq_some h
  have hk := List.find?_some h
  simp only [List.mem_range'_1] at hmem
  simp only [decide_eq_true_eq] at hk
  exact ⟨by omega, hk⟩

theorem fitDrop_isSome {n s : Nat} (h : roundDiv .toEven n s < bound) : ∃ k, fitDrop n s = some k := by
  unfold fitDrop
  cases hf : (List.range' (s - 28) (s + 1 - (s - 28))).find? (fun k => decide (roundDiv .toEven n k < bound)) with
  | some k => exact ⟨k, rfl⟩
  | none =>
    have := List.find?_eq_none.mp hf s (by simp only [List.mem_range'_1]; omega)
    simp [h] at this

theorem pow10_add (a b : Nat) : pow10 (a + b) = pow10 a * pow10 b := Nat.pow_add 10 a b

/-! ## Long division -/

/-- `q` units of the `e`-th decimal place lie within a quarter unit of the quotient `m / d`,
measured on the cross products. -/
def QuotientNear (m d q e : Nat) : Prop := 4 * ((q * d : ℤ) - m * pow10 e).natAbs < pow10 e

theorem divisor_lt_of_wide {m d v e : Nat} (hm : m ≤ 9223372036854775808) (hv : bound ≤ v * 10)
    (h : v * d ≤ m * pow10 e + d) : 100 * d < pow10 e := by
  have h1 : bound * d ≤ v * 10 * d := Nat.mul_le_mul_right d hv
  have h2 : m * pow10 e ≤ 9223372036854775808 * pow10 e := Nat.mul_le_mul_right _ hm
  have h3 : v * 10 * d = 10 * (v * d) := by ring
  have hp := pow10_pos e
  unfold bound at h1
  omega

theorem quotientNear_of_drop {m d v q' k : Nat} (hm : m ≤ 9223372036854775808) (hv : bound ≤ v)
    (herr : ((v * d : ℤ) - m * pow10 (k + 1)).natAbs ≤ d) (hdrop : ((q' * 10 : ℤ) - v).natAbs ≤ 5) :
    QuotientNear m d q' k := by
  -- Ten times the error at place `k` is the rounding of the dropped place plus the error of `v`.
  have hsplit : ((q' * d : ℤ) - m * pow10 k) * 10 =
      ((q' * 10 : ℤ) - v) * d + ((v * d : ℤ) - m * pow10 (k + 1)) := by
    rw [pow10_succ]
    push_cast
    ring
  have hten : ((q' * d : ℤ) - m * pow10 k).natAbs * 10 ≤ 5 * d + d := by
    have habs := congrArg Int.natAbs hsplit
    rw [Int.natAbs_mul] at habs
    have htri := Int.natAbs_add_le (((q' * 10 : ℤ) - v) * d) ((v * d : ℤ) - m * pow10 (k + 1))
    rw [Int.natAbs_mul] at htri
    have hmul : ((q' * 10 : ℤ) - v).natAbs * (d : ℤ).natAbs ≤ 5 * d :=
      Nat.mul_le_mul_right _ hdrop
    simp only [Int.natAbs_natCast, Int.reduceAbs] at habs htri hmul
    omega
  have hwide : 100 * d < pow10 (k + 1) := by
    refine divisor_lt_of_wide (v := v) hm (by omega) ?_
    omega
  rw [pow10_succ] at hwide
  unfold QuotientNear
  omega

theorem find?_reverse_range_ge {P : Nat → Bool} :
    ∀ n k, k ≤ n → P k = true → ∃ x, (List.range (n + 1)).reverse.find? P = some x ∧ k ≤ x
  | 0, k, hk, hP => by
    obtain rfl : k = 0 := by omega
    exact ⟨0, by simp [hP], le_rfl⟩
  | n + 1, k, hk, hP => by
    rw [List.range_succ, List.reverse_append, List.reverse_singleton, List.singleton_append,
      List.find?_cons]
    cases hn : P (n + 1) with
    | true => exact ⟨n + 1, rfl, hk⟩
    | false =>
      have hk' : k ≤ n := by
        rcases Nat.lt_or_eq_of_le hk with h | rfl
        · omega
        · rw [hn] at hP; cases hP
      exact find?_reverse_range_ge n k hk' hP

theorem room_le {q x : Nat} {e : Int} (hq : q < bound) (h : room q e = some x) :
    x ≤ Nat.min 9 (28 - e).toNat ∧ q * pow10 x < bound := by
  unfold room at h
  simp only at h
  split at h
  · cases h
  · obtain rfl := Option.some.inj h
    cases hf : (List.range (Nat.min 9 (28 - e).toNat + 1)).reverse.find?
        (fun k => decide (q * pow10 k < bound)) with
    | none => simp [hq]
    | some y =>
      have hmem := List.mem_of_find?_eq_some hf
      have hy := List.find?_some hf
      simp only [List.mem_reverse, List.mem_range] at hmem
      simp only [decide_eq_true_eq] at hy
      exact ⟨by simp only [Option.getD_some]; omega, by simpa using hy⟩

theorem room_zero {q : Nat} {e : Int} (he : 0 ≤ e) (he' : e < 28) (h : room q e = some 0) :
    bound ≤ q * 10 := by
  by_contra hlt
  have hP : decide (q * pow10 1 < bound) = true :=
    decide_eq_true (by rw [show pow10 1 = 10 from rfl]; omega)
  obtain ⟨x, hx, h1⟩ := find?_reverse_range_ge (P := fun k => decide (q * pow10 k < bound))
    (Nat.min 9 (28 - e).toNat) 1
    (by simp only [Nat.min_def]; split <;> omega) hP
  unfold room at h
  simp only [hx, Option.getD_some] at h
  split at h
  · cases h
  · have := Option.some.inj h
    omega

theorem dropDigit_near {v q' : Nat} {e e' : Int} {sticky : Bool}
    (h : dropDigit v e sticky = some (q', e')) :
    1 ≤ e ∧ e' = e - 1 ∧ ((q' * 10 : ℤ) - v).natAbs ≤ 5 ∧ q' ≤ v / 10 + 1 := by
  unfold dropDigit at h
  split at h
  · cases h
  · obtain ⟨rfl, rfl⟩ := Prod.mk.inj (Option.some.inj h)
    have hdm := Nat.div_add_mod v 10
    have hr := Nat.mod_lt v (show 10 > 0 by omega)
    refine ⟨by omega, rfl, ?_, ?_⟩ <;> split <;> omega

theorem roundQuotient_near {q r d q' : Nat} {e e' : Int} (hq : q < bound) (hr : r < d)
    (h : roundQuotient q r d e = some (q', e')) :
    (e' = e ∧ q' < bound ∧ 2 * ((q' * d : ℤ) - (q * d + r)).natAbs ≤ d) ∨
      (bound ≤ q + 1 ∧ r ≠ 0 ∧ 2 * r ≥ d ∧ dropDigit (q + 1) e true = some (q', e')) := by
  unfold roundQuotient at h
  split at h
  · rename_i hup
    split at h
    · obtain ⟨rfl, rfl⟩ := Prod.mk.inj (Option.some.inj h)
      refine .inl ⟨rfl, by assumption, ?_⟩
      have : (((q + 1 : ℕ) : ℤ) * d) - (q * d + r) = d - r := by push_cast; ring
      rw [this]
      omega
    · exact .inr ⟨by omega, by omega, by omega, h⟩
  · obtain ⟨rfl, rfl⟩ := Prod.mk.inj (Option.some.inj h)
    refine .inl ⟨rfl, hq, ?_⟩
    have : ((q : ℤ) * d) - (q * d + r) = -r := by ring
    rw [this]
    omega

theorem extend_exact {m d q r e k : Nat} (h : q * d + r = m * pow10 e) :
    (q * pow10 k + r * pow10 k / d) * d + r * pow10 k % d = m * pow10 (e + k) := by
  have hdm := Nat.div_add_mod (r * pow10 k) d
  rw [pow10_add]
  zify at h hdm ⊢
  linear_combination hdm + pow10 k * h

theorem room_ne_none (q : Nat) {e : Int} (he : 0 ≤ e) : room q e ≠ none := by
  unfold room
  simp only
  split
  · omega
  · simp

theorem dropDigit_isSome (v : Nat) {e : Int} (sticky : Bool) (he : 1 ≤ e) :
    ∃ q', dropDigit v e sticky = some (q', e - 1) := by
  unfold dropDigit
  rw [if_neg (by omega)]
  exact ⟨_, rfl⟩

/-- Where no further place fits, the quotient rounded by its remainder ends within a quarter
unit: at its own place, where the divisor is small against the place, or one place coarser where
rounding up reaches `2 ^ 96`. -/
theorem roundQuotient_quotientNear {m d q r e : Nat} (hm : m ≤ 9223372036854775808)
    (hd : d < 9223372036854775808) (hinv : q * d + r = m * pow10 e) (hr : r < d) (hq : q < bound) (he : e ≤ 28)
    (hstop : e = 28 ∨ bound ≤ q * 10) :
    ∃ Q e' : Nat, roundQuotient q r d e = some (Q, (e' : ℤ)) ∧ e' ≤ 28 ∧ Q < bound ∧
      QuotientNear m d Q e' := by
  have hinvZ : (q * d + r : ℤ) = m * pow10 e := by exact_mod_cast hinv
  have hplace : bound ≤ q + 1 → 1 ≤ e := by
    intro hb
    by_contra h0
    obtain rfl : e = 0 := by omega
    have hqd : q ≤ q * d := Nat.le_mul_of_pos_right q (by omega)
    simp only [pow10_zero, Nat.mul_one] at hinv
    unfold bound at hb
    omega
  obtain ⟨⟨q', e''⟩, hround⟩ : ∃ res, roundQuotient q r d e = some res := by
    unfold roundQuotient
    split
    · split
      · exact ⟨_, rfl⟩
      · obtain ⟨q', hq'⟩ := dropDigit_isSome (q + 1) (e := e) true
          (by have := hplace (by omega); omega)
        exact ⟨_, hq'⟩
    · exact ⟨_, rfl⟩
  rcases roundQuotient_near hq hr hround with ⟨rfl, hq', hhalf⟩ | ⟨hb, -, -, hdrop⟩
  · refine ⟨q', e, hround, he, hq', ?_⟩
    have hsmall : 2 * d < pow10 e := by
      rcases hstop with rfl | hb
      · have : pow10 28 = 10000000000000000000000000000 := rfl
        omega
      · have := divisor_lt_of_wide (v := q) (d := d) (e := e) hm hb (by omega)
        omega
    rw [hinvZ] at hhalf
    unfold QuotientNear
    omega
  · obtain ⟨h1, rfl, hd5, hle⟩ := dropDigit_near hdrop
    have hback : e - 1 + 1 = e := by omega
    refine ⟨q', e - 1, by rw [hround]; push_cast [Nat.cast_sub (show 1 ≤ e by omega)]; rfl,
      by omega, by unfold bound at hq ⊢; omega, ?_⟩
    refine quotientNear_of_drop (v := q + 1) hm hb ?_ (by exact_mod_cast hd5)
    rw [hback, ← hinvZ]
    push_cast
    have : ((q : ℤ) + 1) * d - (q * d + r) = d - r := by ring
    rw [this]
    omega

/-- A quotient that ran past `2 ^ 96` with an exact remainder drops its last place and ends
within a quarter unit, at most one above a tenth of what it was. -/
theorem dropDigit_quotientNear {m d v r e : Nat} (hm : m ≤ 9223372036854775808)
    (hexact : v * d + r = m * pow10 e) (hr : r < d) (hwide : bound ≤ v) (he : 1 ≤ e)
    (sticky : Bool) :
    ∃ Q, dropDigit v e sticky = some (Q, (e : ℤ) - 1) ∧ Q ≤ v / 10 + 1 ∧
      QuotientNear m d Q (e - 1) := by
  obtain ⟨Q, hdrop⟩ := dropDigit_isSome v sticky (show (1 : ℤ) ≤ e by omega)
  obtain ⟨-, -, hd5, hle⟩ := dropDigit_near hdrop
  refine ⟨Q, hdrop, hle, quotientNear_of_drop hm hwide ?_ (by exact_mod_cast hd5)⟩
  rw [Nat.sub_add_cancel he]
  omega

/-- Long division of a dividend of at most `2 ^ 63` by a divisor below `2 ^ 63`, started with
enough rounds, ends within a quarter unit of the quotient, below `2 ^ 96`, at a place of at
most 28. The remainder is carried exactly from round to round; each way to stop rounds the last
place, and stops early only on a quotient wide enough that its last place is far below the
divisor's unit. -/
theorem divRounds_near {m d : Nat} (hm : m ≤ 9223372036854775808) (hd : d < 9223372036854775808) :
    ∀ fuel q r (e : Nat) inexact, q * d + r = m * pow10 e → r < d → q < bound → e ≤ 28 →
      29 ≤ fuel + e → ∃ (Q e' : Nat) (inx : Bool), divRounds d fuel q r e inexact = some (Q, (e' : ℤ), inx) ∧
        e' ≤ 28 ∧ Q < bound ∧ QuotientNear m d Q e'
  | 0, _, _, e, _, _, _, _, he, hfuel => by omega
  | fuel + 1, q, r, e, inexact, hinv, hr, hq, he, hfuel => by
    rw [divRounds.eq_def]
    simp only
    have hinvZ : (q * d + r : ℤ) = m * pow10 e := by exact_mod_cast hinv
    split
    · refine ⟨q, e, _, rfl, he, hq, ?_⟩
      unfold QuotientNear
      simp only [Nat.cast_zero, add_zero] at hinvZ
      rw [hinvZ, sub_self, Int.natAbs_zero, Nat.mul_zero]
      exact pow10_pos e
    · rename_i hnext
      simp only [Nat.add_one_ne_zero, if_false] at hnext
      split at hnext
      · cases hnext
      · exact absurd hnext (room_ne_none q (by omega))
    · rename_i r _ _ hnext
      have hr0 : r ≠ 0 := by
        rintro rfl
        simp at hnext
      have hstop : e = 28 ∨ bound ≤ q * 10 := by
        rw [if_neg hr0] at hnext
        split at hnext
        · left
          omega
        · exact .inr (room_zero (by omega) (by omega) hnext)
      obtain ⟨Q, e', hround, he', hQ, hnear⟩ := roundQuotient_quotientNear hm hd hinv hr hq he hstop
      rw [hround]
      exact ⟨Q, e', _, rfl, he', hQ, hnear⟩
    · rename_i r _ _ p hnext
      have hr0 : r ≠ 0 := by
        rintro rfl
        simp at hnext
      rw [if_neg hr0] at hnext
      have he28 : (e : ℤ) ≠ 28 := by
        intro h28
        simp [h28] at hnext
      rw [if_neg he28] at hnext
      obtain ⟨hcap, hfit⟩ := room_le hq hnext
      have hfit' : q * pow10 (p + 1) < bound := hfit
      have hcap' : p + 1 ≤ 9 ∧ e + (p + 1) ≤ 28 := by
        simp only [Nat.min_def] at hcap
        split at hcap <;> omega
      rw [if_neg (by omega)]
      have hexact := extend_exact (k := p + 1) hinv
      have hdigits : r * pow10 (p + 1) / d < pow10 (p + 1) :=
        Nat.div_lt_of_lt_mul (Nat.mul_lt_mul_of_pos_right hr (pow10_pos _))
      have hP9 : pow10 (p + 1) ≤ pow10 9 := pow10_le_pow10 hcap'.1
      have hrem : r * pow10 (p + 1) % d < d := Nat.mod_lt _ (by omega)
      split
      · rename_i hwide
        obtain ⟨q', hdrop, hle, hnear⟩ := dropDigit_quotientNear hm hexact hrem hwide (by omega)
          (r * pow10 (p + 1) % d != 0)
        push_cast at hdrop
        rw [hdrop]
        refine ⟨q', e + p, inexact || r != 0, ?_, by omega, ?_, by simpa using hnear⟩
        · simp only [Option.map_some, Option.some.injEq, Prod.mk.injEq, true_and, and_true]
          push_cast
          ring
        · have : pow10 9 = 1000000000 := rfl
          have : bound = 79228162514264337593543950336 := rfl
          omega
      · obtain ⟨Q, e', inx, hrun, hrest⟩ := divRounds_near hm hd fuel _ _ (e + (p + 1)) _ hexact hrem
          (by omega) hcap'.2 (by omega)
        refine ⟨Q, e', inx, ?_, hrest⟩
        rw [← hrun]
        push_cast
        rfl

/-! ## Trailing zeros -/

theorem QuotientNear.div_pow10 {m d q e k : Nat} (h : QuotientNear m d q e) (hk : k ≤ e)
    (hdvd : pow10 k ∣ q) : QuotientNear m d (q / pow10 k) (e - k) := by
  obtain ⟨c, rfl⟩ := hdvd
  rw [Nat.mul_div_cancel_left _ (pow10_pos k)]
  have hsplit : pow10 e = pow10 k * pow10 (e - k) := by rw [← pow10_add, Nat.add_sub_cancel' hk]
  unfold QuotientNear at h ⊢
  have hfac : ((pow10 k * c : ℕ) : ℤ) * d - m * ((pow10 k * pow10 (e - k) : ℕ) : ℤ) =
      (pow10 k : ℤ) * ((c : ℤ) * d - m * pow10 (e - k)) := by
    push_cast
    ring
  rw [hsplit, hfac, Int.natAbs_mul, Int.natAbs_natCast, Nat.mul_left_comm] at h
  exact Nat.lt_of_mul_lt_mul_left h

/-- A quotient and its place as long division leaves them: a place of 0 to 28 and a mantissa
below `2 ^ 96`, within a quarter unit of `m / d`. -/
def NearResult (m d : Nat) (qs : Nat × Int) : Prop :=
  ∃ e : Nat, qs.2 = e ∧ e ≤ 28 ∧ qs.1 < bound ∧ QuotientNear m d qs.1 e

theorem NearResult.stripOnce {m d : Nat} {qs : Nat × Int} (h : NearResult m d qs) (a k : Nat) :
    NearResult m d (Decimal.stripOnce a k qs) := by
  unfold Decimal.stripOnce
  split
  · rename_i hc
    obtain ⟨e, he, he28, hb, hn⟩ := h
    exact ⟨e - k, by omega, by omega, lt_of_le_of_lt (Nat.div_le_self _ _) hb,
      hn.div_pow10 (by omega) (Nat.dvd_of_mod_eq_zero hc.2.2)⟩
  · exact h

theorem NearResult.stripEights {m d : Nat} :
    ∀ n q s, NearResult m d (q, s) → NearResult m d (Decimal.stripEights n q s)
  | 0, _, _, h => h
  | n + 1, q, s, h => by
    unfold Decimal.stripEights
    split
    · rename_i hc
      obtain ⟨e, he, he28, hb, hn⟩ := h
      exact NearResult.stripEights n _ _ ⟨e - 8, by simp only at he; omega, by omega,
        lt_of_le_of_lt (Nat.div_le_self _ _) hb,
        hn.div_pow10 (by simp only at he; omega) (Nat.dvd_of_mod_eq_zero hc.2.2)⟩
    · exact h

theorem NearResult.stripZeros {m d q : Nat} {s : Int} (h : NearResult m d (q, s)) :
    NearResult m d (Decimal.stripZeros q s) :=
  ((((NearResult.stripEights 4 q s h).stripOnce 16 4).stripOnce 4 2).stripOnce 2 1)

theorem QuotientNear.ne_zero {m d q e : Nat} (h : QuotientNear m d q e) (hm : 0 < m) : q ≠ 0 := by
  rintro rfl
  unfold QuotientNear at h
  have : pow10 e ≤ m * pow10 e := Nat.le_mul_of_pos_left _ hm
  simp only [Nat.cast_zero, zero_mul, zero_sub, Int.natAbs_neg] at h
  rw [Int.natAbs_mul, Int.natAbs_natCast, Int.natAbs_natCast] at h
  omega

end Decimal

/-! ## The round trip -/

theorem Word.ofInt?_toInt (w : Int64) : Word.ofInt? w.toInt = some w := by
  have := Int64.le_toInt w
  have := Int64.toInt_lt w
  simp only [Word.ofInt?, Word.inRange, Int64.ofInt_toInt]
  rw [if_pos (by simp only [Bool.and_eq_true, decide_eq_true_eq]; omega)]

theorem Precision.fromRaw_near (p : Precision) {x : Int64} (hx : x.toInt ≠ 0) :
    (p.fromRaw x).negative = decide (x.toInt < 0) ∧
      Decimal.QuotientNear x.toInt.natAbs p.scale (p.fromRaw x).mantissa (p.fromRaw x).scale := by
  have hm := Word.natAbs_toInt_le x
  have hunit : p.unit.mantissa = p.scale := rfl
  have hm0 : (Decimal.ofInt64 x).mantissa = x.toInt.natAbs := rfl
  have hscales : ((Decimal.ofInt64 x).scale : Int) - p.unit.scale = ((0 : Nat) : Int) := rfl
  have hx' : x.toInt.natAbs ≠ 0 := by omega
  obtain ⟨Q, e, inx, hrun, he, hQ, hnear⟩ := Decimal.divRounds_near hm p.lt 64
    (x.toInt.natAbs / p.scale) (x.toInt.natAbs % p.scale) 0 false
    (by rw [Decimal.pow10_zero, Nat.mul_one, Nat.mul_comm]; exact Nat.div_add_mod _ _)
    (Nat.mod_lt _ p.pos)
    (lt_of_le_of_lt (Nat.div_le_self _ _) (Decimal.natAbs_toInt_lt_bound x)) (by omega) (by omega)
  have hstrip : Decimal.NearResult x.toInt.natAbs p.scale
      (if inx then Decimal.stripZeros Q e else (Q, e)) := by
    split
    · exact Decimal.NearResult.stripZeros ⟨e, rfl, he, hQ, hnear⟩
    · exact ⟨e, rfl, he, hQ, hnear⟩
  unfold fromRaw Decimal.div?
  rw [if_neg (by rw [hunit]; exact p.pos.ne'), if_neg (by rw [hm0]; exact hx'), hunit, hm0,
    hscales, hrun]
  simp only
  generalize (if inx then Decimal.stripZeros Q e else (Q, e)) = qs at hstrip
  obtain ⟨q', s'⟩ := qs
  obtain ⟨e', rfl, he', hq', hn'⟩ := hstrip
  have hq0 : q' ≠ 0 := hn'.ne_zero (Nat.pos_of_ne_zero hx')
  have hmake : Decimal.normalized? ((Decimal.ofInt64 x).negative != p.unit.negative) q' e' =
      some ⟨decide (x.toInt < 0), q', e', hq', he'⟩ := by
    unfold Decimal.normalized? Decimal.make?
    rw [dif_pos ⟨hq', he'⟩]
    have hne : (q' != 0) = true := bne_iff_ne.mpr hq0
    simp [Decimal.ofInt64, Decimal.ofInt, Precision.unit, hne]
  simp only [Int.toNat_natCast, Nat.cast_nonneg, not_lt.mpr, if_false, hmake, Option.getD_some]
  exact ⟨trivial, hn'⟩

theorem Precision.toRaw?_of_near (p : Precision) {D : Decimal} {m : Nat} (hm0 : 0 < m)
    (hm : m ≤ 9223372036854775808) (h : Decimal.QuotientNear m p.scale D.mantissa D.scale) :
    p.toRaw? D = Word.ofInt? (if D.negative then -(m : ℤ) else m) := by
  have hQ0 : D.mantissa ≠ 0 := h.ne_zero hm0
  have hs0 := p.pos
  unfold Decimal.QuotientNear at h
  have hwhole : Decimal.roundDiv .toEven (D.mantissa * p.scale) D.scale = m :=
    Decimal.roundDiv_of_near _ (by push_cast; omega)
  obtain ⟨k, hk⟩ := Decimal.fitDrop_isSome (n := D.mantissa * p.scale) (s := D.scale)
    (by rw [hwhole]; unfold Decimal.bound; omega)
  obtain ⟨hkE, hkb⟩ := Decimal.fitDrop_some hk
  set N := Decimal.roundDiv .toEven (D.mantissa * p.scale) k with hN
  have hNk := Decimal.roundDiv_near .toEven (D.mantissa * p.scale) k
  rw [← hN] at hNk
  have hpk := Decimal.pow10_pos k
  have hsplitE : Decimal.pow10 D.scale = Decimal.pow10 k * Decimal.pow10 (D.scale - k) := by
    rw [← Decimal.pow10_add, Nat.add_sub_cancel' hkE]
  have hnear : 2 * ((N : ℤ) - m * Decimal.pow10 (D.scale - k)).natAbs < Decimal.pow10 (D.scale - k) := by
    rcases Nat.lt_or_ge k D.scale with hlt | hge
    · have hstep : Decimal.pow10 k * 10 ≤ Decimal.pow10 D.scale := by
        rw [← Decimal.pow10_succ]
        exact Decimal.pow10_le_pow10 hlt
      have hC : (((N * Decimal.pow10 k : ℕ) : ℤ) - (D.mantissa * p.scale : ℕ)) +
          ((D.mantissa : ℤ) * p.scale - m * Decimal.pow10 D.scale) =
          (Decimal.pow10 k : ℤ) * ((N : ℤ) - m * Decimal.pow10 (D.scale - k)) := by
        rw [hsplitE]
        push_cast
        ring
      have htri := Int.natAbs_add_le (((N * Decimal.pow10 k : ℕ) : ℤ) - (D.mantissa * p.scale : ℕ))
        ((D.mantissa : ℤ) * p.scale - m * Decimal.pow10 D.scale)
      rw [hC, Int.natAbs_mul, Int.natAbs_natCast] at htri
      have hprod : Decimal.pow10 k * (2 * ((N : ℤ) - m * Decimal.pow10 (D.scale - k)).natAbs) <
          Decimal.pow10 k * Decimal.pow10 (D.scale - k) := by
        rw [← hsplitE, Nat.mul_left_comm]
        omega
      exact Nat.lt_of_mul_lt_mul_left hprod
    · obtain rfl : k = D.scale := le_antisymm hkE hge
      rw [hN, hwhole, Nat.sub_self, Decimal.pow10_zero]
      simp
  have hN0 : N ≠ 0 := by
    rintro h0
    rw [h0] at hnear
    have : Decimal.pow10 (D.scale - k) ≤ m * Decimal.pow10 (D.scale - k) :=
      Nat.le_mul_of_pos_left _ hm0
    simp only [Nat.cast_zero, zero_sub, Int.natAbs_neg, Int.natAbs_mul, Int.natAbs_natCast] at hnear
    omega
  have hsc : D.scale - k ≤ 28 := le_trans (Nat.sub_le _ _) D.scale_le
  have hmul : D.mul? p.unit = some ⟨D.negative, N, D.scale - k, hkb, hsc⟩ := by
    have hfit : Decimal.fit D.negative (D.mantissa * p.scale) D.scale =
        some ⟨D.negative, N, D.scale - k, hkb, hsc⟩ := by
      unfold Decimal.fit
      rw [hk]
      dsimp only
      unfold Decimal.make?
      rw [dif_pos ⟨hkb, hsc⟩]
    have hunit : p.unit.mantissa = p.scale := rfl
    unfold Decimal.mul?
    rw [if_neg (by rw [hunit]; omega), hunit, show p.unit.negative = false from rfl, Bool.bne_false,
      show D.scale + p.unit.scale = D.scale from rfl, hfit]
    split
    · rw [if_neg (by have := D.scale_le; omega)]
      simp [Decimal.dropZeroSign, hN0]
    · rfl
  have hm0' : (m != 0) = true := bne_iff_ne.mpr (Nat.pos_iff_ne_zero.mp hm0)
  unfold Precision.toRaw?
  rw [hmul]
  simp only [Option.bind_eq_bind, Option.bind_some]
  unfold Decimal.roundWhole
  rw [if_neg hN0]
  split
  · rename_i hs
    have hs' : D.scale - k = 0 := hs
    have hNm : N = m := by
      rw [hs', Decimal.pow10_zero] at hnear
      push_cast at hnear
      omega
    simp [Decimal.toInt64?, hs', hNm]
  · simp [Decimal.toInt64?, Decimal.roundDiv_of_near .awayFromZero hnear, hm0']

/-- Raw units survive the round trip through decimals on every grid: the value of `x` raw units,
converted back to raw units, is `x`. The quotient by the scale is computed to at most 28 places
and may be inexact, but it is always within a quarter unit of its last place, and its last place
is at most a tenth of a raw unit's share. -/
theorem Precision.toRaw?_fromRaw (p : Precision) (x : Int64) : p.toRaw? (p.fromRaw x) = some x := by
  by_cases hx : x.toInt = 0
  · obtain rfl : x = 0 := Int64.toInt_inj.mp (by rw [hx]; rfl)
    rw [Precision.fromRaw_zero, Precision.toRaw?_of_zero rfl]
  · obtain ⟨hneg, hnear⟩ := p.fromRaw_near hx
    rw [p.toRaw?_of_near (Int.natAbs_pos.mpr hx) (Word.natAbs_toInt_le x) hnear, hneg]
    have hsigned : (if decide (x.toInt < 0) = true then -(x.toInt.natAbs : ℤ) else x.toInt.natAbs) =
        x.toInt := by
      split <;> rename_i h <;> simp only [decide_eq_true_eq] at h <;> omega
    rw [hsigned, Word.ofInt?_toInt]

end TradeLedger
