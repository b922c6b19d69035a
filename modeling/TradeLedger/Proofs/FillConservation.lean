import Mathlib
import TradeLedger.Position

/-!
# What a margined fill conserves

A margined fill first closes against the position and then opens with the rest. Closing moves a
share of the unrealized profit into realized profit and takes the closed slice of the mark value
off the cost; opening adds the margin value of the opened size to the cost. So realized profit
minus the change in cost is the closed slice of the mark value less the opened margin value,
whatever share of it was called realized: the split between the two is path-dependent, their
difference is not.

When the margin value at the fill's price is a linear function of the size up to rounding, that
difference is, up to less than two raw units, minus the signed fill times the linear rate: the
slice is a quotient cut toward zero (less than one unit off) of a share of the mark value
(half a unit off at most), and the opened margin value is half a unit off at most
(`applyFill_conserves`). A fill also moves the size by exactly the signed fill, and a fill that
leaves the position flat leaves no cost behind.
-/

namespace TradeLedger

namespace Checked

variable {α β : Type}

theorem orError_bind_ok {e : LedgerError} {o : Option α} {f : α → Checked β} {v : β}
    (h : (orError e o >>= f).run = .ok (.ok v)) : ∃ x, o = some x ∧ (f x).run = .ok (.ok v) := by
  cases o with
  | none => cases h
  | some x => exact ⟨x, rfl, h⟩

theorem orFault_bind_ok {o : Option α} {f : α → Checked β} {v : β}
    (h : (orFault o >>= f).run = .ok (.ok v)) : ∃ x, o = some x ∧ (f x).run = .ok (.ok v) := by
  cases o with
  | none => cases h
  | some x => exact ⟨x, rfl, h⟩

theorem map_pure_ok {g : α → β} {x : α} {v : β}
    (h : (g <$> (pure x : Checked α)).run = .ok (.ok v)) : v = g x := by
  cases h
  rfl

end Checked

/-! ## Words -/

theorem Word.toInt_ofInt_of_fits {x : Int} (lo : -9223372036854775808 ≤ x)
    (hi : x ≤ 9223372036854775807) : (Int64.ofInt x).toInt = x :=
  Int64.toInt_ofInt_of_le (by omega) (by omega)

theorem Word.toInt_ofInt_sub_closed (w : Int64) {c : Int} (h0 : 0 ≤ c) (hc : c ≤ w.toInt.natAbs) :
    (Int64.ofInt (w.toInt - c * Word.signum w)).toInt = w.toInt - c * Word.signum w := by
  have hlo := Int64.le_toInt w
  have hhi := Int64.toInt_lt w
  unfold Word.signum
  split_ifs <;> exact Word.toInt_ofInt_of_fits (by omega) (by omega)

theorem Side.toInt_ofInt_sign_mul (side : Side) {r : Int} (h0 : 0 < r)
    (hr : r < 9223372036854775808) : (Int64.ofInt (side.sign * r)).toInt = side.sign * r := by
  cases side <;> exact Word.toInt_ofInt_of_fits (by simp [Side.sign]; omega) (by simp [Side.sign]; omega)

theorem Word.toInt_ofInt_ne_zero {x : Int} (h0 : x ≠ 0) (lo : -18446744073709551616 < x)
    (hi : x < 18446744073709551616) : (Int64.ofInt x).toInt ≠ 0 := by
  rw [Int64.toInt_ofInt]
  simp only [Int.bmod, Int64.size]
  split_ifs <;> omega

theorem Word.signum_of_against {w : Int64} {side : Side} (hw : w.toInt ≠ 0)
    (hs : Word.signum w ≠ side.sign) : Word.signum w = -side.sign := by
  unfold Word.signum at *
  cases side <;> simp only [Side.sign] at * <;> split_ifs at * <;> omega

theorem Word.signum_mul_natAbs (w : Int64) : Word.signum w * w.toInt.natAbs = w.toInt := by
  unfold Word.signum
  split_ifs <;> omega

theorem Word.abs_signum {w : Int64} (h : w.toInt ≠ 0) : |(Word.signum w : ℚ)| = 1 := by
  unfold Word.signum
  split_ifs <;> simp_all

/-! ## Quotients cut toward zero -/

theorem abs_tdiv_sub_div_lt (a b : Int) (hb : b ≠ 0) : |((a.tdiv b : Int) : ℚ) - a / b| < 1 := by
  have hdecomp : (a : ℚ) = b * (a.tdiv b) + (a.tmod b) := by
    exact_mod_cast (Int.mul_tdiv_add_tmod a b).symm
  have hr : (a.tmod b).natAbs < b.natAbs := by
    rw [Int.natAbs_tmod]
    exact Nat.mod_lt _ (by omega)
  have hbq : (b : ℚ) ≠ 0 := by exact_mod_cast hb
  have hdiff : ((a.tdiv b : Int) : ℚ) - a / b = -((a.tmod b : Int) : ℚ) / b := by
    rw [hdecomp]
    field_simp
    ring
  rw [hdiff, abs_div, abs_neg, div_lt_one (abs_pos.mpr hbq), ← Int.cast_abs, ← Int.cast_abs,
    Int.abs_eq_natAbs, Int.abs_eq_natAbs]
  exact_mod_cast hr

/-! ## Margin value -/

/-- The margin value at `price` is the size times the rate `k`, up to rounding: within half a raw
unit of it wherever it fits a word. -/
def ContractTerms.RoundsLinearly (t : ContractTerms) (price : Decimal) (k : ℚ) : Prop :=
  ∀ x v, t.marginValue? x price = some v → |(v.toInt : ℚ) - x.toInt * k| ≤ 1 / 2

theorem abs_slice_sub_lt (w : Int64) (c M : Int) (k : ℚ) (hs : w.toInt ≠ 0) (hc0 : 0 ≤ c)
    (hc : c ≤ w.toInt.natAbs) (hM : |(M : ℚ) - w.toInt * k| ≤ 1 / 2) :
    |(((c * Word.signum w * M).tdiv w.toInt : Int) : ℚ) - Word.signum w * c * k| < 3 / 2 := by
  have hsq : (w.toInt : ℚ) ≠ 0 := by exact_mod_cast hs
  have hround := abs_tdiv_sub_div_lt (c * Word.signum w * M) w.toInt hs
  have hshare : |(c * Word.signum w : ℚ) / w.toInt| ≤ 1 := by
    rw [abs_div, abs_mul, Word.abs_signum hs, mul_one, div_le_one (abs_pos.mpr hsq),
      abs_of_nonneg (by exact_mod_cast hc0 : (0 : ℚ) ≤ c), ← Int.cast_abs, Int.abs_eq_natAbs]
    exact_mod_cast hc
  have hlin : |((c * Word.signum w * M : Int) : ℚ) / w.toInt - Word.signum w * c * k| ≤ 1 / 2 := by
    have heq : ((c * Word.signum w * M : Int) : ℚ) / w.toInt - Word.signum w * c * k =
        (c * Word.signum w : ℚ) / w.toInt * (M - w.toInt * k) := by
      push_cast
      field_simp
    rw [heq, abs_mul]
    calc |(c * Word.signum w : ℚ) / w.toInt| * |(M : ℚ) - w.toInt * k| ≤ 1 * (1 / 2) :=
          mul_le_mul hshare hM (abs_nonneg _) zero_le_one
      _ = 1 / 2 := one_mul _
  calc |(((c * Word.signum w * M).tdiv w.toInt : Int) : ℚ) - Word.signum w * c * k|
      ≤ |(((c * Word.signum w * M).tdiv w.toInt : Int) : ℚ) -
            ((c * Word.signum w * M : Int) : ℚ) / w.toInt| +
          |((c * Word.signum w * M : Int) : ℚ) / w.toInt - Word.signum w * c * k| :=
        abs_sub_le _ _ _
    _ < 1 + 1 / 2 := add_lt_add_of_lt_of_le hround hlin
    _ = 3 / 2 := by norm_num

/-! ## Fills -/

section Fill

variable {p p' : Position} {side : Side} {n : Int64} {sp : Decimal} {t : ContractTerms}
  {u : FillUpdate}

/-- What a fill of `n > 0` lots did to a position: when held against the fill, it closed
`closed = min n |size|` lots, taking the slice of the mark value off the cost and realizing the
same share of the unrealized profit, both quotients cut toward zero; and then, if lots were
left, it opened them at their margin value. -/
theorem applyFill_ok (hn : 0 < n.toInt) (h : (applyFill p side n sp t).run = .ok (.ok (p', u))) :
    ∃ closed cost₁ : Int,
      ((p.rawSize.toInt ≠ 0 ∧ Word.signum p.rawSize ≠ side.sign ∧
          closed = min n.toInt p.rawSize.toInt.natAbs ∧
          ∃ m : Int64, t.marginValue? p.rawSize sp = some m ∧
            cost₁ = p.cost.toInt -
              ((closed * Word.signum p.rawSize * m.toInt).tdiv p.rawSize.toInt - u.realizedPnl.toInt) ∧
            u.realizedPnl.toInt =
              (closed * Word.signum p.rawSize * (m.toInt - p.cost.toInt)).tdiv p.rawSize.toInt) ∨
        (¬(p.rawSize.toInt ≠ 0 ∧ Word.signum p.rawSize ≠ side.sign) ∧ closed = 0 ∧
          cost₁ = p.cost.toInt ∧ u.realizedPnl.toInt = 0)) ∧
      ((n.toInt - closed ≤ 0 ∧ p'.cost.toInt = cost₁ ∧
          p'.rawSize.toInt = p.rawSize.toInt - closed * Word.signum p.rawSize) ∨
        (0 < n.toInt - closed ∧ ∃ m : Int64,
          t.marginValue? (Int64.ofInt (side.sign * (n.toInt - closed))) sp = some m ∧
          p'.cost.toInt = cost₁ + m.toInt ∧
          p'.rawSize.toInt =
            p.rawSize.toInt - closed * Word.signum p.rawSize + side.sign * (n.toInt - closed))) := by
  have hn' := Int64.toInt_lt n
  unfold applyFill at h
  simp only [pure_bind, bind_pure_comp] at h
  split at h
  · rename_i hagainst
    obtain ⟨mag, hmag, h⟩ := Checked.orFault_bind_ok h
    obtain ⟨m, hm, h⟩ := Checked.orError_bind_ok h
    obtain ⟨slice, hslice, h⟩ := Checked.orError_bind_ok h
    obtain ⟨real, hreal, h⟩ := Checked.orError_bind_ok h
    obtain ⟨entry, hentry, h⟩ := Checked.orError_bind_ok h
    obtain ⟨cost, hcost, h⟩ := Checked.orError_bind_ok h
    have hmag' : mag.toInt = (p.rawSize.toInt.natAbs : Int) := Word.toInt_of_ofInt? hmag
    rw [hmag'] at h hslice hreal
    have hreal' := Word.toInt_of_ofInt? hreal
    have hcost₁ : cost.toInt = p.cost.toInt -
        ((min n.toInt p.rawSize.toInt.natAbs * Word.signum p.rawSize * m.toInt).tdiv
          p.rawSize.toInt - real.toInt) := by
      rw [Word.toInt_of_ofInt? hcost, Word.toInt_of_ofInt? hentry, Word.toInt_of_ofInt? hslice]
    have hleft := Word.toInt_ofInt_sub_closed p.rawSize (c := min n.toInt p.rawSize.toInt.natAbs)
      (by omega) (min_le_right _ _)
    split at h
    · obtain ⟨m', hm', h⟩ := Checked.orError_bind_ok h
      obtain ⟨c', hc', h⟩ := Checked.orError_bind_ok h
      obtain ⟨sz, hsz, h⟩ := Checked.orError_bind_ok h
      cases Checked.map_pure_ok h
      refine ⟨_, cost.toInt, .inl ⟨hagainst.1, hagainst.2, rfl, m, hm, hcost₁, hreal'⟩,
        .inr ⟨‹_›, m', hm', Word.toInt_of_ofInt? hc', ?_⟩⟩
      rw [Word.toInt_of_ofInt? hsz, hleft, Side.toInt_ofInt_sign_mul _ (by omega) (by omega)]
    · cases Checked.map_pure_ok h
      exact ⟨_, cost.toInt, .inl ⟨hagainst.1, hagainst.2, rfl, m, hm, hcost₁, hreal'⟩,
        .inl ⟨by omega, rfl, hleft⟩⟩
  · rename_i hagainst
    split at h
    · obtain ⟨m', hm', h⟩ := Checked.orError_bind_ok h
      obtain ⟨c', hc', h⟩ := Checked.orError_bind_ok h
      obtain ⟨sz, hsz, h⟩ := Checked.orError_bind_ok h
      cases Checked.map_pure_ok h
      refine ⟨0, p.cost.toInt, .inr ⟨hagainst, rfl, rfl, rfl⟩,
        .inr ⟨by omega, m', by simpa using hm', Word.toInt_of_ofInt? hc', ?_⟩⟩
      rw [Word.toInt_of_ofInt? hsz, Side.toInt_ofInt_sign_mul _ (by omega) (by omega)]
      simp
    · omega

theorem applyFill_rawSize (hn : 0 < n.toInt) (h : (applyFill p side n sp t).run = .ok (.ok (p', u))) :
    p'.rawSize.toInt = p.rawSize.toInt + side.sign * n.toInt := by
  obtain ⟨closed, cost₁, hclose, hopen⟩ := applyFill_ok hn h
  rcases hclose with ⟨hs, hne, rfl, -⟩ | ⟨-, rfl, -⟩
  · have hσ := Word.signum_of_against hs hne
    have hle := min_le_left n.toInt p.rawSize.toInt.natAbs
    rcases hopen with ⟨hr, -, hsize⟩ | ⟨-, -, -, -, hsize⟩
    · rw [hsize, hσ, show min n.toInt p.rawSize.toInt.natAbs = n.toInt by omega]
      ring
    · rw [hsize, hσ]
      ring
  · rcases hopen with ⟨hr, -⟩ | ⟨-, -, -, -, hsize⟩
    · omega
    · rw [hsize]
      ring

theorem applyFill_flat_cost (hn : 0 < n.toInt) (h : (applyFill p side n sp t).run = .ok (.ok (p', u)))
    (hflat : p'.rawSize.toInt = 0) : p'.cost = 0 := by
  have hsize := applyFill_rawSize hn h
  obtain ⟨closed, cost₁, hclose, hopen⟩ := applyFill_ok hn h
  have hsig := Word.signum_mul_natAbs p.rawSize
  rcases hclose with ⟨hs, hne, rfl, m, -, hcost₁, hreal⟩ | ⟨hagainst, rfl, -⟩
  · have hσ := Word.signum_of_against hs hne
    rcases hopen with ⟨-, hcost, -⟩ | ⟨hr, -⟩
    · have hall : min n.toInt p.rawSize.toInt.natAbs * Word.signum p.rawSize = p.rawSize.toInt := by
        rw [hσ] at hsig ⊢
        cases side <;> simp only [Side.sign] at * <;> omega
      rw [hall] at hcost₁ hreal
      rw [Int.mul_tdiv_cancel_left _ hs] at hreal
      rw [Int.mul_tdiv_cancel_left _ hs, hreal] at hcost₁
      apply Int64.toInt_inj.mp
      rw [hcost, hcost₁]
      simp
    · rw [hσ] at hsig
      cases side <;> simp only [Side.sign] at * <;> omega
  · unfold Word.signum at hagainst
    cases side <;> simp only [Side.sign] at * <;> split_ifs at hagainst <;> omega

theorem applyFill_keeps_flat_cost (hp : p.rawSize.toInt = 0 → p.cost = 0)
    (h : (applyFill p side n sp t).run = .ok (.ok (p', u))) (hflat : p'.rawSize.toInt = 0) :
    p'.cost = 0 := by
  rcases lt_or_ge 0 n.toInt with hn | hn
  · exact applyFill_flat_cost hn h hflat
  have hn' := Int64.le_toInt n
  unfold applyFill at h
  simp only [pure_bind, bind_pure_comp] at h
  split at h
  · rename_i hagainst
    obtain ⟨mag, hmag, h⟩ := Checked.orFault_bind_ok h
    obtain ⟨m, -, h⟩ := Checked.orError_bind_ok h
    obtain ⟨slice, -, h⟩ := Checked.orError_bind_ok h
    obtain ⟨real, -, h⟩ := Checked.orError_bind_ok h
    obtain ⟨entry, -, h⟩ := Checked.orError_bind_ok h
    obtain ⟨cost, -, h⟩ := Checked.orError_bind_ok h
    have hmag' : mag.toInt = (p.rawSize.toInt.natAbs : Int) := Word.toInt_of_ofInt? hmag
    have hmax := Int64.toInt_lt mag
    rw [hmag'] at h hmax
    split at h
    · omega
    · cases Checked.map_pure_ok h
      refine absurd hflat (Word.toInt_ofInt_ne_zero ?_ ?_ ?_) <;>
        (unfold Word.signum; split_ifs <;> omega)
  · split at h
    · omega
    · cases Checked.map_pure_ok h
      exact hp hflat

/-- Realized profit minus the change in cost is, up to less than two raw units, minus the signed
fill times the rate at which the margin value rounds linearly at the fill's price. -/
theorem applyFill_conserves {k : ℚ} (hn : 0 < n.toInt) (hk : t.RoundsLinearly sp k)
    (h : (applyFill p side n sp t).run = .ok (.ok (p', u))) :
    |((u.realizedPnl.toInt - (p'.cost.toInt - p.cost.toInt) : Int) : ℚ) + side.sign * n.toInt * k| < 2 := by
  have hn' := Int64.toInt_lt n
  obtain ⟨closed, cost₁, hclose, hopen⟩ := applyFill_ok hn h
  have hopened : ∀ r : Int, 0 < r → r ≤ n.toInt → ∀ m : Int64,
      t.marginValue? (Int64.ofInt (side.sign * r)) sp = some m →
      |(m.toInt : ℚ) - side.sign * r * k| ≤ 1 / 2 := by
    intro r hr hrn m hm
    have := hk _ _ hm
    rwa [Side.toInt_ofInt_sign_mul side hr (by omega), Int.cast_mul] at this
  rcases hclose with ⟨hs, hne, rfl, m, hm, hcost₁, -⟩ | ⟨-, rfl, rfl, hreal⟩
  · have hσ := Word.signum_of_against hs hne
    have hle := min_le_left n.toInt p.rawSize.toInt.natAbs
    have hslice := abs_slice_sub_lt p.rawSize (min n.toInt p.rawSize.toInt.natAbs) m.toInt k hs
      (by omega) (min_le_right _ _) (hk _ _ hm)
    rcases hopen with ⟨hr, hcost, -⟩ | ⟨hr, m', hm', hcost, -⟩
    · have hall : min n.toInt p.rawSize.toInt.natAbs = n.toInt := by omega
      rw [hall] at hcost₁ hslice
      rw [hcost, hcost₁, hσ]
      rw [hσ] at hslice
      have heq : (((u.realizedPnl.toInt - (p.cost.toInt - ((n.toInt * -side.sign * m.toInt).tdiv
          p.rawSize.toInt - u.realizedPnl.toInt) - p.cost.toInt)) : Int) : ℚ) + side.sign * n.toInt * k =
          (((n.toInt * -side.sign * m.toInt).tdiv p.rawSize.toInt : Int) : ℚ) -
            (-side.sign : Int) * n.toInt * k := by
        push_cast
        ring
      rw [heq]
      linarith
    · have hval := hopened _ hr (by omega) m' hm'
      rw [hσ] at hslice hcost₁
      rw [hcost, hcost₁]
      have heq : (((u.realizedPnl.toInt - (p.cost.toInt - ((min n.toInt p.rawSize.toInt.natAbs *
          -side.sign * m.toInt).tdiv p.rawSize.toInt - u.realizedPnl.toInt) + m'.toInt -
          p.cost.toInt)) : Int) : ℚ) + side.sign * n.toInt * k =
          ((((min n.toInt p.rawSize.toInt.natAbs * -side.sign * m.toInt).tdiv p.rawSize.toInt : Int) : ℚ) -
            (-side.sign : Int) * (min n.toInt p.rawSize.toInt.natAbs : Int) * k) -
          ((m'.toInt : ℚ) - side.sign * ((n.toInt - min n.toInt p.rawSize.toInt.natAbs : Int) : ℚ) * k) := by
        push_cast
        ring
      rw [heq]
      calc _ ≤ _ := abs_sub _ _
        _ < 3 / 2 + 1 / 2 := add_lt_add_of_lt_of_le hslice (by exact_mod_cast hval)
        _ = 2 := by norm_num
  · rcases hopen with ⟨hr, -⟩ | ⟨hr, m', hm', hcost, -⟩
    · omega
    · have hval := hopened _ hr (by omega) m' hm'
      rw [hcost, hreal]
      have heq : (((0 - (p.cost.toInt + m'.toInt - p.cost.toInt)) : Int) : ℚ) + side.sign * n.toInt * k =
          -((m'.toInt : ℚ) - side.sign * ((n.toInt - 0 : Int) : ℚ) * k) := by
        push_cast
        ring
      rw [heq, abs_neg]
      linarith

end Fill

end TradeLedger
