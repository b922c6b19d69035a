import TradeLedger.Proofs.CorrectRounding
import TradeLedger.Proofs.FillOrder
import TradeLedger.Proofs.Faults

/-!
# Risk figures move with the mark and the leverage

Every decimal operation rounds correctly and so keeps the order of its exact results
(`Decimal.mul?_val_le` and its kin); the conversions between decimals and raw grid units do the
same (`Precision.toRaw?_mono`, `Precision.fromRaw_mono`). Composed along the valuation of a
position this gives the direction of the risk figures:

* the unrealized profit of a long position is non-decreasing in the mark and that of a short one
  non-increasing, on a linear contract with a positive multiplier and on an inverse one with a
  negative multiplier, whose settlement price falls as the mark rises
  (`Account.unrealizedPnl_monotone_in_mark`);
* the available margin, a running sum of unrealized profit less the margin each position ties
  up, is non-decreasing in the leverage, in whatever order the positions are summed
  (`Account.availableMargin_monotone_in_leverage`). The query sums the open positions by security
  id; `Account.availableMarginOver` and `Account.leverageOver` run the same folds over any list.

Both hold wherever the query is answered at the two points compared; an overflow on the way is
an error answer, never a smaller value.
-/

namespace TradeLedger

open Decimal

namespace Decimal

@[simp] theorem val_one : one.val = 1 := by simp [val, one, num]

@[simp] theorem val_ofInt64 (x : Int64) : (ofInt64 x).val = x.toInt := by
  have hnum : (ofInt64 x).num = x.toInt := by
    simp only [num, ofInt64, ofInt, decide_eq_true_eq]
    split <;> omega
  simp [val, hnum, show (ofInt64 x).scale = 0 from rfl]

theorem val_abs_nonneg (d : Decimal) : 0 ≤ d.abs.val := by
  rw [val_eq]
  simp only [abs_mantissa, abs_scale]
  have : d.abs.negative = false := rfl
  simp only [this, Bool.false_eq_true, if_false, one_mul]
  exact div_nonneg (Nat.cast_nonneg _) (pow10_pos_rat _).le

theorem val_maxOf_zero (d : Decimal) : (maxOf d zero).val = Max.max d.val 0 := by
  unfold maxOf
  split
  · rename_i h
    rw [lt_iff_val_lt, val_zero] at h
    rw [val_zero, max_eq_right h.le]
  · rename_i h
    rw [lt_iff_val_lt, val_zero] at h
    rw [max_eq_left (not_lt.mp h)]

end Decimal

/-! ## Grids -/

namespace Precision

@[simp] theorem val_unit (p : Precision) : p.unit.val = p.scale := by
  simp [Decimal.val, unit, Decimal.num]

theorem div?_fromRaw (p : Precision) (x : Int64) :
    (Decimal.ofInt64 x).div? p.unit = some (p.fromRaw x) := by
  unfold fromRaw
  cases hq : (Decimal.ofInt64 x).div? p.unit with
  | some d => rfl
  | none =>
    exfalso
    by_cases hx : x.toInt = 0
    · have hm : (Decimal.ofInt64 x).mantissa = 0 := by simp [Decimal.ofInt64, Decimal.ofInt, hx]
      have hu : p.unit.mantissa ≠ 0 := p.pos.ne'
      simp [Decimal.div?, hm, hu] at hq
    · obtain ⟨-, hnear⟩ := p.fromRaw_near hx
      unfold fromRaw at hnear
      rw [hq] at hnear
      exact hnear.ne_zero (by omega) rfl

theorem fromRaw_roundsTo (p : Precision) (x : Int64) :
    RoundsTo (x.toInt / p.scale) (p.fromRaw x).val := by
  simpa using div?_roundsTo (p.div?_fromRaw x)

/-- More raw units never read as less. -/
theorem fromRaw_mono (p : Precision) {x y : Int64} (h : x.toInt ≤ y.toInt) :
    (p.fromRaw x).val ≤ (p.fromRaw y).val :=
  (p.fromRaw_roundsTo x).mono
    (div_le_div_of_nonneg_right (by exact_mod_cast h) (Nat.cast_nonneg _)) (p.fromRaw_roundsTo y)

theorem fromRaw_nonneg (p : Precision) {x : Int64} (h : 0 ≤ x.toInt) : 0 ≤ (p.fromRaw x).val :=
  (p.fromRaw_roundsTo x).nonneg (div_nonneg (by exact_mod_cast h) (Nat.cast_nonneg _))

theorem fromRaw_nonpos (p : Precision) {x : Int64} (h : x.toInt ≤ 0) : (p.fromRaw x).val ≤ 0 :=
  (p.fromRaw_roundsTo x).nonpos (div_nonpos_of_nonpos_of_nonneg (by exact_mod_cast h) (Nat.cast_nonneg _))

theorem toRaw?_toInt {p : Precision} {x : Decimal} {w : Int64} (h : p.toRaw? x = some w) :
    ∃ s, x.mul? p.unit = some s ∧ w.toInt = roundHalfAway s.val := by
  unfold toRaw? at h
  cases hs : x.mul? p.unit with
  | none => simp [hs] at h
  | some s =>
    simp only [hs, Option.bind_eq_bind, Option.bind_some] at h
    rw [toInt64?_of_scale_zero (roundWhole_scale _ _)] at h
    refine ⟨s, rfl, ?_⟩
    have hval : ((s.roundWhole .awayFromZero).num : ℚ) = (s.roundWhole .awayFromZero).val := by
      simp [Decimal.val, roundWhole_scale]
    rw [Word.toInt_of_ofInt? h]
    exact_mod_cast hval.trans (val_roundWhole_awayFromZero s)

/-- A larger value never takes fewer raw units. -/
theorem toRaw?_mono (p : Precision) {x y : Decimal} {v w : Int64} (hx : p.toRaw? x = some v)
    (hy : p.toRaw? y = some w) (hxy : x.val ≤ y.val) : v.toInt ≤ w.toInt := by
  obtain ⟨s, hs, hv⟩ := toRaw?_toInt hx
  obtain ⟨t, ht, hw⟩ := toRaw?_toInt hy
  rw [hv, hw]
  exact roundHalfAway_mono
    (mul?_val_le hs ht (mul_le_mul_of_nonneg_right hxy (by simp)))

end Precision

/-! ## The value of a position at a price -/

namespace ContractTerms

theorem marginValue?_some {t : ContractTerms} {raw : Int64} {price : Decimal} {w : Int64}
    (h : t.marginValue? raw price = some w) :
    ∃ v u, (t.lot.fromRaw raw).mul? price = some v ∧ v.mul? t.multiplier = some u ∧
      t.margin.toRaw? u = some w := by
  unfold marginValue? at h
  cases hv : (t.lot.fromRaw raw).mul? price with
  | none => simp [hv] at h
  | some v =>
    cases hu : v.mul? t.multiplier with
    | none => simp [hv, hu] at h
    | some u => exact ⟨v, u, rfl, hu, by simpa [hv, hu] using h⟩

/-- The margin value follows the exact value of the size at the price: the same way at a
multiplier of at least zero, the other way at one of at most zero. -/
theorem marginValue?_le {t : ContractTerms} {raw : Int64} {p₁ p₂ : Decimal} {w₁ w₂ : Int64}
    (h₁ : t.marginValue? raw p₁ = some w₁) (h₂ : t.marginValue? raw p₂ = some w₂)
    (h : (t.lot.fromRaw raw).val * p₁.val ≤ (t.lot.fromRaw raw).val * p₂.val) :
    (0 ≤ t.multiplier.val → w₁.toInt ≤ w₂.toInt) ∧
      (t.multiplier.val ≤ 0 → w₂.toInt ≤ w₁.toInt) := by
  obtain ⟨v₁, u₁, hv₁, hu₁, hw₁⟩ := marginValue?_some h₁
  obtain ⟨v₂, u₂, hv₂, hu₂, hw₂⟩ := marginValue?_some h₂
  have hv : v₁.val ≤ v₂.val := mul?_val_le hv₁ hv₂ h
  refine ⟨fun hm => ?_, fun hm => ?_⟩
  · exact t.margin.toRaw?_mono hw₁ hw₂ (mul?_val_le hu₁ hu₂ (mul_le_mul_of_nonneg_right hv hm))
  · exact t.margin.toRaw?_mono hw₂ hw₁ (mul?_val_le hu₂ hu₁ (mul_le_mul_of_nonpos_right hv hm))

end ContractTerms

/-- The unrealized profit is the margin value less the cost, so it moves as the margin value
does. -/
theorem Margin.unrealizedPnl?_le {p : Position} {t : ContractTerms} {P₁ P₂ : Decimal}
    {u₁ u₂ : Int64} (h₁ : Margin.unrealizedPnl? p P₁ t = some u₁)
    (h₂ : Margin.unrealizedPnl? p P₂ t = some u₂)
    (h : (t.lot.fromRaw p.rawSize).val * P₁.val ≤ (t.lot.fromRaw p.rawSize).val * P₂.val) :
    (0 ≤ t.multiplier.val → u₁.toInt ≤ u₂.toInt) ∧
      (t.multiplier.val ≤ 0 → u₂.toInt ≤ u₁.toInt) := by
  unfold Margin.unrealizedPnl? at h₁ h₂
  split at h₁
  · rename_i hflat
    rw [if_pos hflat] at h₂
    cases h₁
    cases h₂
    simp
  · rename_i hflat
    rw [if_neg hflat] at h₂
    simp only [Option.bind_eq_bind] at h₁ h₂
    obtain ⟨w₁, hw₁, hs₁⟩ := Option.bind_eq_some_iff.mp h₁
    obtain ⟨w₂, hw₂, hs₂⟩ := Option.bind_eq_some_iff.mp h₂
    have e₁ : u₁.toInt = w₁.toInt - p.cost.toInt := Word.toInt_of_ofInt? hs₁
    have e₂ : u₂.toInt = w₂.toInt - p.cost.toInt := Word.toInt_of_ofInt? hs₂
    obtain ⟨hpos, hneg⟩ := t.marginValue?_le hw₁ hw₂ h
    exact ⟨fun hm => by have := hpos hm; omega, fun hm => by have := hneg hm; omega⟩

/-- A linear contract settles at the mark itself and an inverse one at its reciprocal, rounded:
the settlement price rises with the mark for the first and falls for the second. -/
theorem Instrument.settlementPrice?_le {i : Instrument} {m₁ m₂ P₁ P₂ : Decimal}
    (h₁ : i.settlementPrice? m₁ = some P₁) (h₂ : i.settlementPrice? m₂ = some P₂)
    (h : m₁.val ≤ m₂.val) :
    (i.security.isInverse = false → P₁.val ≤ P₂.val) ∧
      (i.security.isInverse = true → P₂.val ≤ P₁.val) := by
  unfold Instrument.settlementPrice? at h₁ h₂
  split at h₁
  · cases h₁
  rename_i hpos₁
  have hm₁ : 0 < m₁.val := by
    rw [le_iff_val_le, val_zero] at hpos₁
    exact lt_of_not_ge hpos₁
  have hpos₂ : ¬m₂ ≤ Decimal.zero := by
    rw [le_iff_val_le, val_zero]
    linarith
  rw [if_neg hpos₂] at h₂
  refine ⟨fun hlin => ?_, fun hinv => ?_⟩
  · simp only [hlin, Bool.false_eq_true, if_false, Option.some.injEq] at h₁ h₂
    rw [← h₁, ← h₂]
    exact h
  · simp only [hinv, if_true] at h₁ h₂
    refine div?_val_le h₂ h₁ ?_
    rw [val_one]
    exact one_div_le_one_div_of_le hm₁ h

namespace Checked

theorem bind_ok {α β : Type} {x : Checked α} {f : α → Checked β} {v : β}
    (h : (x >>= f).run = .ok (.ok v)) : ∃ y, x.run = .ok (.ok y) ∧ (f y).run = .ok (.ok v) := by
  rw [ExceptT.run_bind] at h
  cases hx : x.run with
  | error e =>
    rw [hx] at h
    cases h
  | ok r =>
    rw [hx] at h
    cases r with
    | error e => cases h
    | ok y => exact ⟨y, rfl, h⟩

end Checked

namespace Account

variable {a : Account}

theorem answerChecked_value {c : Checked Decimal} {v : Decimal}
    (h : answerChecked c = .ok (.value v)) : c.run = .ok (.ok v) := by
  unfold answerChecked at h
  split at h
  · cases h
  · rename_i w hrun
    cases h
    exact hrun
  · cases h

theorem unrealizedPnl_ok {sid : SecurityId} {mark u : Decimal} {p : Position}
    (hp : a.positions.get? sid = some p) (h : (a.unrealizedPnl sid mark).run = .ok (.ok u)) :
    ∃ i P r, a.instrument? p.securityId = some i ∧ i.settlementPrice? mark = some P ∧
      Margin.unrealizedPnl? p P (a.terms i) = some r ∧ u = a.marginGrid.fromRaw r := by
  simp only [unrealizedPnl, hp] at h
  obtain ⟨v, hv, h⟩ := Checked.bind_ok h
  cases h
  obtain ⟨i, P, hi, hP, hr⟩ := valuation_ok hv
  exact ⟨i, P, v.unrealized, hi, hP, hr, rfl⟩

/-- The unrealized profit of a position moves with the mark: up for a long position and down
for a short one, on a linear contract with a positive multiplier and on an inverse one with a
negative multiplier alike, wherever it is answered at both marks. -/
theorem unrealizedPnl_monotone_in_mark {sid : SecurityId} {p : Position} {i : Instrument}
    (hp : a.positions.get? sid = some p) (hi : a.instrument? p.securityId = some i)
    (hsign : if i.security.isInverse then i.security.multiplier < Decimal.zero
      else Decimal.zero < i.security.multiplier)
    {m₁ m₂ u₁ u₂ : Decimal} (hm : m₁ ≤ m₂)
    (h₁ : a.query (.unrealizedPnl sid m₁) = .ok (.value u₁))
    (h₂ : a.query (.unrealizedPnl sid m₂) = .ok (.value u₂)) :
    (0 < p.rawSize.toInt → u₁ ≤ u₂) ∧ (p.rawSize.toInt < 0 → u₂ ≤ u₁) := by
  obtain ⟨i₁, P₁, r₁, hi₁, hP₁, hr₁, rfl⟩ := unrealizedPnl_ok hp (answerChecked_value h₁)
  obtain ⟨i₂, P₂, r₂, hi₂, hP₂, hr₂, rfl⟩ := unrealizedPnl_ok hp (answerChecked_value h₂)
  obtain rfl : i₁ = i := Option.some.inj (hi₁.symm.trans hi)
  obtain rfl : i₂ = i₁ := Option.some.inj (hi₂.symm.trans hi)
  obtain ⟨hlin, hinv⟩ := i₂.settlementPrice?_le hP₁ hP₂ ((le_iff_val_le _ _).mp hm)
  simp only [le_iff_val_le]
  have hlong : 0 < p.rawSize.toInt → 0 ≤ ((a.terms i₂).lot.fromRaw p.rawSize).val :=
    fun h => (a.terms i₂).lot.fromRaw_nonneg h.le
  have hshort : p.rawSize.toInt < 0 → ((a.terms i₂).lot.fromRaw p.rawSize).val ≤ 0 :=
    fun h => (a.terms i₂).lot.fromRaw_nonpos h.le
  cases hfam : i₂.security.isInverse
  · have hmul : 0 ≤ (a.terms i₂).multiplier.val := by
      simp only [hfam, Bool.false_eq_true, if_false, lt_iff_val_lt, val_zero] at hsign
      exact hsign.le
    have hP := hlin hfam
    refine ⟨fun h => a.marginGrid.fromRaw_mono ?_, fun h => a.marginGrid.fromRaw_mono ?_⟩
    · exact (Margin.unrealizedPnl?_le hr₁ hr₂ (mul_le_mul_of_nonneg_left hP (hlong h))).1 hmul
    · exact (Margin.unrealizedPnl?_le hr₂ hr₁ (mul_le_mul_of_nonpos_left hP (hshort h))).1 hmul
  · have hmul : (a.terms i₂).multiplier.val ≤ 0 := by
      simp only [hfam, if_true, lt_iff_val_lt, val_zero] at hsign
      exact hsign.le
    have hP := hinv hfam
    refine ⟨fun h => a.marginGrid.fromRaw_mono ?_, fun h => a.marginGrid.fromRaw_mono ?_⟩
    · exact (Margin.unrealizedPnl?_le hr₂ hr₁ (mul_le_mul_of_nonneg_left hP (hlong h))).2 hmul
    · exact (Margin.unrealizedPnl?_le hr₁ hr₂ (mul_le_mul_of_nonpos_left hP (hshort h))).2 hmul

def fundedBtcPerp : Command :=
  .sync ⟨[Security.btcusdPerp], [], [], [⟨⟨"binance", "main"⟩, "BTC", Decimal.ofParts false 1 0⟩],
    none, none⟩

def longTenLots : List Command := [fundedBtcPerp, .newOrder Sample.buyTen, Sample.fillA 10]

def longTenAccount : Account := (Sample.session longTenLots).get rfl

theorem session_longTenLots : Sample.session longTenLots = some longTenAccount :=
  (Option.some_get _).symm

/-- Long ten lots of the BTC perpetual, an inverse contract with multiplier -1, bought at 100:
its unrealized profit is 0 at a mark of 100 and 0.05 at 200. -/
theorem long_perpetual_gains_with_mark :
    ∃ a p i, Sample.session longTenLots = some a ∧ a.positions.get? 1 = some p ∧
      a.instrument? p.securityId = some i ∧
      (if i.security.isInverse then i.security.multiplier < Decimal.zero
        else Decimal.zero < i.security.multiplier) ∧
      Decimal.ofParts false 100 0 ≤ Decimal.ofParts false 200 0 ∧
      a.query (.unrealizedPnl 1 (Decimal.ofParts false 100 0)) =
        .ok (.value (Decimal.ofParts false 0 0)) ∧
      a.query (.unrealizedPnl 1 (Decimal.ofParts false 200 0)) =
        .ok (.value (Decimal.ofParts false 5 2)) ∧
      0 < p.rawSize.toInt ∧ Decimal.ofParts false 0 0 ≤ Decimal.ofParts false 5 2 := by
  have hp : longTenAccount.positions.get? 1 = some _ := rfl
  have hi : longTenAccount.instrument? 1 = some _ := rfl
  have h₁ : longTenAccount.query (.unrealizedPnl 1 (Decimal.ofParts false 100 0)) =
      .ok (.value (Decimal.ofParts false 0 0)) := rfl
  have h₂ : longTenAccount.query (.unrealizedPnl 1 (Decimal.ofParts false 200 0)) =
      .ok (.value (Decimal.ofParts false 5 2)) := rfl
  exact ⟨_, _, _, session_longTenLots, hp, hi, by decide, by decide, h₁, h₂, by decide,
    (unrealizedPnl_monotone_in_mark hp hi (by decide) (by decide) h₁ h₂).1 (by decide)⟩

/-! ## The risk queries over any enumeration -/

/-- The leverage with the open positions taken in the order `ps`. -/
def leverageOver (a : Account) (ps : List Position) (marks : List (SecurityId × Decimal)) :
    Checked Decimal := do
  let (exposure, equity) ← ps.foldlM (a.leverageStep marks) ((0 : Int64), a.margin)
  ExceptT.lift (Margin.leverageRatio (a.marginGrid.fromRaw exposure) (a.marginGrid.fromRaw equity))

theorem leverage_eq_leverageOver (a : Account) (marks : List (SecurityId × Decimal)) :
    a.leverage marks = a.leverageOver a.openPositions marks := rfl

/-- The available margin with the open positions taken in the order `ps`. -/
def availableMarginOver (a : Account) (ps : List Position) (marks : List (SecurityId × Decimal))
    (leverage : Decimal) : Checked Decimal := do
  if leverage ≤ Decimal.zero then throw (.rejected .other)
  let available ← ps.foldlM (a.availableStep marks leverage) a.marginValue
  pure (Decimal.maxOf available Decimal.zero)

theorem availableMargin_eq_availableMarginOver (a : Account) (marks : List (SecurityId × Decimal))
    (leverage : Decimal) :
    a.availableMargin marks leverage = a.availableMarginOver a.openPositions marks leverage := rfl

theorem leveragedCost?_antitone {p : Position} {g : Precision} {L₁ L₂ l₁ l₂ : Decimal}
    (hL₁ : 0 < L₁.val) (hL : L₁.val ≤ L₂.val) (h₁ : Margin.leveragedCost? p L₁ g = some l₁)
    (h₂ : Margin.leveragedCost? p L₂ g = some l₂) : l₂.val ≤ l₁.val := by
  unfold Margin.leveragedCost? at h₁ h₂
  split at h₁
  · cases h₁
  split at h₂
  · cases h₂
  exact div?_val_le h₂ h₁ (div_le_div_of_nonneg_left (val_abs_nonneg _) hL₁ hL)

/-- What one step of the available margin does when it runs through: it finds the position's
mark and valuation and the margin the position ties up, adds the unrealized profit to the running
sum and takes the tied-up margin off. -/
theorem availableStep_ok {marks : List (SecurityId × Decimal)} {L x y : Decimal} {p : Position}
    (h : (a.availableStep marks L x p).run = .ok (.ok y)) :
    ∃ mark v l s, markOf? marks p.securityId = some mark ∧ (a.valuation p mark).run = .ok (.ok v) ∧
      Margin.leveragedCost? p L a.marginGrid = some l ∧
      x.add? (a.marginGrid.fromRaw v.unrealized) = some s ∧ s.sub? l = some y := by
  obtain ⟨mark, hmark, h⟩ := Checked.orError_bind_ok h
  obtain ⟨v, hv, h⟩ := Checked.bind_ok h
  obtain ⟨l, hl, h⟩ := Checked.orError_bind_ok h
  obtain ⟨s, hs, hy⟩ := Option.bind_eq_some_iff.mp (Checked.orError_run_ok h)
  exact ⟨mark, v, l, s, hmark, hv, hl, hs, hy⟩

theorem availableStep_le {marks : List (SecurityId × Decimal)} {L₁ L₂ x₁ x₂ y₁ y₂ : Decimal}
    {p : Position} (hL₁ : 0 < L₁.val) (hL : L₁.val ≤ L₂.val) (hx : x₁.val ≤ x₂.val)
    (h₁ : (a.availableStep marks L₁ x₁ p).run = .ok (.ok y₁))
    (h₂ : (a.availableStep marks L₂ x₂ p).run = .ok (.ok y₂)) : y₁.val ≤ y₂.val := by
  obtain ⟨mark, v, l₁, s₁, hmark, hv, hl₁, hs₁, hy₁⟩ := availableStep_ok h₁
  obtain ⟨mark', v', l₂, s₂, hmark', hv', hl₂, hs₂, hy₂⟩ := availableStep_ok h₂
  obtain rfl : mark' = mark := Option.some.inj (hmark'.symm.trans hmark)
  obtain rfl : v' = v := by
    rw [hv] at hv'
    cases hv'
    rfl
  have hl := leveragedCost?_antitone hL₁ hL hl₁ hl₂
  have hs : s₁.val ≤ s₂.val := add?_val_le hs₁ hs₂ (by linarith)
  exact sub?_val_le hy₁ hy₂ (by linarith)

/-- The running sums of the available margin at two leverages stay ordered over any list of
positions, by induction on the list with the step lemma. -/
theorem foldlM_availableStep_le {marks : List (SecurityId × Decimal)} {L₁ L₂ : Decimal}
    (hL₁ : 0 < L₁.val) (hL : L₁.val ≤ L₂.val) :
    ∀ (ps : List Position) {x₁ x₂ y₁ y₂ : Decimal}, x₁.val ≤ x₂.val →
      (ps.foldlM (a.availableStep marks L₁) x₁).run = .ok (.ok y₁) →
      (ps.foldlM (a.availableStep marks L₂) x₂).run = .ok (.ok y₂) → y₁.val ≤ y₂.val
  | [], _, _, _, _, hx, h₁, h₂ => by
    cases h₁
    cases h₂
    exact hx
  | p :: ps, _, _, _, _, hx, h₁, h₂ => by
    rw [List.foldlM_cons] at h₁ h₂
    obtain ⟨z₁, hz₁, h₁⟩ := Checked.bind_ok h₁
    obtain ⟨z₂, hz₂, h₂⟩ := Checked.bind_ok h₂
    exact foldlM_availableStep_le hL₁ hL ps (availableStep_le hL₁ hL hx hz₁ hz₂) h₁ h₂

/-- The available margin never falls as the leverage rises, wherever it is answered at both
leverages, whatever the order in which the open positions are summed: the query sums them by
security id (`availableMargin_eq_availableMarginOver`), a map may hand them out in any other
order, and the statement holds over every list of positions. -/
theorem availableMargin_monotone_in_leverage {marks : List (SecurityId × Decimal)}
    (ps : List Position) {L₁ L₂ v₁ v₂ : Decimal} (hL : L₁ ≤ L₂)
    (h₁ : (a.availableMarginOver ps marks L₁).run = .ok (.ok v₁))
    (h₂ : (a.availableMarginOver ps marks L₂).run = .ok (.ok v₂)) : v₁ ≤ v₂ := by
  simp only [availableMarginOver] at h₁ h₂
  split at h₁
  · cases h₁
  rename_i hL₁
  split at h₂
  · cases h₂
  obtain ⟨y₁, hy₁, h₁⟩ := Checked.bind_ok h₁
  obtain ⟨y₂, hy₂, h₂⟩ := Checked.bind_ok h₂
  cases h₁
  cases h₂
  have hpos : 0 < L₁.val := by
    rw [le_iff_val_le, val_zero] at hL₁
    exact lt_of_not_ge hL₁
  rw [le_iff_val_le, val_maxOf_zero, val_maxOf_zero]
  exact max_le_max (foldlM_availableStep_le hpos ((le_iff_val_le _ _).mp hL) _ le_rfl hy₁ hy₂) le_rfl

theorem openPositions_of_pairwise
    (h : (a.positions.values.filter (!·.isFlat)).Pairwise
      fun x y => decide (x.securityId ≤ y.securityId)) :
    a.openPositions = a.positions.values.filter (!·.isFlat) :=
  List.mergeSort_of_pairwise h

/-- The funded long position at a mark of 100, with one coin of margin less a commission of
0.00001: 0.89999 is available at leverage 1 and 0.94999 at leverage 2. -/
theorem long_perpetual_margin_grows_with_leverage :
    ∃ a, Sample.session longTenLots = some a ∧
      Decimal.ofParts false 1 0 ≤ Decimal.ofParts false 2 0 ∧
      (a.availableMarginOver a.openPositions [(1, Decimal.ofParts false 100 0)]
        (Decimal.ofParts false 1 0)).run = .ok (.ok (Decimal.ofParts false 89999 5)) ∧
      (a.availableMarginOver a.openPositions [(1, Decimal.ofParts false 100 0)]
        (Decimal.ofParts false 2 0)).run = .ok (.ok (Decimal.ofParts false 94999 5)) ∧
      Decimal.ofParts false 89999 5 ≤ Decimal.ofParts false 94999 5 := by
  have hopen := openPositions_of_pairwise (a := longTenAccount) (by decide)
  have h₁ : (longTenAccount.availableMarginOver longTenAccount.openPositions
      [(1, Decimal.ofParts false 100 0)] (Decimal.ofParts false 1 0)).run =
        .ok (.ok (Decimal.ofParts false 89999 5)) := by
    rw [hopen]
    rfl
  have h₂ : (longTenAccount.availableMarginOver longTenAccount.openPositions
      [(1, Decimal.ofParts false 100 0)] (Decimal.ofParts false 2 0)).run =
        .ok (.ok (Decimal.ofParts false 94999 5)) := by
    rw [hopen]
    rfl
  exact ⟨_, session_longTenLots, by decide, h₁, h₂,
    availableMargin_monotone_in_leverage _ (by decide) h₁ h₂⟩

end Account

end TradeLedger
