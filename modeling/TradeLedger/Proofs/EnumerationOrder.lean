import TradeLedger.Proofs.RiskMonotone

/-!
# Risk queries and the order of the open positions

The leverage and the available margin are folds over the open positions, which the account takes
in order of their security id. A map with another iteration order takes them in another order;
`Account.leverageOver` and `Account.availableMarginOver` run the same folds over any enumeration.
What the order changes:

* The leverage sums whole raw units, each sum checked, and takes one ratio at the end. Every
  enumeration that answers a value answers the same one (`Account.leverageOver_perm`). Which error
  an enumeration meets first is another matter: a partial sum can overflow in one order and not in
  another (`Account.crowded_leverage_depends_on_order`).
* The available margin adds decimals, and decimal sums round. Where the sums are exact (every
  amount on one grid of `10 ^ -s` and all of them together within the 96-bit mantissa on it,
  `Account.ExactAt`), every enumeration that answers a value answers the margin plus each position's
  unrealized profit less what it ties up (`Account.availableMarginOver_exact`), so the same number;
  its scale may still differ, since a sum that meets a zero keeps the other operand's scale. At
  leverage one on a margin grid of `10 ^ s` units the sums are always exact, for any account with
  fewer than `2 ^ 32` open positions (`Account.exactAt_one`).
-/

namespace TradeLedger

open Decimal

namespace Decimal

/-! ## Exact decimal sums -/

def OnGrid (s : Nat) (x : ℚ) : Prop := ∃ n : ℤ, x = n / pow10 s

theorem OnGrid.add {s : Nat} {x y : ℚ} (hx : OnGrid s x) (hy : OnGrid s y) : OnGrid s (x + y) := by
  obtain ⟨m, rfl⟩ := hx
  obtain ⟨n, rfl⟩ := hy
  exact ⟨m + n, by push_cast; ring⟩

theorem OnGrid.sub {s : Nat} {x y : ℚ} (hx : OnGrid s x) (hy : OnGrid s y) : OnGrid s (x - y) := by
  obtain ⟨m, rfl⟩ := hx
  obtain ⟨n, rfl⟩ := hy
  exact ⟨m - n, by push_cast; ring⟩

theorem OnGrid.abs {s : Nat} {x : ℚ} (hx : OnGrid s x) : OnGrid s |x| := by
  obtain ⟨n, rfl⟩ := hx
  exact ⟨|n|, by rw [abs_div, abs_of_pos (pow10_pos_rat s), Int.cast_abs]⟩

theorem val_abs (d : Decimal) : d.abs.val = |d.val| := by
  have hm : (0 : ℚ) ≤ d.mantissa / pow10 d.scale :=
    div_nonneg (Nat.cast_nonneg _) (pow10_pos_rat _).le
  rw [val_eq, val_eq d]
  simp only [abs_mantissa, abs_scale, show d.abs.negative = false from rfl, Bool.false_eq_true,
    if_false, one_mul]
  cases d.negative <;> simp [abs_of_nonneg hm]

theorem fits_of_le {s : Nat} {w W : ℚ} (hw : w ≤ W) (hfit : W * pow10 s < bound) :
    w * pow10 s < bound :=
  lt_of_le_of_lt (mul_le_mul_of_nonneg_right hw (pow10_pos_rat s).le) hfit

theorem abs_roundEven_le {y : ℚ} {n : ℤ} (h : |y| ≤ n) : |roundEven y| ≤ n := by
  obtain ⟨hlo, hhi⟩ := abs_le.mp h
  have hlo' := roundEven_mono hlo
  have hhi' := roundEven_mono hhi
  rw [roundEven_neg, roundEven_intCast] at hlo'
  rw [roundEven_intCast] at hhi'
  exact abs_le.mpr ⟨hlo', hhi'⟩

theorem RoundsTo.eq_of_onGrid {x v : ℚ} {s : Nat} (h : RoundsTo x v) (hs : s ≤ 28)
    (hx : OnGrid s x) (hfit : |x| * pow10 s < bound) : v = x := by
  obtain ⟨n, rfl⟩ := hx
  obtain ⟨g, -, hv, -, hfin⟩ := h
  by_cases hsg : s ≤ g
  · rw [hv]
    exact (eq_roundEven_of_exact rfl hsg).symm
  rcases hfin with rfl | hvx | hover
  · omega
  · exact hvx
  · have hk : g + 1 ≤ s := by omega
    have hpos := pow10_pos_rat (s - (g + 1))
    have hy : |(n : ℚ) / pow10 s * pow10 (g + 1)| ≤ ((|n| : ℤ) : ℚ) := by
      have := (pow10_pos_rat (g + 1)).ne'
      rw [pow10_split_rat hk, Int.cast_abs,
        show (n : ℚ) / (pow10 (g + 1) * pow10 (s - (g + 1))) * pow10 (g + 1) =
          n / pow10 (s - (g + 1)) by field_simp, abs_div, abs_of_pos hpos]
      exact div_le_self (abs_nonneg _) (by exact_mod_cast pow10_pos _)
    have hn : |n| < (bound : ℤ) := by
      have hs' := (pow10_pos_rat s).ne'
      rw [abs_div, abs_of_pos (pow10_pos_rat s), div_mul_cancel₀ _ hs'] at hfit
      exact_mod_cast hfit
    exact absurd (lt_of_le_of_lt (hover.trans (abs_roundEven_le hy)) hn) (lt_irrefl _)

end Decimal

namespace Precision

theorem val_fromRaw_of_pow10 (p : Precision) {s : Nat} (hp : p.scale = pow10 s) (hs : s ≤ 28)
    (x : Int64) : (p.fromRaw x).val = x.toInt / pow10 s := by
  have h := p.fromRaw_roundsTo x
  rw [hp] at h
  refine h.eq_of_onGrid hs ⟨x.toInt, rfl⟩ ?_
  rw [abs_div, abs_of_pos (pow10_pos_rat s), div_mul_cancel₀ _ (pow10_pos_rat s).ne',
    ← Int.cast_abs, Int.abs_eq_natAbs]
  exact_mod_cast natAbs_toInt_lt_bound x

theorem fromRaw_onGrid (p : Precision) {s : Nat} (hp : p.scale = pow10 s) (hs : s ≤ 28)
    (x : Int64) : OnGrid s (p.fromRaw x).val :=
  ⟨x.toInt, p.val_fromRaw_of_pow10 hp hs x⟩

theorem abs_val_fromRaw_le (p : Precision) {s : Nat} (hp : p.scale = pow10 s) (hs : s ≤ 28)
    (x : Int64) : |(p.fromRaw x).val| ≤ 2 ^ 63 / pow10 s := by
  rw [p.val_fromRaw_of_pow10 hp hs x, abs_div, abs_of_pos (pow10_pos_rat s)]
  refine div_le_div_of_nonneg_right ?_ (pow10_pos_rat s).le
  have hlo := Int64.le_toInt x
  have hhi := Int64.toInt_lt x
  rw [← Int.cast_abs]
  exact_mod_cast (abs_le.mpr ⟨by omega, by omega⟩ : |x.toInt| ≤ 2 ^ 63)

end Precision

namespace Account

variable {a : Account} {marks : List (SecurityId × Decimal)}

/-- The valuation of a position at its mark, where the marks hold one for it and it is answered. -/
def markedValuation? (a : Account) (marks : List (SecurityId × Decimal)) (p : Position) :
    Option Valuation :=
  (markOf? marks p.securityId).bind fun mark =>
    (a.valuation p mark).run.toOption.bind Except.toOption

theorem markedValuation?_of_ok {p : Position} {mark : Decimal} {v : Valuation}
    (hm : markOf? marks p.securityId = some mark) (hv : (a.valuation p mark).run = .ok (.ok v)) :
    a.markedValuation? marks p = some v := by
  simp [markedValuation?, hm, hv, Except.toOption]

/-! ## The leverage: exact sums of raw units -/

def markedExposure (a : Account) (marks : List (SecurityId × Decimal)) (p : Position) : ℤ :=
  ((a.markedValuation? marks p).map (·.exposure.toInt)).getD 0

def markedUnrealized (a : Account) (marks : List (SecurityId × Decimal)) (p : Position) : ℤ :=
  ((a.markedValuation? marks p).map (·.unrealized.toInt)).getD 0

theorem leverageStep_ok {e q : Int64} {s : Int64 × Int64} {p : Position}
    (h : (a.leverageStep marks (e, q) p).run = .ok (.ok s)) :
    s.1.toInt = e.toInt + a.markedExposure marks p ∧
      s.2.toInt = q.toInt + a.markedUnrealized marks p := by
  obtain ⟨mark, hmark, h⟩ := Checked.orError_bind_ok h
  obtain ⟨v, hv, h⟩ := Checked.bind_ok h
  obtain ⟨e', he', h⟩ := Checked.orError_bind_ok h
  obtain ⟨q', hq', h⟩ := Checked.orError_bind_ok h
  cases h
  have hval := markedValuation?_of_ok hmark hv
  simp only [markedExposure, markedUnrealized, hval, Option.map_some, Option.getD_some]
  exact ⟨Word.toInt_of_ofInt? he', Word.toInt_of_ofInt? hq'⟩

/-- Over any enumeration that runs through, the two sums of the leverage are the seeds plus every
position's exposure and unrealized profit; induction on the enumeration with the step lemma. -/
theorem foldlM_leverageStep_ok :
    ∀ (ps : List Position) {s s' : Int64 × Int64},
      (ps.foldlM (a.leverageStep marks) s).run = .ok (.ok s') →
        s'.1.toInt = s.1.toInt + (ps.map (a.markedExposure marks)).sum ∧
          s'.2.toInt = s.2.toInt + (ps.map (a.markedUnrealized marks)).sum
  | [], _, _, h => by
    cases h
    simp
  | p :: ps, (e, q), _, h => by
    rw [List.foldlM_cons] at h
    obtain ⟨s₁, hs₁, h⟩ := Checked.bind_ok h
    obtain ⟨he, hq⟩ := leverageStep_ok hs₁
    obtain ⟨he', hq'⟩ := foldlM_leverageStep_ok ps h
    simp only [List.map_cons, List.sum_cons]
    constructor <;> omega

/-- Two enumerations of the same positions that both answer the leverage answer the same value:
their sums agree whatever the order, and the ratio is taken once, from the sums. -/
theorem leverageOver_perm {ps ps' : List Position} (hperm : ps.Perm ps') {x y : Decimal}
    (h : (a.leverageOver ps marks).run = .ok (.ok x))
    (h' : (a.leverageOver ps' marks).run = .ok (.ok y)) : x = y := by
  obtain ⟨s, hs, h⟩ := Checked.bind_ok h
  obtain ⟨s', hs', h'⟩ := Checked.bind_ok h'
  obtain ⟨he, hq⟩ := foldlM_leverageStep_ok ps hs
  obtain ⟨he', hq'⟩ := foldlM_leverageStep_ok ps' hs'
  have hsums : s = s' := Prod.ext
    (Int64.toInt_inj.mp (by rw [he, he', (hperm.map _).sum_eq]))
    (Int64.toInt_inj.mp (by rw [hq, hq', (hperm.map _).sum_eq]))
  subst hsums
  rw [h] at h'
  cases h'
  rfl

/-! ## The available margin: exact decimal sums -/

/-- A position's unrealized profit on the margin grid and the margin it ties up at `leverage`, as
numbers, where both are answered. -/
def availableTerms? (a : Account) (marks : List (SecurityId × Decimal)) (leverage : Decimal)
    (p : Position) : Option (ℚ × ℚ) := do
  let v ← a.markedValuation? marks p
  let locked ← Margin.leveragedCost? p leverage a.marginGrid
  pure ((a.marginGrid.fromRaw v.unrealized).val, locked.val)

/-- What a position adds to the available margin: its unrealized profit less what it ties up. -/
def availableNet (a : Account) (marks : List (SecurityId × Decimal)) (leverage : Decimal)
    (p : Position) : ℚ :=
  ((a.availableTerms? marks leverage p).map fun t => t.1 - t.2).getD 0

/-- The room a position's step needs: its unrealized profit and what it ties up, in absolute
value. -/
def availableWeight (a : Account) (marks : List (SecurityId × Decimal)) (leverage : Decimal)
    (p : Position) : ℚ :=
  ((a.availableTerms? marks leverage p).map fun t => |t.1| + |t.2|).getD 0

theorem availableWeight_nonneg (leverage : Decimal) (p : Position) :
    0 ≤ a.availableWeight marks leverage p := by
  unfold availableWeight
  cases a.availableTerms? marks leverage p with
  | none => simp
  | some t => simpa using add_nonneg (abs_nonneg t.1) (abs_nonneg t.2)

theorem abs_availableNet_le (leverage : Decimal) (p : Position) :
    |a.availableNet marks leverage p| ≤ a.availableWeight marks leverage p := by
  unfold availableNet availableWeight
  cases a.availableTerms? marks leverage p with
  | none => simp
  | some t => simpa using abs_sub t.1 t.2

/-- The sums of the available margin over `ps` are exact at place `s`: the margin and each
position's unrealized profit and tied-up margin are whole units of place `s`, and the margin with
all of them in absolute value stays below `2 ^ 96` units of it. -/
structure ExactAt (a : Account) (marks : List (SecurityId × Decimal)) (leverage : Decimal)
    (ps : List Position) (s : Nat) : Prop where
  scale_le : s ≤ 28
  margin_onGrid : OnGrid s a.marginValue.val
  terms_onGrid : ∀ p ∈ ps, ∀ u l, a.availableTerms? marks leverage p = some (u, l) →
    OnGrid s u ∧ OnGrid s l
  fits : (|a.marginValue.val| + (ps.map (a.availableWeight marks leverage)).sum) * pow10 s < bound

theorem ExactAt.perm {leverage : Decimal} {ps ps' : List Position} {s : Nat}
    (hex : a.ExactAt marks leverage ps s) (hperm : ps.Perm ps') : a.ExactAt marks leverage ps' s :=
  ⟨hex.scale_le, hex.margin_onGrid, fun p hp => hex.terms_onGrid p (hperm.mem_iff.mpr hp),
    by rw [← (hperm.map _).sum_eq]; exact hex.fits⟩

/-- A step of the available margin from a running sum on the grid adds the position's net
exactly, where the running sum and the position's two amounts fit together. -/
theorem availableStep_exact {leverage x y : Decimal} {p : Position} {s : Nat} (hs : s ≤ 28)
    (hx : OnGrid s x.val)
    (hterms : ∀ u l, a.availableTerms? marks leverage p = some (u, l) → OnGrid s u ∧ OnGrid s l)
    (hfit : (|x.val| + a.availableWeight marks leverage p) * pow10 s < bound)
    (h : (a.availableStep marks leverage x p).run = .ok (.ok y)) :
    y.val = x.val + a.availableNet marks leverage p ∧ OnGrid s y.val := by
  obtain ⟨mark, v, l, z, hmark, hv, hl, hz, hy⟩ := availableStep_ok h
  have hterm : a.availableTerms? marks leverage p =
      some ((a.marginGrid.fromRaw v.unrealized).val, l.val) := by
    simp [availableTerms?, markedValuation?_of_ok hmark hv, hl]
  obtain ⟨hu, hl'⟩ := hterms _ _ hterm
  have hw : a.availableWeight marks leverage p =
      |(a.marginGrid.fromRaw v.unrealized).val| + |l.val| := by
    simp [availableWeight, hterm]
  rw [hw] at hfit
  rw [show a.availableNet marks leverage p = (a.marginGrid.fromRaw v.unrealized).val - l.val by
    simp [availableNet, hterm]]
  set u := (a.marginGrid.fromRaw v.unrealized).val
  have hz' : z.val = x.val + u := (add?_roundsTo hz).eq_of_onGrid hs (hx.add hu)
    (fits_of_le (by linarith [abs_add_le x.val u, abs_nonneg l.val]) hfit)
  have hgrid : OnGrid s (z.val - l.val) := hz' ▸ (hx.add hu).sub hl'
  have hy' : y.val = z.val - l.val := (sub?_roundsTo hy).eq_of_onGrid hs hgrid
    (fits_of_le (by rw [hz']; linarith [abs_sub (x.val + u) l.val, abs_add_le x.val u]) hfit)
  exact ⟨by rw [hy', hz']; ring, hy' ▸ hgrid⟩

/-- Over any enumeration that runs through from a running sum on the grid, the available margin
before its floor is the running sum plus every position's net, where all of it fits; induction on
the enumeration, the weight of the positions still to come bounding each step. -/
theorem foldlM_availableStep_exact {leverage : Decimal} {s : Nat} (hs : s ≤ 28) :
    ∀ (ps : List Position) {x y : Decimal}, OnGrid s x.val →
      (∀ p ∈ ps, ∀ u l, a.availableTerms? marks leverage p = some (u, l) →
        OnGrid s u ∧ OnGrid s l) →
      (|x.val| + (ps.map (a.availableWeight marks leverage)).sum) * pow10 s < bound →
      (ps.foldlM (a.availableStep marks leverage) x).run = .ok (.ok y) →
        y.val = x.val + (ps.map (a.availableNet marks leverage)).sum
  | [], _, _, _, _, _, h => by
    cases h
    simp
  | p :: ps, x, y, hx, hterms, hfit, h => by
    rw [List.foldlM_cons] at h
    obtain ⟨z, hz, h⟩ := Checked.bind_ok h
    rw [List.map_cons, List.sum_cons] at hfit
    have hrest : 0 ≤ (ps.map (a.availableWeight marks leverage)).sum :=
      List.sum_nonneg (by simp [availableWeight_nonneg])
    obtain ⟨hzval, hzgrid⟩ := availableStep_exact hs hx (hterms p List.mem_cons_self)
      (fits_of_le (by linarith) hfit) hz
    have hnet : |a.availableNet marks leverage p| ≤ a.availableWeight marks leverage p :=
      abs_availableNet_le leverage p
    have hzabs : |z.val| ≤ |x.val| + a.availableWeight marks leverage p := by
      rw [hzval]
      linarith [abs_add_le x.val (a.availableNet marks leverage p)]
    rw [foldlM_availableStep_exact hs ps hzgrid (fun q hq => hterms q (List.mem_cons_of_mem p hq))
      (fits_of_le (by linarith) hfit) h, hzval, List.map_cons, List.sum_cons]
    ring

/-- Where the sums are exact, the available margin over any enumeration that answers it is the
margin plus every position's net, floored at zero. -/
theorem availableMarginOver_exact {leverage x : Decimal} {ps : List Position} {s : Nat}
    (hex : a.ExactAt marks leverage ps s)
    (h : (a.availableMarginOver ps marks leverage).run = .ok (.ok x)) :
    x.val = max (a.marginValue.val + (ps.map (a.availableNet marks leverage)).sum) 0 := by
  simp only [availableMarginOver] at h
  split at h
  · cases h
  obtain ⟨y, hy, h⟩ := Checked.bind_ok h
  cases h
  rw [val_maxOf_zero, foldlM_availableStep_exact hex.scale_le ps hex.margin_onGrid hex.terms_onGrid
    hex.fits hy]

/-! ## Enumerations of the open positions -/

/-- The risk queries over two enumerations of the open positions. Every enumeration that answers
the leverage answers the same value; where the sums of the available margin are exact at some
place, every enumeration that answers it answers the same number. -/
theorem risk_values_independent_of_order {ps ps' : List Position}
    (hps : ps.Perm a.openPositions) (hps' : ps'.Perm a.openPositions) :
    (∀ x y, (a.leverageOver ps marks).run = .ok (.ok x) →
      (a.leverageOver ps' marks).run = .ok (.ok y) → x = y) ∧
    (∀ leverage s x y, a.ExactAt marks leverage a.openPositions s →
      (a.availableMarginOver ps marks leverage).run = .ok (.ok x) →
      (a.availableMarginOver ps' marks leverage).run = .ok (.ok y) → x.val = y.val) := by
  refine ⟨fun x y h h' => leverageOver_perm (hps.trans hps'.symm) h h', ?_⟩
  intro leverage s x y hex h h'
  rw [availableMarginOver_exact (hex.perm hps.symm) h,
    availableMarginOver_exact (hex.perm hps'.symm) h', ((hps.trans hps'.symm).map _).sum_eq]

/-! ## Leverage one on a decimal margin grid -/

theorem availableTerms?_eq_some {leverage : Decimal} {p : Position} {u l : ℚ}
    (h : a.availableTerms? marks leverage p = some (u, l)) :
    ∃ v locked, a.markedValuation? marks p = some v ∧
      Margin.leveragedCost? p leverage a.marginGrid = some locked ∧
      u = (a.marginGrid.fromRaw v.unrealized).val ∧ l = locked.val := by
  simp only [availableTerms?, bind, Option.bind_eq_some_iff, pure, Option.some.injEq,
    Prod.mk.injEq] at h
  obtain ⟨v, hv, locked, hl, rfl, rfl⟩ := h
  exact ⟨v, locked, hv, hl, rfl, rfl⟩

theorem leveragedCost?_one {p : Position} {g : Precision} {l : Decimal} {s : Nat}
    (hg : g.scale = pow10 s) (hs : s ≤ 28) (h : Margin.leveragedCost? p Decimal.one g = some l) :
    l.val = |(g.fromRaw p.cost).val| := by
  unfold Margin.leveragedCost? at h
  split at h
  · cases h
  have hr := div?_roundsTo h
  rw [val_one, div_one, val_abs] at hr
  refine hr.eq_of_onGrid hs (g.fromRaw_onGrid hg hs _).abs (fits_of_le (W := 2 ^ 63 / pow10 s) ?_ ?_)
  · rw [abs_abs]
    exact g.abs_val_fromRaw_le hg hs _
  · rw [div_mul_cancel₀ _ (pow10_pos_rat s).ne']
    norm_num [bound]

theorem availableWeight_one_le {s : Nat} (hg : a.marginGrid.scale = pow10 s) (hs : s ≤ 28)
    (p : Position) : a.availableWeight marks Decimal.one p ≤ 2 * (2 ^ 63 / pow10 s) := by
  have hpos := pow10_pos_rat s
  unfold availableWeight
  cases ht : a.availableTerms? marks Decimal.one p with
  | none =>
    simp only [Option.map_none, Option.getD_none]
    positivity
  | some t =>
    obtain ⟨u, l⟩ := t
    obtain ⟨v, locked, -, hl, rfl, rfl⟩ := availableTerms?_eq_some ht
    simp only [Option.map_some, Option.getD_some]
    rw [leveragedCost?_one hg hs hl, abs_abs]
    linarith [a.marginGrid.abs_val_fromRaw_le hg hs v.unrealized,
      a.marginGrid.abs_val_fromRaw_le hg hs p.cost]

/-- On a margin grid of `10 ^ s` units, `s ≤ 28`, the sums of the available margin at leverage
one over fewer than `2 ^ 32` positions are exact: every amount is a whole number of raw units
below `2 ^ 63` of them, so all of them together stay below `2 ^ 96`. -/
theorem exactAt_one {s : Nat} (hg : a.marginGrid.scale = pow10 s) (hs : s ≤ 28)
    {ps : List Position} (hlen : ps.length < 2 ^ 32) : a.ExactAt marks Decimal.one ps s where
  scale_le := hs
  margin_onGrid := a.marginGrid.fromRaw_onGrid hg hs a.margin
  terms_onGrid := fun p _ u l h => by
    obtain ⟨v, locked, -, hl, rfl, rfl⟩ := availableTerms?_eq_some h
    rw [leveragedCost?_one hg hs hl]
    exact ⟨a.marginGrid.fromRaw_onGrid hg hs _, (a.marginGrid.fromRaw_onGrid hg hs _).abs⟩
  fits := by
    have hpos := pow10_pos_rat s
    have hm : |a.marginValue.val| ≤ 2 ^ 63 / pow10 s :=
      a.marginGrid.abs_val_fromRaw_le hg hs a.margin
    have hsum : (ps.map (a.availableWeight marks Decimal.one)).sum ≤
        ps.length * (2 * (2 ^ 63 / pow10 s)) := by
      simpa using List.sum_le_card_nsmul (ps.map (a.availableWeight marks Decimal.one)) _
        (by simpa using fun p _ => availableWeight_one_le hg hs p)
    have hlen' : (ps.length : ℚ) ≤ 2 ^ 32 - 1 := by
      have : ((ps.length + 1 : ℕ) : ℚ) ≤ 2 ^ 32 := by exact_mod_cast hlen
      push_cast at this
      linarith
    calc (|a.marginValue.val| + (ps.map (a.availableWeight marks Decimal.one)).sum) * pow10 s
        ≤ (2 ^ 63 / pow10 s + (2 ^ 32 - 1) * (2 * (2 ^ 63 / pow10 s))) * pow10 s := by
          gcongr
          linarith [mul_le_mul_of_nonneg_right hlen'
            (by positivity : (0 : ℚ) ≤ 2 * (2 ^ 63 / pow10 s))]
      _ = 2 ^ 63 + (2 ^ 32 - 1) * 2 ^ 64 := by field_simp
      _ < bound := by norm_num [bound]

theorem availableMarginOver_one_perm {s : Nat} (hg : a.marginGrid.scale = pow10 s) (hs : s ≤ 28)
    {ps ps' : List Position} (hperm : ps.Perm ps') (hlen : ps.length < 2 ^ 32) {x y : Decimal}
    (h : (a.availableMarginOver ps marks Decimal.one).run = .ok (.ok x))
    (h' : (a.availableMarginOver ps' marks Decimal.one).run = .ok (.ok y)) : x.val = y.val := by
  have hex : a.ExactAt marks Decimal.one ps s := exactAt_one hg hs hlen
  rw [availableMarginOver_exact hex h, availableMarginOver_exact (hex.perm hperm) h',
    (hperm.map _).sum_eq]

/-! ## Fifteen perpetuals near the top of the raw range -/

def perpetualAt (sid : SecurityId) : Security := { Security.btcusdPerp with securityId := sid }

def longLot (sid : SecurityId) (cost : Decimal) : VenuePosition :=
  ⟨⟨"binance", "main"⟩, sid, Decimal.one, cost, false⟩

def crowdedSync : Command :=
  .sync ⟨(List.range 15).map (fun i => perpetualAt (i + 1)), [],
    (List.range 12).map (fun i => longLot (i + 1) (Decimal.ofParts true 999 5)) ++
      [13, 14, 15].map (fun sid => longLot sid (Decimal.ofParts true 1000004 8)),
    [⟨⟨"binance", "main"⟩, "BTC", Decimal.ofParts false 9223372036854775797 8⟩], none, none⟩

def crowdedAccount : Account := (Sample.session [crowdedSync]).get rfl

theorem session_crowdedSync : Sample.session [crowdedSync] = some crowdedAccount := rfl

def marksAt100 : List (SecurityId × Decimal) :=
  (List.range 15).map fun i => (i + 1, Decimal.ofParts false 100 0)

theorem crowdedAccount_openPositions :
    crowdedAccount.openPositions = crowdedAccount.positions.values.filter (!·.isFlat) :=
  openPositions_of_pairwise (by decide)

/-- Taken by security id, the losses come first and the equity stays in range: the leverage is
answered. Taken the other way round, the three gains come first and the equity overflows. -/
theorem crowded_leverage_depends_on_order :
    Sample.session [crowdedSync] = some crowdedAccount ∧
      crowdedAccount.openPositions.reverse.Perm crowdedAccount.openPositions ∧
      crowdedAccount.query (.leverage marksAt100) =
        .ok (.value (Decimal.ofParts false 16263032587282588 28)) ∧
      (crowdedAccount.leverageOver crowdedAccount.openPositions.reverse marksAt100).run =
        .ok (.error .overflow) := by
  refine ⟨session_crowdedSync, List.reverse_perm _, ?_, ?_⟩
  · rw [query, leverage_eq_leverageOver, crowdedAccount_openPositions]
    rfl
  · rw [crowdedAccount_openPositions]
    rfl

set_option maxRecDepth 8000 in
/-- Rotated by five, the enumeration meets losses before the gains and answers the leverage, and
at leverage one the available margin, where the sums are exact; any value the account's own
queries answer is the same. -/
theorem crowded_rotation_keeps_risk_values :
    (crowdedAccount.openPositions.rotate 5).Perm crowdedAccount.openPositions ∧
      (crowdedAccount.leverageOver (crowdedAccount.openPositions.rotate 5) marksAt100).run =
        .ok (.ok (Decimal.ofParts false 16263032587282588 28)) ∧
      (∀ y, crowdedAccount.query (.leverage marksAt100) = .ok (.value y) →
        y = Decimal.ofParts false 16263032587282588 28) ∧
      crowdedAccount.ExactAt marksAt100 Decimal.one crowdedAccount.openPositions 8 ∧
      (crowdedAccount.availableMarginOver (crowdedAccount.openPositions.rotate 5) marksAt100
        Decimal.one).run = .ok (.ok (Decimal.ofParts false 9223372036839775797 8)) ∧
      (∀ y, crowdedAccount.query (.availableMargin marksAt100 Decimal.one) = .ok (.value y) →
        y.val = (Decimal.ofParts false 9223372036839775797 8).val) := by
  have hperm := List.rotate_perm crowdedAccount.openPositions 5
  have hlev : (crowdedAccount.leverageOver (crowdedAccount.openPositions.rotate 5) marksAt100).run =
      .ok (.ok (Decimal.ofParts false 16263032587282588 28)) := by
    rw [crowdedAccount_openPositions]
    rfl
  have havail : (crowdedAccount.availableMarginOver (crowdedAccount.openPositions.rotate 5)
      marksAt100 Decimal.one).run = .ok (.ok (Decimal.ofParts false 9223372036839775797 8)) := by
    rw [crowdedAccount_openPositions]
    rfl
  have hex : crowdedAccount.ExactAt marksAt100 Decimal.one crowdedAccount.openPositions 8 :=
    exactAt_one rfl (by decide) (by rw [crowdedAccount_openPositions]; decide)
  exact ⟨hperm, hlev,
    fun y hy => (risk_values_independent_of_order (List.Perm.refl _) hperm).1 _ _
      (answerChecked_value hy) hlev,
    hex, havail,
    fun y hy => (risk_values_independent_of_order (List.Perm.refl _) hperm).2 _ _ _ _ hex
      (answerChecked_value hy) havail⟩

end Account

end TradeLedger
