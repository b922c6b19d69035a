import TradeLedger.Proofs.FillShapes

/-!
# What a fill realizes against what it was worth

The unrealized profit of a position at a price is its margin value there less its cost. A fill
at that price realizes some profit and changes the unrealized profit; the drift of the fill is
the realized profit plus the unrealized profit after, less the unrealized profit before. It is
what realizing created or destroyed.

A fill that opens from flat, closes the whole position or flips it drifts by nothing: the
closing quotients are exact and what is opened is worth its cost (`applyFill_drift_exact`). A fill
that adds to the position drifts by how far the margin value is from additive, and one that
closes part of it by that and the truncation of the closed slice; both stay within two raw
units whenever the margin value is within one raw unit of a linear rate (`applyFill_drift_near`).
Closing a position in `k` fills at one price then realizes within `2 * (k - 1)` raw units of
the mark value less the cost, which is what one closing fill realizes (`FillRun.closes`).

Where the decimal products lose digits past the 28th place, the margin value is far from linear
and a fill can drift further (`tiny_lots_drift_ten`).
-/

namespace TradeLedger

/-- The margin value at `price` is within one raw unit of the size times the rate `k`, wherever
it fits a word. -/
def ContractTerms.NearLinear (t : ContractTerms) (price : Decimal) (k : ℚ) : Prop :=
  ∀ x v, t.marginValue? x price = some v → |(v.toInt : ℚ) - x.toInt * k| < 1

theorem ContractTerms.RoundsLinearly.nearLinear {t : ContractTerms} {price : Decimal} {k : ℚ}
    (h : t.RoundsLinearly price k) : t.NearLinear price k :=
  fun x v hv => lt_of_le_of_lt (h x v hv) (by norm_num)

/-- The unrealized profit of a position at the settlement price `sp`, raw units: its margin value
less its cost. -/
def Position.unrealizedAt? (t : ContractTerms) (sp : Decimal) (p : Position) : Option Int :=
  (t.marginValue? p.rawSize sp).map fun v => v.toInt - p.cost.toInt

theorem Position.unrealizedAt?_eq_some {t : ContractTerms} {sp : Decimal} {p : Position} {U : Int}
    (h : p.unrealizedAt? t sp = some U) :
    ∃ M : Int64, t.marginValue? p.rawSize sp = some M ∧ U = M.toInt - p.cost.toInt := by
  obtain ⟨M, hM, rfl⟩ := Option.map_eq_some_iff.mp h
  exact ⟨M, hM, rfl⟩

theorem Int.abs_le_two_of_lt_three {x : Int} (h : |(x : ℚ)| < 3) : |x| ≤ 2 := by
  have h' : |x| < 3 := by exact_mod_cast h
  omega

/-! ## The drift of one fill -/

theorem Word.closed_share (w : Int64) {c : Int} (hc : 0 < c) (hcw : c < w.toInt.natAbs) :
    0 < ((c * Word.signum w : Int) : ℚ) / w.toInt ∧ ((c * Word.signum w : Int) : ℚ) / w.toInt < 1 := by
  unfold Word.signum
  split_ifs with hneg hzero
  · have hw : (w.toInt : ℚ) < 0 := by exact_mod_cast hneg
    push_cast
    refine ⟨div_pos_of_neg_of_neg (by linarith [(by exact_mod_cast hc : (0 : ℚ) < c)]) hw,
      (div_lt_one_of_neg hw).mpr ?_⟩
    have : (c : ℚ) < -(w.toInt : ℚ) := by exact_mod_cast (by omega : c < -w.toInt)
    linarith
  · omega
  · have hw : (0 : ℚ) < w.toInt := by exact_mod_cast (by omega : (0 : Int) < w.toInt)
    push_cast
    refine ⟨div_pos (by simpa using hc) hw, (div_lt_one hw).mpr ?_⟩
    simpa using (by exact_mod_cast (by omega : c < w.toInt) : (c : ℚ) < w.toInt)

theorem abs_part_drift_lt (w : Int64) {c M M' : Int} {k : ℚ} (hw : w.toInt ≠ 0) (hc : 0 < c)
    (hcw : c < w.toInt.natAbs) (hM : |(M : ℚ) - w.toInt * k| < 1)
    (hM' : |(M' : ℚ) - ((w.toInt - c * Word.signum w : Int) : ℚ) * k| < 1) :
    |((M' + (c * Word.signum w * M).tdiv w.toInt - M : Int) : ℚ)| < 3 := by
  have hwq : (w.toInt : ℚ) ≠ 0 := by exact_mod_cast hw
  obtain ⟨q, hq⟩ : ∃ q : ℚ, q = ((c * Word.signum w : Int) : ℚ) / w.toInt := ⟨_, rfl⟩
  obtain ⟨hq0, hq1⟩ := Word.closed_share w hc hcw
  rw [← hq] at hq0 hq1
  have hqw : q * w.toInt = (c : ℚ) * (Word.signum w : ℚ) := by
    rw [hq, div_mul_cancel₀ _ hwq]
    push_cast
    ring
  have hround := abs_tdiv_sub_div_lt (c * Word.signum w * M) w.toInt hw
  have hkept : |(1 - q) * ((M : ℚ) - w.toInt * k)| < 1 := by
    rw [abs_mul, abs_of_pos (by linarith)]
    calc (1 - q) * |(M : ℚ) - w.toInt * k| ≤ 1 * |(M : ℚ) - w.toInt * k| :=
          mul_le_mul_of_nonneg_right (by linarith) (abs_nonneg _)
      _ < 1 := by linarith
  have hslice : ((c * Word.signum w * M : Int) : ℚ) / w.toInt = q * M := by
    rw [hq]
    push_cast
    ring
  rw [hslice] at hround
  have hsplit : ((M' + (c * Word.signum w * M).tdiv w.toInt - M : Int) : ℚ) =
      ((M' : ℚ) - ((w.toInt - c * Word.signum w : Int) : ℚ) * k) +
        ((((c * Word.signum w * M).tdiv w.toInt : Int) : ℚ) - q * M) -
        (1 - q) * ((M : ℚ) - w.toInt * k) := by
    push_cast
    linear_combination k * hqw
  rw [hsplit]
  have h1 := abs_lt.mp hM'
  have h2 := abs_lt.mp hround
  have h3 := abs_lt.mp hkept
  exact abs_lt.mpr ⟨by linarith, by linarith⟩

section Drift

variable {p p' : Position} {side : Side} {n : Int64} {sp : Decimal} {t : ContractTerms}
  {u : FillUpdate} {U U' : Int}

/-- A fill that opens from flat, closes the whole position or flips it drifts by nothing. -/
theorem applyFill_drift_exact (hn : 0 < n.toInt)
    (h : (applyFill p side n sp t).run = .ok (.ok (p', u)))
    (hU : p.unrealizedAt? t sp = some U) (hU' : p'.unrealizedAt? t sp = some U')
    (hcase : p.rawSize.toInt = 0 ∨
      (p.rawSize.toInt * side.sign < 0 ∧ (p.rawSize.toInt.natAbs : Int) ≤ n.toInt)) :
    u.realizedPnl.toInt + U' - U = 0 := by
  obtain ⟨M, hM, rfl⟩ := Position.unrealizedAt?_eq_some hU
  obtain ⟨M', hM', rfl⟩ := Position.unrealizedAt?_eq_some hU'
  rcases hcase with hflat | ⟨hag, hle⟩
  · obtain ⟨hreal, hsize, m, hm, hcost⟩ := applyFill_along hn (by rw [hflat]; simp) h
    have hsize' : p'.rawSize = Int64.ofInt (side.sign * n.toInt) := by
      apply Int64.toInt_inj.mp
      rw [hsize, hflat, zero_add, Side.toInt_ofInt_sign_mul side hn (Int64.toInt_lt n)]
    have hzero : p.rawSize = 0 := Int64.toInt_inj.mp hflat
    rw [hsize', hm, Option.some.injEq] at hM'
    rw [hzero, t.marginValue?_zero sp, Option.some.injEq] at hM
    subst hM hM'
    rw [hreal, hcost]
    simp
  · obtain ⟨M₀, hM₀, hreal, -, hvalue⟩ := applyFill_whole hn hag hle h
    rw [hM₀, Option.some.injEq] at hM
    rw [hvalue, Option.some.injEq] at hM'
    subst hM hM'
    rw [hreal]
    ring

/-- Against a position larger than itself, a fill takes the slice of the mark value off the cost
and realizes its share of the unrealized profit. -/
theorem applyFill_part_slice (hn : 0 < n.toInt) (hag : p.rawSize.toInt * side.sign < 0)
    (hlt : n.toInt < p.rawSize.toInt.natAbs)
    (h : (applyFill p side n sp t).run = .ok (.ok (p', u))) :
    ∃ M : Int64, t.marginValue? p.rawSize sp = some M ∧
      p'.cost.toInt = p.cost.toInt -
        ((n.toInt * Word.signum p.rawSize * M.toInt).tdiv p.rawSize.toInt - u.realizedPnl.toInt) ∧
      p'.rawSize.toInt = p.rawSize.toInt - n.toInt * Word.signum p.rawSize := by
  obtain ⟨closed, cost₁, hclose, hopen⟩ := applyFill_ok hn h
  rcases hclose with ⟨-, -, rfl, M, hM, hcost₁, -⟩ | ⟨hnot, -⟩
  · have hmin : min n.toInt p.rawSize.toInt.natAbs = n.toInt := min_eq_left hlt.le
    rcases hopen with ⟨-, hcost, hsize⟩ | ⟨hr, -⟩
    · rw [hmin] at hcost₁ hsize
      exact ⟨M, hM, by rw [hcost, hcost₁], hsize⟩
    · omega
  · exact absurd ((Word.against_iff _ _).mpr hag) hnot

/-- A fill drifts by at most two raw units whenever the margin value at its price is within one
raw unit of a linear rate. -/
theorem applyFill_drift_near {k : ℚ} (hk : t.NearLinear sp k) (hn : 0 < n.toInt)
    (h : (applyFill p side n sp t).run = .ok (.ok (p', u)))
    (hU : p.unrealizedAt? t sp = some U) (hU' : p'.unrealizedAt? t sp = some U') :
    |u.realizedPnl.toInt + U' - U| ≤ 2 := by
  have hn' := Int64.toInt_lt n
  rcases lt_or_ge (p.rawSize.toInt * side.sign) 0 with hag | hw
  · rcases le_or_gt (p.rawSize.toInt.natAbs : Int) n.toInt with hle | hlt
    · rw [applyFill_drift_exact hn h hU hU' (.inr ⟨hag, hle⟩)]
      simp
    · obtain ⟨M, hM, rfl⟩ := Position.unrealizedAt?_eq_some hU
      obtain ⟨M', hM', rfl⟩ := Position.unrealizedAt?_eq_some hU'
      obtain ⟨M₀, hM₀, hcost, hsize⟩ := applyFill_part_slice hn hag hlt h
      rw [hM₀, Option.some.injEq] at hM
      subst hM
      have hs : p.rawSize.toInt ≠ 0 := fun h0 => by rw [h0] at hag; simp at hag
      have hnear' := hk _ _ hM'
      rw [hsize] at hnear'
      apply Int.abs_le_two_of_lt_three
      have hdrift : u.realizedPnl.toInt + (M'.toInt - p'.cost.toInt) - (M₀.toInt - p.cost.toInt) =
          M'.toInt + (n.toInt * Word.signum p.rawSize * M₀.toInt).tdiv p.rawSize.toInt - M₀.toInt := by
        rw [hcost]
        ring
      rw [hdrift]
      exact abs_part_drift_lt p.rawSize hs hn hlt (hk _ _ hM₀) (by exact_mod_cast hnear')
  · obtain ⟨M, hM, rfl⟩ := Position.unrealizedAt?_eq_some hU
    obtain ⟨M', hM', rfl⟩ := Position.unrealizedAt?_eq_some hU'
    obtain ⟨hreal, hsize, m, hm, hcost⟩ := applyFill_along hn hw h
    have h1 := abs_lt.mp (hk _ _ hM)
    have h2 := abs_lt.mp (hk _ _ hM')
    have h3 := abs_lt.mp (hk _ _ hm)
    rw [hsize] at h2
    rw [Side.toInt_ofInt_sign_mul side hn hn'] at h3
    apply Int.abs_le_two_of_lt_three
    rw [hreal, hcost]
    push_cast at h1 h2 h3 ⊢
    exact abs_lt.mpr ⟨by linarith, by linarith⟩

end Drift

/-! ## Closing in several fills -/

/-- Fills on one side at one settlement price, in order: from `p`, fills of the sizes `ns` leave
`p'` and realize `pnl` in all. -/
inductive FillRun (t : ContractTerms) (side : Side) (sp : Decimal) :
    Position → List Int64 → Position → Int → Prop
  | nil (p : Position) : FillRun t side sp p [] p 0
  | cons {p p₁ p' : Position} {n : Int64} {ns : List Int64} {u : FillUpdate} {pnl : Int} :
      0 < n.toInt → (applyFill p side n sp t).run = .ok (.ok (p₁, u)) →
      FillRun t side sp p₁ ns p' pnl →
      FillRun t side sp p (n :: ns) p' (u.realizedPnl.toInt + pnl)

namespace FillRun

variable {t : ContractTerms} {side : Side} {sp : Decimal} {p p' : Position} {ns : List Int64}
  {pnl : Int}

theorem rawSize (h : FillRun t side sp p ns p' pnl) :
    p'.rawSize.toInt = p.rawSize.toInt + side.sign * (ns.map Int64.toInt).sum ∧
      (ns ≠ [] → 0 < (ns.map Int64.toInt).sum) := by
  induction h with
  | nil => simp
  | @cons _ _ _ n ns _ _ hn happly _ ih =>
    obtain ⟨ih, ihpos⟩ := ih
    refine ⟨?_, fun _ => ?_⟩
    · rw [ih, applyFill_rawSize hn happly, List.map_cons, List.sum_cons]
      ring
    · rw [List.map_cons, List.sum_cons]
      by_cases hnil : ns = []
      · simp [hnil, hn]
      · linarith [ihpos hnil]

theorem against_of_flat (h : FillRun t side sp p ns p' pnl) (hns : ns ≠ [])
    (hflat : p'.rawSize.toInt = 0) : p.rawSize.toInt * side.sign < 0 := by
  obtain ⟨hsize, hpos⟩ := h.rawSize
  have hsum := hpos hns
  rw [hflat] at hsize
  cases side <;> simp only [Side.sign] at hsize ⊢ <;> omega

/-- Closing a position in a run of fills at one price realizes, within two raw units for each
fill but the last, its mark value less its cost, whenever the margin value at that price is
within one raw unit of a linear rate. -/
theorem closes {k : ℚ} (hk : t.NearLinear sp k) (h : FillRun t side sp p ns p' pnl)
    (hns : ns ≠ []) (hflat : p'.rawSize.toInt = 0) :
    ∃ M : Int64, t.marginValue? p.rawSize sp = some M ∧
      |pnl - (M.toInt - p.cost.toInt)| ≤ 2 * ((ns.length : Int) - 1) := by
  induction h with
  | nil => exact absurd rfl hns
  | @cons p p₁ p' n ns u pnl hn happly hrest ih =>
    have hag := (FillRun.cons hn happly hrest).against_of_flat hns hflat
    rcases le_or_gt (p.rawSize.toInt.natAbs : Int) n.toInt with hle | hlt
    · obtain ⟨M, hM, hreal, hsize, -⟩ := applyFill_whole hn hag hle happly
      have hnil : ns = [] := by
        by_contra hne
        have hrest_ag := hrest.against_of_flat hne hflat
        rw [hsize] at hrest_ag
        cases side <;> simp only [Side.sign] at hrest_ag <;> omega
      subst hnil
      cases hrest
      refine ⟨M, hM, ?_⟩
      rw [hreal]
      simp
    · obtain ⟨M, hM, hcost, hsize⟩ := applyFill_part_slice hn hag hlt happly
      have hne : ns ≠ [] := by
        rintro rfl
        cases hrest
        have := (applyFill_part hn hag hlt happly).2
        rw [hflat] at this
        simp at this
      obtain ⟨M₁, hM₁, hrun⟩ := ih hne hflat
      have hU : p.unrealizedAt? t sp = some (M.toInt - p.cost.toInt) := by
        simp [Position.unrealizedAt?, hM]
      have hU₁ : p₁.unrealizedAt? t sp = some (M₁.toInt - p₁.cost.toInt) := by
        simp [Position.unrealizedAt?, hM₁]
      have hdrift := applyFill_drift_near hk hn happly hU hU₁
      refine ⟨M, hM, ?_⟩
      rw [List.length_cons, Nat.cast_add, Nat.cast_one]
      have hsplit : u.realizedPnl.toInt + pnl - (M.toInt - p.cost.toInt) =
          (u.realizedPnl.toInt + (M₁.toInt - p₁.cost.toInt) - (M.toInt - p.cost.toInt)) +
            (pnl - (M₁.toInt - p₁.cost.toInt)) := by ring
      rw [hsplit]
      have hlen : (0 : Int) ≤ ns.length - 1 := by
        have := List.length_pos_of_ne_nil hne
        omega
      calc _ ≤ |u.realizedPnl.toInt + (M₁.toInt - p₁.cost.toInt) - (M.toInt - p.cost.toInt)| +
            |pnl - (M₁.toInt - p₁.cost.toInt)| := abs_add_le _ _
        _ ≤ 2 + 2 * ((ns.length : Int) - 1) := add_le_add hdrift hrun
        _ = 2 * ((ns.length : Int) + 1 - 1) := by ring

end FillRun

/-- A fill drifts by nothing when it opens from flat, closes the whole position or flips it, and
by at most two raw units whenever the margin value at its price is within one raw unit of a
linear rate; so a position closed at one price in `k` fills realizes within `2 * (k - 1)` raw
units of its mark value less its cost, which is what one closing fill realizes. -/
theorem fill_drift_bounded :
    (∀ (p : Position) (side : Side) (n : Int64) (sp : Decimal) (t : ContractTerms)
      (p' : Position) (u : FillUpdate) (U U' : Int), 0 < n.toInt →
      (applyFill p side n sp t).run = .ok (.ok (p', u)) →
      p.unrealizedAt? t sp = some U → p'.unrealizedAt? t sp = some U' →
      ((p.rawSize.toInt = 0 ∨
          (p.rawSize.toInt * side.sign < 0 ∧ (p.rawSize.toInt.natAbs : Int) ≤ n.toInt)) →
        u.realizedPnl.toInt + U' - U = 0) ∧
      (∀ k, t.NearLinear sp k → |u.realizedPnl.toInt + U' - U| ≤ 2)) ∧
    (∀ (p : Position) (side : Side) (ns : List Int64) (sp : Decimal) (t : ContractTerms)
      (p' : Position) (pnl : Int) (k : ℚ), t.NearLinear sp k → FillRun t side sp p ns p' pnl →
      ns ≠ [] → p'.rawSize.toInt = 0 →
      ∃ M : Int64, t.marginValue? p.rawSize sp = some M ∧
        |pnl - (M.toInt - p.cost.toInt)| ≤ 2 * ((ns.length : Int) - 1) ∧
        ∀ (n₁ : Int64) (p₁ : Position) (u₁ : FillUpdate),
          n₁.toInt = p.rawSize.toInt.natAbs → (applyFill p side n₁ sp t).run = .ok (.ok (p₁, u₁)) →
          u₁.realizedPnl.toInt = M.toInt - p.cost.toInt) := by
  refine ⟨fun p side n sp t p' u U U' hn h hU hU' =>
    ⟨applyFill_drift_exact hn h hU hU', fun _ hk => applyFill_drift_near hk hn h hU hU'⟩, ?_⟩
  intro p side ns sp t p' pnl k hk hrun hns hflat
  obtain ⟨M, hM, hclose⟩ := hrun.closes hk hns hflat
  refine ⟨M, hM, hclose, fun n₁ p₁ u₁ hn₁ h₁ => ?_⟩
  have hag := hrun.against_of_flat hns hflat
  have hpos : 0 < n₁.toInt := by
    rw [hn₁]
    exact Int.natCast_pos.mpr (Int.natAbs_pos.mpr fun h0 => by rw [h0] at hag; simp at hag)
  obtain ⟨M₁, hM₁, hreal, -⟩ := applyFill_whole hpos hag hn₁.ge h₁
  rw [hM, Option.some.injEq] at hM₁
  rw [hreal, hM₁]

namespace Sample

def two : Decimal := Decimal.ofParts false 2 0

theorem centTerms_roundsLinearly : centTerms.RoundsLinearly two 200 := by
  have h := @ContractTerms.roundsLinearly_of_whole_lots centTerms two rfl
    (by decide) (by decide) (by decide)
  have hnum : two.num * centTerms.multiplier.num * centTerms.margin.scale = 200 := by decide
  have hpow : Decimal.pow10 (two.scale + centTerms.multiplier.scale) = 1 := by decide
  rw [hnum, hpow] at h
  simpa using h

end Sample

/-- Adding two lots to the long of three drifts by nothing, and so does closing it in a fill of
one lot and one of two, which realize the 100 that one fill of three realizes. -/
theorem long_three_drift :
    (∃ p' u U U', (applyFill Sample.longThree .buy 2 Sample.two Sample.centTerms).run =
        .ok (.ok (p', u)) ∧ Sample.longThree.unrealizedAt? Sample.centTerms Sample.two = some U ∧
      p'.unrealizedAt? Sample.centTerms Sample.two = some U' ∧
      ((Sample.longThree.rawSize.toInt = 0 ∨ (Sample.longThree.rawSize.toInt * Side.buy.sign < 0 ∧
          (Sample.longThree.rawSize.toInt.natAbs : Int) ≤ (2 : Int64).toInt)) →
        u.realizedPnl.toInt + U' - U = 0) ∧
      ∀ k, Sample.centTerms.NearLinear Sample.two k → |u.realizedPnl.toInt + U' - U| ≤ 2) ∧
    (∃ p' pnl, FillRun Sample.centTerms .sell Sample.two Sample.longThree [1, 2] p' pnl ∧
      p'.rawSize.toInt = 0 ∧ pnl = 100 ∧
      ∃ M : Int64, Sample.centTerms.marginValue? Sample.longThree.rawSize Sample.two = some M ∧
        |pnl - (M.toInt - Sample.longThree.cost.toInt)| ≤ 2 * (([1, 2] : List Int64).length - 1) ∧
        ∀ (n₁ : Int64) (p₁ : Position) (u₁ : FillUpdate),
          n₁.toInt = Sample.longThree.rawSize.toInt.natAbs →
          (applyFill Sample.longThree .sell n₁ Sample.two Sample.centTerms).run = .ok (.ok (p₁, u₁)) →
          u₁.realizedPnl.toInt = M.toInt - Sample.longThree.cost.toInt) := by
  obtain ⟨p', pnl, hrun, hflat, hpnl⟩ : ∃ p' pnl,
      FillRun Sample.centTerms .sell Sample.two Sample.longThree [1, 2] p' pnl ∧
        p'.rawSize.toInt = 0 ∧ pnl = 100 :=
    ⟨_, _, .cons (by decide : 0 < (1 : Int64).toInt) rfl
      (.cons (by decide : 0 < (2 : Int64).toInt) rfl (.nil _)), rfl, rfl⟩
  exact ⟨⟨_, _, _, _, rfl, rfl, rfl, fill_drift_bounded.1 _ _ _ _ _ _ _ _ _ (by decide) rfl rfl rfl⟩,
    ⟨p', pnl, hrun, hflat, hpnl, fill_drift_bounded.2 _ _ _ _ _ _ _ 200
      Sample.centTerms_roundsLinearly.nearLinear hrun (by simp) hflat⟩⟩

namespace Sample

def tinyLotTerms : ContractTerms :=
  ⟨⟨1000000000000000000, by decide, by decide⟩, ⟨1000000000000000000, by decide, by decide⟩,
    Decimal.ofParts false 100000000000 0⟩

def tinyLotPrice : Decimal := Decimal.ofParts false 1 11

def longFiveTiny : Position := ⟨1, 0, 5, false⟩

end Sample

/-- Five lots of `10 ^ -18` at `10 ^ -11` are worth `5 * 10 ^ -29`, which rounds to nothing at 28
places, while ten are worth `10 ^ -28`, ten raw units once multiplied out. So adding five lots to
five drifts by ten raw units. -/
theorem tiny_lots_drift_ten :
    ∃ p' u, (applyFill Sample.longFiveTiny .buy 5 Sample.tinyLotPrice Sample.tinyLotTerms).run =
        .ok (.ok (p', u)) ∧
      Sample.longFiveTiny.unrealizedAt? Sample.tinyLotTerms Sample.tinyLotPrice = some 0 ∧
      p'.unrealizedAt? Sample.tinyLotTerms Sample.tinyLotPrice = some 10 ∧
      0 < Sample.longFiveTiny.rawSize.toInt * Side.buy.sign ∧
      2 < |u.realizedPnl.toInt + 10 - 0| :=
  ⟨_, _, rfl, rfl, rfl, by decide, by decide⟩

end TradeLedger
