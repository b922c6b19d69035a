import TradeLedger.Proofs.FillOrder
import TradeLedger.Proofs.GridRoundTrip

/-!
# The three shapes of a fill

A fill meets a position in one of three ways. Held along the fill (or from flat), it only opens:
nothing is realized, and the cost grows by the margin value of the fill. Held against it and
smaller than it, the whole position closes: the closed slice of the mark value is the whole mark
value and the realized share is all of the unrealized profit, both quotients exact, so the cost
drops to nothing and whatever the fill has left opens as from flat. Held against it and larger,
the size moves toward zero by the fill and keeps its sign.

So a fill leaves no cost behind a flat position, and neither does a snapshot: in every
reachable account a flat position carries no cost.
-/

namespace TradeLedger

theorem Word.against_iff (w : Int64) (side : Side) :
    (w.toInt ≠ 0 ∧ Word.signum w ≠ side.sign) ↔ w.toInt * side.sign < 0 := by
  unfold Word.signum
  cases side <;> simp only [Side.sign] <;> split_ifs <;> omega

theorem ContractTerms.marginValue?_zero (t : ContractTerms) (price : Decimal) :
    t.marginValue? 0 price = some 0 := by
  unfold ContractTerms.marginValue?
  rw [Precision.fromRaw_zero, Decimal.mul?_of_left_zero rfl]
  simp only [Option.bind_eq_bind, Option.bind_some]
  rw [Decimal.mul?_of_left_zero rfl]
  exact Precision.toRaw?_of_zero rfl

open Checked in
theorem applyFill_frame (p : Position) (side : Side) (n : Int64) (price : Decimal)
    (t : ContractTerms) :
    Returns (fun r => r.1 = { p with rawSize := r.1.rawSize, cost := r.1.cost })
      (applyFill p side n price t) := by
  unfold applyFill
  simp only [pure_bind]
  repeat' (first
    | exact returns_pure rfl
    | refine returns_bind (returns_any _) fun _ _ => ?_
    | split)

/-- A fill of `n` lots from a flat position opens `n` lots at their margin value. -/
theorem applyFill_reset {p : Position} {side : Side} {n m : Int64} {sp : Decimal}
    {t : ContractTerms} (hn : 0 < n.toInt)
    (hm : t.marginValue? (Int64.ofInt (side.sign * n.toInt)) sp = some m) :
    ∃ u, (applyFill p.reset side n sp t).run =
      .ok (.ok ({ p.reset with cost := m, rawSize := Int64.ofInt (side.sign * n.toInt) }, u)) := by
  have hn' := Int64.toInt_lt n
  have hs := Side.toInt_ofInt_sign_mul side hn hn'
  have hflat : (p.reset.rawSize.toInt ≠ 0 ∧ Word.signum p.reset.rawSize ≠ side.sign) = False := by
    simp [Position.reset]
  have hcost : Word.add? p.reset.cost m = some m := by
    unfold Word.add?
    rw [show p.reset.cost.toInt = 0 from rfl, zero_add]
    exact Word.ofInt?_toInt m
  have hsize : Word.add? p.reset.rawSize (Int64.ofInt (side.sign * n.toInt)) =
      some (Int64.ofInt (side.sign * n.toInt)) := by
    unfold Word.add?
    rw [show p.reset.rawSize.toInt = 0 from rfl, zero_add]
    exact Word.ofInt?_toInt _
  unfold applyFill
  simp only [pure_bind, hflat, if_false, sub_zero, hn, if_true, hm, hcost, hsize, Checked.orError]
  exact ⟨_, rfl⟩

section Shapes

variable {p p' : Position} {side : Side} {n : Int64} {sp : Decimal} {t : ContractTerms}
  {u : FillUpdate}

/-- Against the fill, a position no larger than the fill closes whole: the realized profit is
its mark value less its cost, exactly, and the position left is the rest of the fill at its
margin value. -/
theorem applyFill_whole (hn : 0 < n.toInt) (hag : p.rawSize.toInt * side.sign < 0)
    (hle : (p.rawSize.toInt.natAbs : Int) ≤ n.toInt)
    (h : (applyFill p side n sp t).run = .ok (.ok (p', u))) :
    ∃ M : Int64, t.marginValue? p.rawSize sp = some M ∧
      u.realizedPnl.toInt = M.toInt - p.cost.toInt ∧
      p'.rawSize.toInt = side.sign * (n.toInt - p.rawSize.toInt.natAbs) ∧
      t.marginValue? p'.rawSize sp = some p'.cost := by
  have hn' := Int64.toInt_lt n
  obtain ⟨closed, cost₁, hclose, hopen⟩ := applyFill_ok hn h
  rcases hclose with ⟨hs, -, rfl, M, hM, hcost₁, hreal⟩ | ⟨hnot, -⟩
  · have hmin : min n.toInt p.rawSize.toInt.natAbs = p.rawSize.toInt.natAbs := min_eq_right hle
    have hall : (p.rawSize.toInt.natAbs : Int) * Word.signum p.rawSize = p.rawSize.toInt := by
      rw [mul_comm]
      exact Word.signum_mul_natAbs p.rawSize
    rw [hmin, hall, Int.mul_tdiv_cancel_left _ hs] at hreal hcost₁
    rw [hreal] at hcost₁
    refine ⟨M, hM, hreal, ?_⟩
    rcases hopen with ⟨hr, hcost, hsize⟩ | ⟨hr, m, hm, hcost, hsize⟩
    · rw [hmin] at hr
      rw [hmin, hall, sub_self] at hsize
      have hsize' : p'.rawSize = 0 := Int64.toInt_inj.mp hsize
      have hcost' : p'.cost = 0 := Int64.toInt_inj.mp (by rw [hcost, hcost₁]; simp)
      refine ⟨by rw [hsize, show n.toInt = p.rawSize.toInt.natAbs by omega, sub_self, mul_zero], ?_⟩
      rw [hsize', hcost']
      exact t.marginValue?_zero sp
    · rw [hmin] at hm hr
      rw [hmin, hall, sub_self, zero_add] at hsize
      have hrest := Side.toInt_ofInt_sign_mul side hr (by omega)
      have hsize' : p'.rawSize = Int64.ofInt (side.sign * (n.toInt - p.rawSize.toInt.natAbs)) :=
        Int64.toInt_inj.mp (by rw [hsize, hrest])
      have hcost' : p'.cost = m := Int64.toInt_inj.mp (by rw [hcost, hcost₁]; simp)
      exact ⟨hsize, by rw [hsize', hcost']; exact hm⟩
  · exact absurd ((Word.against_iff _ _).mpr hag) hnot

theorem applyFill_whole_flat (hn : 0 < n.toInt) (hag : p.rawSize.toInt * side.sign < 0)
    (heq : n.toInt = p.rawSize.toInt.natAbs)
    (h : (applyFill p side n sp t).run = .ok (.ok (p', u))) : p' = p.reset := by
  obtain ⟨M, -, -, hsize, hm⟩ := applyFill_whole hn hag heq.ge h
  rw [heq, sub_self, mul_zero] at hsize
  have hsize' : p'.rawSize = 0 := Int64.toInt_inj.mp hsize
  rw [hsize', t.marginValue?_zero sp, Option.some.injEq] at hm
  have hframe : p' = { p with rawSize := p'.rawSize, cost := p'.cost } :=
    applyFill_frame p side n sp t _ h
  rw [hframe, hsize', ← hm]
  rfl

/-- A fill that flips the position leaves exactly the position that the rest of the fill opens
from flat: nothing of the closed side stays behind. -/
theorem applyFill_whole_fresh (hn : 0 < n.toInt) (hag : p.rawSize.toInt * side.sign < 0)
    (hlt : (p.rawSize.toInt.natAbs : Int) < n.toInt)
    (h : (applyFill p side n sp t).run = .ok (.ok (p', u))) :
    ∃ u', (applyFill p.reset side (Int64.ofInt (n.toInt - p.rawSize.toInt.natAbs)) sp t).run =
      .ok (.ok (p', u')) := by
  have hn' := Int64.toInt_lt n
  obtain ⟨M, -, -, hsize, hm⟩ := applyFill_whole hn hag hlt.le h
  have hrest : (Int64.ofInt (n.toInt - p.rawSize.toInt.natAbs)).toInt =
      n.toInt - p.rawSize.toInt.natAbs := Word.toInt_ofInt_of_fits (by omega) (by omega)
  have hsize' : p'.rawSize =
      Int64.ofInt (side.sign * (Int64.ofInt (n.toInt - p.rawSize.toInt.natAbs)).toInt) := by
    apply Int64.toInt_inj.mp
    rw [hrest, hsize, Side.toInt_ofInt_sign_mul side (by omega) (by omega)]
  rw [hsize'] at hm
  obtain ⟨u', hu'⟩ := applyFill_reset (p := p) (by rw [hrest]; omega) hm
  have hframe : p' = { p with rawSize := p'.rawSize, cost := p'.cost } :=
    applyFill_frame p side n sp t _ h
  refine ⟨u', ?_⟩
  rw [hu', ← hsize']
  exact congrArg (fun q => Except.ok (Except.ok (q, u'))) hframe.symm

/-- From flat or along the position, a fill only opens: nothing is realized, and the cost grows
by the margin value of the fill. -/
theorem applyFill_along (hn : 0 < n.toInt) (hw : 0 ≤ p.rawSize.toInt * side.sign)
    (h : (applyFill p side n sp t).run = .ok (.ok (p', u))) :
    u.realizedPnl.toInt = 0 ∧ p'.rawSize.toInt = p.rawSize.toInt + side.sign * n.toInt ∧
      ∃ m : Int64, t.marginValue? (Int64.ofInt (side.sign * n.toInt)) sp = some m ∧
        p'.cost.toInt = p.cost.toInt + m.toInt := by
  obtain ⟨closed, cost₁, hclose, hopen⟩ := applyFill_ok hn h
  rcases hclose with ⟨hs, hne, -⟩ | ⟨-, rfl, rfl, hreal⟩
  · exact absurd ((Word.against_iff _ _).mp ⟨hs, hne⟩) (not_lt.mpr hw)
  · rcases hopen with ⟨hr, -⟩ | ⟨-, m, hm, hcost, hsize⟩
    · omega
    · rw [sub_zero] at hm
      exact ⟨hreal, by rw [hsize]; ring, m, hm, hcost⟩

/-- Against a position larger than itself, a fill moves the size toward zero by the fill, and
the size keeps its sign. -/
theorem applyFill_part (hn : 0 < n.toInt) (hag : p.rawSize.toInt * side.sign < 0)
    (hlt : n.toInt < p.rawSize.toInt.natAbs)
    (h : (applyFill p side n sp t).run = .ok (.ok (p', u))) :
    p'.rawSize.toInt = p.rawSize.toInt + side.sign * n.toInt ∧
      0 < p'.rawSize.toInt * p.rawSize.toInt := by
  have hsize := applyFill_rawSize hn h
  refine ⟨hsize, ?_⟩
  rw [hsize]
  cases side with
  | buy =>
    simp only [Side.sign] at hag ⊢
    exact Int.mul_pos_of_neg_of_neg (by omega) (by omega)
  | sell =>
    simp only [Side.sign] at hag ⊢
    exact Int.mul_pos (by omega) (by omega)

end Shapes

/-- What a fill of `n` lots at the settlement price `sp` made of position `p`, by how the fill
met it. -/
structure FillShape (t : ContractTerms) (sp : Decimal) (p : Position) (side : Side) (n : Int64)
    (p' : Position) (u : FillUpdate) : Prop where
  /-- Against a position no larger than itself, a fill closes it whole: it realizes the mark
  value less the cost, exactly, and leaves the rest of the fill at its margin value, which is
  nothing on an exact close and on a flip the position that the rest opens from flat. -/
  whole : p.rawSize.toInt * side.sign < 0 → (p.rawSize.toInt.natAbs : Int) ≤ n.toInt →
    (∃ M : Int64, t.marginValue? p.rawSize sp = some M ∧
      u.realizedPnl.toInt = M.toInt - p.cost.toInt ∧
      p'.rawSize.toInt = side.sign * (n.toInt - p.rawSize.toInt.natAbs) ∧
      t.marginValue? p'.rawSize sp = some p'.cost) ∧
    (n.toInt = p.rawSize.toInt.natAbs → p' = p.reset) ∧
    ((p.rawSize.toInt.natAbs : Int) < n.toInt → ∃ u',
      (applyFill p.reset side (Int64.ofInt (n.toInt - p.rawSize.toInt.natAbs)) sp t).run =
        .ok (.ok (p', u')))
  /-- From flat or along the position, a fill only opens: nothing is realized, and the cost
  grows by the margin value of the fill. -/
  along : 0 ≤ p.rawSize.toInt * side.sign →
    u.realizedPnl.toInt = 0 ∧ p'.rawSize.toInt = p.rawSize.toInt + side.sign * n.toInt ∧
    ∃ m : Int64, t.marginValue? (Int64.ofInt (side.sign * n.toInt)) sp = some m ∧
      p'.cost.toInt = p.cost.toInt + m.toInt
  /-- Against a position larger than itself, a fill moves the size toward zero by the fill,
  and the size keeps its sign. -/
  part : p.rawSize.toInt * side.sign < 0 → n.toInt < p.rawSize.toInt.natAbs →
    p'.rawSize.toInt = p.rawSize.toInt + side.sign * n.toInt ∧
    0 < p'.rawSize.toInt * p.rawSize.toInt

theorem applyFill_shape {p p' : Position} {side : Side} {n : Int64} {sp : Decimal}
    {t : ContractTerms} {u : FillUpdate} (hn : 0 < n.toInt)
    (h : (applyFill p side n sp t).run = .ok (.ok (p', u))) : FillShape t sp p side n p' u where
  whole hag hle := ⟨applyFill_whole hn hag hle h, fun heq => applyFill_whole_flat hn hag heq h,
    fun hlt => applyFill_whole_fresh hn hag hlt h⟩
  along hw := applyFill_along hn hw h
  part hag hlt := applyFill_part hn hag hlt h

/-- A fill closes the position it meets against it exactly, with no residue of the closed side,
opens along it, or moves it toward zero; and every flat position of a reachable account carries
no cost, since fills and snapshots leave none behind. -/
theorem fills_close_exactly :
    (∀ (p : Position) (side : Side) (n : Int64) (sp : Decimal) (t : ContractTerms)
      (p' : Position) (u : FillUpdate), 0 < n.toInt →
      (applyFill p side n sp t).run = .ok (.ok (p', u)) → FillShape t sp p side n p' u) ∧
    (∀ a : Account, a.Reachable → ∀ e ∈ a.positions.entries, e.2.rawSize.toInt = 0 →
      e.2.cost = 0) :=
  ⟨fun _ _ _ _ _ _ _ hn h => applyFill_shape hn h, fun _ ha => Account.ReachableUnder.flatCostless ha⟩

namespace Sample

def centTerms : ContractTerms :=
  ⟨⟨1, by decide, by decide⟩, ⟨100, by decide, by decide⟩, Decimal.one⟩

def longThree : Position := ⟨1, 500, 3, false⟩

end Sample

/-- Selling five lots at 2 against a long of three closes it, realizing its mark value 600 less
its cost 500, and leaves a short of two lots at their margin value, as from flat. -/
theorem flip_long_three_by_five :
    ∃ p' u, (applyFill Sample.longThree .sell 5 (Decimal.ofParts false 2 0) Sample.centTerms).run =
        .ok (.ok (p', u)) ∧ u.realizedPnl.toInt = 100 ∧ p' = ⟨1, -400, -2, false⟩ ∧
      FillShape Sample.centTerms (Decimal.ofParts false 2 0) Sample.longThree .sell 5 p' u :=
  ⟨_, _, rfl, rfl, rfl, fills_close_exactly.1 _ _ _ _ _ _ _ (by decide) rfl⟩

end TradeLedger
