import TradeLedger.Proofs.ExactProducts
import TradeLedger.Proofs.EventSteps
import TradeLedger.Proofs.Convergence

/-!
# Equity and the order of fills

The equity of an account in one instrument at a mark is its margin plus the unrealized profit of
its position there: the mark value of the size less the cost. How a run of fills splits what it
moved between realized profit and cost depends on the order of the fills; the margin less the
cost, and with it the equity, moves by a sum that does not, up to rounding.

Each accepted margined fill moves the margin less the cost by minus its signed size at the rate
of its settlement price, less its commission, up to less than two raw units
(`Account.handle_fill_settles`, from `applyFill_conserves`), provided the margin value at that
price rounds linearly. Every term of that sum is fixed by the fill and by what the run does not
change: the instruments, the margin grid, and the side and security of the order each reference
reaches (`Account.SettlesAlike`). Two runs of the same fills in two orders therefore end with the
same size and with margins less costs at most four raw units per fill apart; and since every
flat position of a reachable account carries no cost (`Account.ReachableUnder.flatCostless`), the
equity is the margin less the cost plus a mark value of the size alone, so the equities are as
close.

Where the margin value does not round linearly, the decimal products having lost digits, a flip
realizes at one rounding and opens at another, and the equities part by more
(`tiny_fills_order_dependent`).
-/

namespace TradeLedger

theorem OrderRecord.fill_side (r : OrderRecord) (t : TradeId) (leaves cum : Int64) (lot : Precision) :
    ((r.fill t leaves cum).refresh lot).order.side = r.order.side := by
  simp only [OrderRecord.refresh, OrderRecord.fill, OrderRecord.noteTrade]
  split_ifs <;> rfl

/-- A record moved by a change that keeps side and security reaches an order of the same side and
security under every reference. -/
theorem OrderBook.find?_modify_side {b : OrderBook} {i : Nat} {f : OrderRecord → OrderRecord}
    (hf : ∀ r, (f r).order.side = r.order.side ∧ (f r).order.securityId = r.order.securityId)
    (ref : OrderRef) :
    ((b.modify i f).find? ref).map (fun r => (r.order.side, r.order.securityId)) =
      (b.find? ref).map (fun r => (r.order.side, r.order.securityId)) := by
  have hl : (b.modify i f).lookup ref = b.lookup ref := by cases ref <;> rfl
  simp only [OrderBook.find?, hl]
  cases b.lookup ref with
  | none => rfl
  | some j =>
    simp only [Option.bind_eq_bind, Option.bind_some, OrderBook.get?_modify]
    split
    · subst j
      cases b.get? i with
      | none => rfl
      | some r => simp [hf r]
    · rfl

namespace AccountM

variable {a a' : Account}

theorem run_settleFill_margined {sid : SecurityId} {side : Side} {t : TradeId}
    {price quantity : Decimal} {rawFill : Int64} {taker : Bool} {ins : Instrument}
    (hins : a.instrument? sid = some ins) (hm : ins.isMargined = true) :
    (settleFill sid side t price quantity rawFill taker).run a =
      (settleMargined sid side t price quantity rawFill taker).run a := by
  simp only [settleFill, run_view_bind, hins, hm, if_true]

/-- A margined settlement that goes through applies the fill to the position it reads, files the
result under the same id and moves the margin by the realized profit less the commission. -/
theorem settleMargined_ok {sid : SecurityId} {side : Side} {t : TradeId}
    {price quantity : Decimal} {rawFill : Int64} {taker : Bool}
    (h : (settleMargined sid side t price quantity rawFill taker).run a = .ok (.ok ⟨⟩, a')) :
    ∃ ins sp p u fee, a.instrument? sid = some ins ∧ ins.settlementPrice? price = some sp ∧
      (applyFill ((a.positions.get? sid).getD (Position.create sid false)) side rawFill sp
        (a.terms ins)).run = .ok (.ok (p, u)) ∧
      (Margin.notional? quantity sp ins.security.multiplier >>=
        (Margin.commission? (ins.feeRate taker) · a.marginGrid)) = some fee ∧
      a'.margin.toInt = a.margin.toInt + u.realizedPnl.toInt - fee.toInt ∧
      a'.positions = a.positions.insert sid p ∧ a'.instruments = a.instruments ∧
      a'.marginGrid = a.marginGrid := by
  rcases settleMargined_cases h with ⟨e, he, -⟩ |
    ⟨ins, sp, p, u, fee, m, hins, hsp, hpu, hfee, hm, -, rfl⟩
  · cases he
  exact ⟨ins, sp, p, u, fee, hins, hsp, hpu, hfee, Word.toInt_of_add?_sub? hm, rfl, rfl, rfl⟩

/-- An accepted fill settles first and then moves the record its reference reaches, keeping the
order's side and security: what it does to money is what the settlement did. -/
theorem confirmFill_settled {ref : OrderRef} {t : TradeId} {price quantity : Decimal}
    {taker : Bool} {rep : ExecutionReport}
    (h : (confirmFill ref t price quantity taker).run a = .ok (.ok (some rep), a')) :
    ∃ i r ins n a₁, a.orders.lookup ref = some i ∧ a.orders.get? i = some r ∧
      a.instrument? r.order.securityId = some ins ∧ ins.lot.toRaw? quantity = some n ∧
      0 < n.toInt ∧
      (settleFill r.order.securityId r.order.side t price (ins.lot.fromRaw n) n taker).run a =
        .ok (.ok ⟨⟩, a₁) ∧
      a'.margin = a₁.margin ∧ a'.positions = a₁.positions ∧ a'.marginGrid = a₁.marginGrid ∧
      a'.instruments = a₁.instruments ∧ ∃ f : OrderRecord → OrderRecord,
        a'.orders = a₁.orders.modify i f ∧
        ∀ r', (f r').order.side = r'.order.side ∧ (f r').order.securityId = r'.order.securityId := by
  rcases confirmFill_cases h with ⟨-, hnone⟩ |
    ⟨i, r, ins, n, cum, -, hl, hr, hins, hraw, hpos, -, -, -, hi, ho, a₁, hset, hm, hp, hg⟩
  · exact absurd rfl (hnone rep)
  have hsettle := settleFill_settles hset
  refine ⟨i, r, ins, n, a₁, hl, hr, hins, hraw, hpos, hset, hm, hp, hg,
    hi.trans hsettle.instruments.symm, _, by rw [ho, hsettle.orders], fun r' =>
      ⟨OrderRecord.fill_side _ _ _ _ _, (OrderRecord.fill_keys _ _ _ _ _).2.2⟩⟩

end AccountM

/-- What a fill fixes of its own settlement, whatever position it meets: the security, the
signed raw size, the settlement price and the commission. -/
structure FillTerms where
  sid : SecurityId
  signed : Int
  price : Decimal
  fee : Int64
  deriving DecidableEq

namespace Account

variable {a a' a₀ a₁ : Account}

/-- The terms on which the account settles the fill `c`: its order's security and side, the
quantity on the lot grid, the settlement price of the fill price and the commission on the
booked quantity; `none` when `c` is no fill or cannot be settled. -/
def fillTerms? (a : Account) : Command → Option FillTerms
  | .confirmFill ref _ price quantity taker => do
    let o ← a.order? ref
    let ins ← a.instrument? o.securityId
    let n ← ins.lot.toRaw? quantity
    let sp ← ins.settlementPrice? price
    let fee ← Margin.notional? (ins.lot.fromRaw n) sp ins.security.multiplier >>=
      (Margin.commission? (ins.feeRate taker) · a.marginGrid)
    pure ⟨o.securityId, o.side.sign * n.toInt, sp, fee⟩
  | _ => none

def positionIn (a : Account) (sid : SecurityId) : Position :=
  (a.positions.get? sid).getD (Position.create sid false)

def marginLessCost (a : Account) (sid : SecurityId) : Int :=
  a.margin.toInt - (a.positionIn sid).cost.toInt

/-- The equity of the account in `sid` at a mark: the margin plus the unrealized profit of the
position, raw units; `none` where the valuation refuses or overflows. -/
def equityAt? (a : Account) (sid : SecurityId) (mark : Decimal) : Option Int :=
  match a.positions.get? sid with
  | none => some a.margin.toInt
  | some p => match (a.valuation p mark).run with
    | .ok (.ok v) => some (a.margin.toInt + v.unrealized.toInt)
    | _ => none

theorem handle_confirmFill_run {ref : OrderRef} {t : TradeId} {price quantity : Decimal}
    {taker : Bool} {rep : ExecutionReport}
    (h : a.handle (.confirmFill ref t price quantity taker) = .ok (a', .report (some rep))) :
    (AccountM.confirmFill ref t price quantity taker).run a = .ok (.ok (some rep), a') := by
  simp only [handle, answer] at h
  split at h
  · cases h
  · rename_i v a₁ hrun
    simp only [Except.ok.injEq, Prod.mk.injEq, Response.report.injEq] at h
    obtain ⟨rfl, rfl⟩ := h
    exact hrun
  · cases h

/-! ## Settling alike -/

/-- `a` settles fills as `a₀` does: with the same instruments and margin grid, and every order
reference reaching an order of the same side and security. -/
structure SettlesAlike (a₀ a : Account) : Prop where
  instruments : a.instruments = a₀.instruments
  marginGrid : a.marginGrid = a₀.marginGrid
  orders : ∀ ref, (a.orders.find? ref).map (fun r => (r.order.side, r.order.securityId)) =
    (a₀.orders.find? ref).map (fun r => (r.order.side, r.order.securityId))

theorem SettlesAlike.refl (a : Account) : a.SettlesAlike a := ⟨rfl, rfl, fun _ => rfl⟩

theorem SettlesAlike.trans (h₁ : a₀.SettlesAlike a₁) (h₂ : a₁.SettlesAlike a) : a₀.SettlesAlike a :=
  ⟨h₂.instruments.trans h₁.instruments, h₂.marginGrid.trans h₁.marginGrid,
    fun ref => (h₂.orders ref).trans (h₁.orders ref)⟩

theorem SettlesAlike.symm (h : a₀.SettlesAlike a) : a.SettlesAlike a₀ :=
  ⟨h.instruments.symm, h.marginGrid.symm, fun ref => (h.orders ref).symm⟩

theorem SettlesAlike.instrument? (h : a₀.SettlesAlike a) (sid : SecurityId) :
    a.instrument? sid = a₀.instrument? sid := by
  rw [Account.instrument?, Account.instrument?, h.instruments]

theorem SettlesAlike.terms (h : a₀.SettlesAlike a) (ins : Instrument) : a.terms ins = a₀.terms ins := by
  rw [Account.terms, Account.terms, h.marginGrid]

theorem SettlesAlike.fillTerms? (h : a₀.SettlesAlike a) (c : Command) :
    a.fillTerms? c = a₀.fillTerms? c := by
  cases c with
  | confirmFill ref t price quantity taker =>
    have ho := h.orders ref
    simp only [Account.fillTerms?, Account.order?]
    cases hf : a.orders.find? ref with
    | none =>
      rw [hf] at ho
      cases hf₀ : a₀.orders.find? ref with
      | none => rfl
      | some _ => rw [hf₀] at ho; cases ho
    | some r =>
      rw [hf] at ho
      cases hf₀ : a₀.orders.find? ref with
      | none => rw [hf₀] at ho; cases ho
      | some r₀ =>
        rw [hf₀] at ho
        obtain ⟨hside, hsid⟩ := Prod.mk.inj (Option.some.inj ho)
        simp only [Option.map_some, Option.bind_eq_bind, Option.bind_some, hside, hsid, h.instrument?,
          h.marginGrid]
  | _ => rfl

/-! ## One fill -/

/-- A margined fill accepted with a report moves the margin less the cost of its position by minus
its signed size at the rate where the margin value rounds linearly, less its commission, up to
less than two raw units. It moves the size by the signed size, leaves no cost on a flat position
and keeps how the account settles fills. -/
theorem handle_fill_settles {c : Command} {rep : ExecutionReport} {ft : FillTerms} {ins : Instrument}
    {k : ℚ} (h : a.handle c = .ok (a', .report (some rep))) (ht : a.fillTerms? c = some ft)
    (hins : a.instrument? ft.sid = some ins) (hm : ins.isMargined = true)
    (hk : (a.terms ins).RoundsLinearly ft.price k) :
    |((a'.marginLessCost ft.sid - a.marginLessCost ft.sid : Int) : ℚ) + ft.signed * k +
        ft.fee.toInt| < 2 ∧
      (a'.positionIn ft.sid).rawSize.toInt = (a.positionIn ft.sid).rawSize.toInt + ft.signed ∧
      ((a'.positionIn ft.sid).rawSize.toInt = 0 → (a'.positionIn ft.sid).cost = 0) ∧
      (Int64.ofInt ft.signed).toInt = ft.signed ∧ a.SettlesAlike a' := by
  cases c with
  | confirmFill ref t price quantity taker =>
    obtain ⟨i, r, ins', n, a₁, hl, hr, hins', hn, hpos, hset, hmargin, hpositions, hgrid, hinstr,
      f, horders, hf⟩ := AccountM.confirmFill_settled (handle_confirmFill_run h)
    have ho : a.order? ref = some r.order := by simp [Account.order?, OrderBook.find?, hl, hr]
    simp only [fillTerms?, ho, hins', hn, Option.bind_eq_bind, Option.bind_some] at ht
    obtain ⟨sp, hsp, ht⟩ := Option.bind_eq_some_iff.mp ht
    obtain ⟨fee, hfee, ht⟩ := Option.bind_eq_some_iff.mp ht
    cases ht
    dsimp only at hins hk ⊢
    obtain rfl : ins = ins' := Option.some.inj (hins.symm.trans hins')
    have hset' := (AccountM.run_settleFill_margined hins hm).symm.trans hset
    have hsettle := AccountM.settleFill_settles hset
    obtain ⟨ins'', sp', p, u, fee', hins'', hsp', happly, hfee', hmargin', hpositions', -, hgrid'⟩ :=
      AccountM.settleMargined_ok hset'
    obtain rfl : ins = ins'' := Option.some.inj (hins.symm.trans hins'')
    obtain rfl : sp = sp' := Option.some.inj (hsp.symm.trans hsp')
    obtain rfl : fee = fee' := Option.some.inj (hfee.symm.trans hfee')
    have hp : a'.positionIn r.order.securityId = p := by
      simp [positionIn, hpositions, hpositions']
    have hcons := applyFill_conserves hpos hk happly
    refine ⟨?_, ?_, ?_, Side.toInt_ofInt_sign_mul _ hpos (Int64.toInt_lt n), ?_⟩
    · rw [marginLessCost, marginLessCost, hp, hmargin, hmargin']
      have heq : ((a.margin.toInt + u.realizedPnl.toInt - fee.toInt - p.cost.toInt -
          (a.margin.toInt - (a.positionIn r.order.securityId).cost.toInt) : Int) : ℚ) +
          (r.order.side.sign * n.toInt : Int) * k + fee.toInt =
          ((u.realizedPnl.toInt - (p.cost.toInt - (a.positionIn r.order.securityId).cost.toInt) :
            Int) : ℚ) + r.order.side.sign * n.toInt * k := by
        push_cast
        ring
      rw [heq]
      exact hcons
    · rw [hp]
      exact applyFill_rawSize hpos happly
    · rw [hp]
      exact applyFill_flat_cost hpos happly
    · refine ⟨hinstr.trans hsettle.instruments, hgrid.trans hgrid', fun ref' => ?_⟩
      rw [horders, hsettle.orders]
      exact OrderBook.find?_modify_side hf ref'
  | _ => cases ht

/-! ## Flat positions carry no cost -/

def FlatCostless (a : Account) : Prop :=
  ∀ e ∈ a.positions.entries, e.2.rawSize.toInt = 0 → e.2.cost = 0

theorem FlatCostless.positionIn (h : a.FlatCostless) (sid : SecurityId)
    (hflat : (a.positionIn sid).rawSize.toInt = 0) : (a.positionIn sid).cost = 0 := by
  unfold Account.positionIn at hflat ⊢
  cases hg : a.positions.get? sid with
  | none => rfl
  | some p =>
    rw [hg] at hflat
    exact h _ (KeyMap.mem_of_get? hg) hflat

theorem reportedPosition_flat {views : KeyMap SecurityId Instrument} {p : VenuePosition}
    {size cost : Int64} (h : a.reportedPosition views p = .ok (size, cost)) (hflat : size.toInt = 0) :
    cost = 0 := by
  obtain ⟨-, i, -, -, hcost⟩ := reportedPosition_ok h
  rwa [if_pos hflat] at hcost

open AccountM in
theorem keeps_settleMargined_flatCostless (sid : SecurityId) (side : Side) (t : TradeId)
    (price quantity : Decimal) (rawFill : Int64) (taker : Bool) :
    Keeps FlatCostless (settleMargined sid side t price quantity rawFill taker) := by
  intro a x a' ha h
  cases x with
  | error e =>
    rw [(settleMargined_settles h).refused e rfl]
    exact ha
  | ok u =>
    obtain ⟨ins, sp, p, u, fee, -, -, happly, -, -, hpos, -, -⟩ := settleMargined_ok h
    intro e he hflat
    rw [hpos] at he
    rcases KeyMap.mem_insert he with rfl | ⟨-, he'⟩
    · exact applyFill_keeps_flat_cost (ha.positionIn sid) happly hflat
    · exact ha e he' hflat

open AccountM in
theorem keeps_sync_flatCostless (x : SyncInput) : Keeps FlatCostless (sync x) := by
  intro a u a' ha h
  rw [run_sync_eq] at h
  split at h
  · cases h
    exact ha
  · rename_i r hr
    cases h
    obtain ⟨-, -, hp, -⟩ := rebuilt_eq_ok.mp hr
    obtain ⟨qs, hx, hp⟩ := rebuildPositions_ok hp
    intro e he hflat
    change e ∈ r.positions.entries at he
    rw [hp] at he
    cases hl : KeyMap.lastOf (·.1.securityId) e.1 qs with
    | none =>
      obtain ⟨e', -, rfl⟩ := List.mem_map.mp (KeyMap.mem_of_mem_upsertAll he hl)
      rfl
    | some q =>
      have he2 := KeyMap.snd_of_mem_upsertAll Position.merge_absorbs he hl
      have hq := (mapM_pair_ok hx).2 q (KeyMap.lastOf_mem hl)
      rw [he2] at hflat ⊢
      exact reportedPosition_flat hq hflat

/-- In every reachable account, flat positions carry no cost. -/
theorem ReachableUnder.flatCostless {allowed : Account → Command → Prop}
    (h : a.ReachableUnder allowed) : a.FlatCostless := by
  induction h with
  | create hc =>
    intro e he
    unfold Account.create at hc
    split at hc
    · cases hc
    · split at hc
      · cases hc
      · cases hc
        cases he
  | step _ _ hstep ih =>
    exact keeps_handle (fun _ _ h => h) (fun _ _ h => h) (fun _ _ h => h) (fun _ _ h => h)
      keeps_settleMargined_flatCostless keeps_sync_flatCostless ih hstep

/-! ## Equity -/

/-- What the position in `sid` is worth at a mark, raw units: nothing when flat, otherwise the
margin value of its size at the mark's settlement price; `none` when that cannot be had. -/
def markValue? (a : Account) (sid : SecurityId) (mark : Decimal) : Option Int :=
  if (a.positionIn sid).rawSize.toInt = 0 then some 0
  else do
    let ins ← a.instrument? sid
    let m ← ins.settlementPrice? mark
    let v ← (a.terms ins).marginValue? (a.positionIn sid).rawSize m
    pure v.toInt

theorem markValue?_congr {b : Account} {sid : SecurityId} (h : a.SettlesAlike b)
    (hsize : (b.positionIn sid).rawSize = (a.positionIn sid).rawSize) (mark : Decimal) :
    b.markValue? sid mark = a.markValue? sid mark := by
  simp only [markValue?, hsize, h.instrument?, h.terms]

theorem markValue?_near {sid : SecurityId} {ins : Instrument} {mark m : Decimal} {k : ℚ} {w : Int}
    (hins : a.instrument? sid = some ins) (hm : ins.settlementPrice? mark = some m)
    (hk : (a.terms ins).RoundsLinearly m k) (hw : a.markValue? sid mark = some w) :
    |(w : ℚ) - (a.positionIn sid).rawSize.toInt * k| ≤ 1 / 2 := by
  unfold markValue? at hw
  split at hw
  · rename_i hflat
    cases hw
    simp [hflat]
  · simp only [hins, hm, Option.bind_eq_bind, Option.bind_some] at hw
    obtain ⟨v, hv, hw⟩ := Option.bind_eq_some_iff.mp hw
    cases hw
    exact hk _ _ hv

theorem valuation_ok {p : Position} {mark : Decimal} {v : Valuation}
    (h : (a.valuation p mark).run = .ok (.ok v)) :
    ∃ ins m, a.instrument? p.securityId = some ins ∧ ins.settlementPrice? mark = some m ∧
      Margin.unrealizedPnl? p m (a.terms ins) = some v.unrealized := by
  unfold valuation at h
  obtain ⟨ins, hins, h⟩ := Checked.orError_bind_ok h
  obtain ⟨m, hm, h⟩ := Checked.orError_bind_ok h
  obtain ⟨un, hun, h⟩ := Checked.orError_bind_ok h
  have hret : v.unrealized = un := Checked.returns_bind (Q := fun w : Valuation => w.unrealized = un)
    (Checked.returns_any _) (fun _ _ => Checked.returns_bind (Checked.returns_any _)
      fun _ _ => Checked.returns_pure rfl) v h
  exact ⟨ins, m, hins, hm, hret ▸ hun⟩

theorem equityAt?_eq {sid : SecurityId} {mark : Decimal} {e : Int} (hc : a.Coherent)
    (hf : a.FlatCostless) (he : a.equityAt? sid mark = some e) :
    ∃ w, a.markValue? sid mark = some w ∧ e = a.marginLessCost sid + w := by
  unfold equityAt? at he
  cases hg : a.positions.get? sid with
  | none =>
    rw [hg] at he
    cases he
    refine ⟨0, ?_, ?_⟩ <;> simp [markValue?, marginLessCost, positionIn, hg, Position.create]
  | some p =>
    simp only [hg] at he
    split at he
    · rename_i v hv
      cases he
      obtain ⟨ins, m, hins, hm, hun⟩ := valuation_ok hv
      rw [hc.filed.get? hg] at hins
      have hp : a.positionIn sid = p := by simp [positionIn, hg]
      unfold Margin.unrealizedPnl? at hun
      split at hun
      · rename_i hflat
        have hflat' : p.rawSize.toInt = 0 := by simpa [Position.isFlat] using hflat
        have hcost := hf.positionIn sid (by rw [hp]; exact hflat')
        rw [hp] at hcost
        have hu : v.unrealized = 0 := (Option.some.inj hun).symm
        refine ⟨0, by simp [markValue?, hp, hflat'], ?_⟩
        simp [marginLessCost, hp, hcost, hu]
      · rename_i hflat
        have hflat' : p.rawSize.toInt ≠ 0 := by simpa [Position.isFlat] using hflat
        simp only [Option.bind_eq_bind] at hun
        obtain ⟨x, hx, hun⟩ := Option.bind_eq_some_iff.mp hun
        refine ⟨x.toInt, by simp [markValue?, hp, hflat', hins, hm, hx], ?_⟩
        rw [marginLessCost, hp, Word.toInt_of_ofInt? hun]
        ring
    · cases he

/-! ## Runs of fills -/

/-- The commands `cs` run from `a` to `a'`, each answered with an execution report. -/
inductive Reports : Account → List Command → Account → Prop
  | nil (a : Account) : Reports a [] a
  | cons {a a₁ a' : Account} {c : Command} {cs : List Command} {rep : ExecutionReport} :
      a.handle c = .ok (a₁, .report (some rep)) → Reports a₁ cs a' → Reports a (c :: cs) a'

theorem Reports.reachable {cs : List Command} (h : Reports a cs a') (ha : a.Reachable) :
    a'.Reachable := by
  induction h with
  | nil => exact ha
  | cons hstep _ ih => exact ih (.step ha trivial hstep)

/-- What the fill `c` is bound to move margin less cost by at the rates `κ`, as `a` settles it:
minus its signed size at the rate of its settlement price, less its commission; nothing for a
command that is no fill. -/
def fillMove (a : Account) (κ : Decimal → ℚ) (c : Command) : ℚ :=
  match a.fillTerms? c with
  | some ft => -(ft.signed * κ ft.price) - ft.fee.toInt
  | none => 0

/-- The signed raw size of the fill `c`; nothing for a command that is no fill. -/
def fillSize (a : Account) (c : Command) : Int :=
  match a.fillTerms? c with
  | some ft => ft.signed
  | none => 0

/-- Along a run of margined fills of `sid` accepted with reports, at prices where the margin value
rounds linearly, the margin less the cost moves by the fills' bound moves up to two units per
fill, and the size by their signed sizes; the account keeps settling fills as `a₀` does. -/
theorem Reports.drift {cs : List Command} {sid : SecurityId} {ins : Instrument}
    {κ : Decimal → ℚ} (hrun : Reports a cs a') (halike : a₀.SettlesAlike a)
    (hins : a₀.instrument? sid = some ins) (hm : ins.isMargined = true)
    (hcs : ∀ c ∈ cs, ∃ ft, a₀.fillTerms? c = some ft ∧ ft.sid = sid ∧
      (a₀.terms ins).RoundsLinearly ft.price (κ ft.price)) :
    |((a'.marginLessCost sid - a.marginLessCost sid : Int) : ℚ) - (cs.map (a₀.fillMove κ)).sum| ≤
        2 * cs.length ∧
      (a'.positionIn sid).rawSize.toInt = (a.positionIn sid).rawSize.toInt + (cs.map a₀.fillSize).sum ∧
      a₀.SettlesAlike a' := by
  induction hrun with
  | nil a => simpa using halike
  | @cons a a₁ a' c cs rep hstep _ ih =>
    obtain ⟨ft, hft, hsid, hk⟩ := hcs c List.mem_cons_self
    have hft' : a.fillTerms? c = some ft := (halike.fillTerms? c).trans hft
    have hins' : a.instrument? ft.sid = some ins := by rw [hsid, halike.instrument?]; exact hins
    have hk' : (a.terms ins).RoundsLinearly ft.price (κ ft.price) := by rw [halike.terms]; exact hk
    obtain ⟨hmove, hsize, -, -, halike₁⟩ := handle_fill_settles hstep hft' hins' hm hk'
    obtain ⟨ih₁, ih₂, ih₃⟩ := ih (halike.trans halike₁) fun c hc => hcs c (List.mem_cons_of_mem _ hc)
    rw [hsid] at hmove hsize
    have hmv : a₀.fillMove κ c = -(ft.signed * κ ft.price) - ft.fee.toInt := by simp [fillMove, hft]
    have hsz : a₀.fillSize c = ft.signed := by simp [fillSize, hft]
    refine ⟨?_, ?_, ih₃⟩
    · have heq : ((a'.marginLessCost sid - a.marginLessCost sid : Int) : ℚ) -
          ((c :: cs).map (a₀.fillMove κ)).sum =
          (((a'.marginLessCost sid - a₁.marginLessCost sid : Int) : ℚ) - (cs.map (a₀.fillMove κ)).sum) +
          (((a₁.marginLessCost sid - a.marginLessCost sid : Int) : ℚ) + ft.signed * κ ft.price +
            ft.fee.toInt) := by
        rw [List.map_cons, List.sum_cons, hmv]
        push_cast
        ring
      rw [heq, List.length_cons]
      calc _ ≤ _ := abs_add_le _ _
        _ ≤ 2 * (cs.length : ℚ) + 2 := add_le_add ih₁ hmove.le
        _ = 2 * ((cs.length + 1 : ℕ) : ℚ) := by push_cast; ring
    · rw [ih₂, hsize, List.map_cons, List.sum_cons, hsz]
      ring

/-! ## Equity does not depend on the order of fills -/

/-- Applied in any two orders from a reachable account, margined fills of one instrument at prices
where the margin value rounds linearly end in equities at most four raw units per fill apart, at
every mark. -/
theorem Reachable.fill_order_equity_gap {cs cs' : List Command} {sid : SecurityId}
    {ins : Instrument} {κ : Decimal → ℚ} {aA aB : Account} (ha : a.Reachable)
    (hins : a.instrument? sid = some ins) (hm : ins.isMargined = true)
    (hcs : ∀ c ∈ cs, ∃ ft, a.fillTerms? c = some ft ∧ ft.sid = sid ∧
      (a.terms ins).RoundsLinearly ft.price (κ ft.price))
    (hperm : cs.Perm cs') (hA : Reports a cs aA) (hB : Reports a cs' aB) {mark : Decimal}
    {eA eB : Int} (heA : aA.equityAt? sid mark = some eA) (heB : aB.equityAt? sid mark = some eB) :
    |eA - eB| ≤ 4 * cs.length := by
  obtain ⟨hdA, hsA, halA⟩ := hA.drift (.refl a) hins hm hcs
  obtain ⟨hdB, hsB, halB⟩ := hB.drift (.refl a) hins hm fun c hc => hcs c (hperm.mem_iff.mpr hc)
  have hmoves : (cs'.map (a.fillMove κ)).sum = (cs.map (a.fillMove κ)).sum := (hperm.map _).sum_eq.symm
  have hsizes : (cs'.map a.fillSize).sum = (cs.map a.fillSize).sum := (hperm.map _).sum_eq.symm
  have hlen : cs'.length = cs.length := hperm.length_eq.symm
  have hrA := hA.reachable ha
  have hrB := hB.reachable ha
  obtain ⟨wA, hwA, rfl⟩ := equityAt?_eq (ReachableUnder.coherent hrA) (ReachableUnder.flatCostless hrA) heA
  obtain ⟨wB, hwB, rfl⟩ := equityAt?_eq (ReachableUnder.coherent hrB) (ReachableUnder.flatCostless hrB) heB
  have hsize : (aB.positionIn sid).rawSize = (aA.positionIn sid).rawSize :=
    Int64.toInt_inj.mp (by rw [hsA, hsB, hsizes])
  have hw : wB = wA :=
    Option.some.inj (hwB.symm.trans ((markValue?_congr (halA.symm.trans halB) hsize mark).trans hwA))
  have hgap : |((aA.marginLessCost sid - aB.marginLessCost sid : Int) : ℚ)| ≤ 4 * cs.length := by
    have heq : ((aA.marginLessCost sid - aB.marginLessCost sid : Int) : ℚ) =
        (((aA.marginLessCost sid - a.marginLessCost sid : Int) : ℚ) - (cs.map (a.fillMove κ)).sum) -
        (((aB.marginLessCost sid - a.marginLessCost sid : Int) : ℚ) - (cs'.map (a.fillMove κ)).sum) := by
      rw [hmoves]
      push_cast
      ring
    rw [heq]
    calc _ ≤ _ := abs_sub _ _
      _ ≤ 2 * (cs.length : ℚ) + 2 * cs.length := add_le_add hdA (hlen ▸ hdB)
      _ = 4 * cs.length := by ring
  rw [hw, show aA.marginLessCost sid + wA - (aB.marginLessCost sid + wA) =
    aA.marginLessCost sid - aB.marginLessCost sid by ring]
  exact_mod_cast hgap

/-- One margined fill accepted in a reachable account moves its equity at a mark by the margin
value of the signed fill at the mark less that at the fill price, less the commission, up to
three raw units, where the margin value rounds linearly at both prices. -/
theorem Reachable.fill_equity_step {b b' : Account} {c : Command} {rep : ExecutionReport}
    {ft : FillTerms} {ins : Instrument} {kp km : ℚ} {mark m : Decimal} {e e' : Int} {x y : Int64}
    (hb : b.Reachable) (h : b.handle c = .ok (b', .report (some rep)))
    (ht : b.fillTerms? c = some ft) (hins : b.instrument? ft.sid = some ins)
    (hm : ins.isMargined = true) (hkp : (b.terms ins).RoundsLinearly ft.price kp)
    (hmark : ins.settlementPrice? mark = some m) (hkm : (b.terms ins).RoundsLinearly m km)
    (he : b.equityAt? ft.sid mark = some e) (he' : b'.equityAt? ft.sid mark = some e')
    (hx : (b.terms ins).marginValue? (Int64.ofInt ft.signed) m = some x)
    (hy : (b.terms ins).marginValue? (Int64.ofInt ft.signed) ft.price = some y) :
    |e' - e - (x.toInt - y.toInt - ft.fee.toInt)| ≤ 3 := by
  obtain ⟨hmove, hsize, -, hsigned, halike⟩ := handle_fill_settles h ht hins hm hkp
  have hb' : b'.Reachable := .step hb trivial h
  obtain ⟨w, hw, rfl⟩ := equityAt?_eq (ReachableUnder.coherent hb) (ReachableUnder.flatCostless hb) he
  obtain ⟨w', hw', rfl⟩ :=
    equityAt?_eq (ReachableUnder.coherent hb') (ReachableUnder.flatCostless hb') he'
  have hnear := markValue?_near hins hmark hkm hw
  have hnear' := markValue?_near (by rw [halike.instrument?]; exact hins) hmark
    (by rw [halike.terms]; exact hkm) hw'
  have hxk : |(x.toInt : ℚ) - ft.signed * km| ≤ 1 / 2 := by simpa [hsigned] using hkm _ _ hx
  have hyk : |(y.toInt : ℚ) - ft.signed * kp| ≤ 1 / 2 := by simpa [hsigned] using hkp _ _ hy
  rw [hsize] at hnear'
  have hq : |((b'.marginLessCost ft.sid + w' - (b.marginLessCost ft.sid + w) -
      (x.toInt - y.toInt - ft.fee.toInt) : Int) : ℚ)| < 4 := by
    have heq : ((b'.marginLessCost ft.sid + w' - (b.marginLessCost ft.sid + w) -
        (x.toInt - y.toInt - ft.fee.toInt) : Int) : ℚ) =
        (((b'.marginLessCost ft.sid - b.marginLessCost ft.sid : Int) : ℚ) + ft.signed * kp +
          ft.fee.toInt) +
        ((w' : ℚ) - ((b.positionIn ft.sid).rawSize.toInt + ft.signed : Int) * km) -
        ((w : ℚ) - (b.positionIn ft.sid).rawSize.toInt * km) -
        ((x.toInt : ℚ) - ft.signed * km) + ((y.toInt : ℚ) - ft.signed * kp) := by
      push_cast
      ring
    obtain ⟨h₁, h₂⟩ := abs_lt.mp hmove
    obtain ⟨h₃, h₄⟩ := abs_le.mp hnear'
    obtain ⟨h₅, h₆⟩ := abs_le.mp hnear
    obtain ⟨h₇, h₈⟩ := abs_le.mp hxk
    obtain ⟨h₉, h₁₀⟩ := abs_le.mp hyk
    rw [heq, abs_lt]
    constructor <;> linarith

  have hz : |b'.marginLessCost ft.sid + w' - (b.marginLessCost ft.sid + w) -
      (x.toInt - y.toInt - ft.fee.toInt)| < 4 := by exact_mod_cast hq
  rw [abs_lt] at hz
  rw [abs_le]
  omega

/-- Account equity does not depend on the order of margined fills, where the margin value rounds
linearly at their prices: two runs of the same fills of one instrument from a reachable account,
in two orders and every fill accepted, end in equities at most four raw units per fill apart at
every mark; and each accepted fill moves the equity at a mark by the margin value of the signed
fill at the mark less that at the fill price, less the commission, up to three raw units. -/
theorem Reachable.equity_independent_of_fill_order {cs cs' : List Command} {sid : SecurityId}
    {ins : Instrument} {κ : Decimal → ℚ} {aA aB : Account} (ha : a.Reachable)
    (hins : a.instrument? sid = some ins) (hm : ins.isMargined = true)
    (hcs : ∀ c ∈ cs, ∃ ft, a.fillTerms? c = some ft ∧ ft.sid = sid ∧
      (a.terms ins).RoundsLinearly ft.price (κ ft.price))
    (hperm : cs.Perm cs') (hA : Reports a cs aA) (hB : Reports a cs' aB) :
    (∀ mark eA eB, aA.equityAt? sid mark = some eA → aB.equityAt? sid mark = some eB →
      |eA - eB| ≤ 4 * cs.length) ∧
    ∀ (b b' : Account) (c : Command) (rep : ExecutionReport) (ft : FillTerms) (i : Instrument)
      (kp km : ℚ) (mark m : Decimal) (e e' : Int) (x y : Int64), b.Reachable →
      b.handle c = .ok (b', .report (some rep)) → b.fillTerms? c = some ft →
      b.instrument? ft.sid = some i → i.isMargined = true →
      (b.terms i).RoundsLinearly ft.price kp → i.settlementPrice? mark = some m →
      (b.terms i).RoundsLinearly m km → b.equityAt? ft.sid mark = some e →
      b'.equityAt? ft.sid mark = some e' →
      (b.terms i).marginValue? (Int64.ofInt ft.signed) m = some x →
      (b.terms i).marginValue? (Int64.ofInt ft.signed) ft.price = some y →
      |e' - e - (x.toInt - y.toInt - ft.fee.toInt)| ≤ 3 :=
  ⟨fun _ _ _ heA heB => ha.fill_order_equity_gap hins hm hcs hperm hA hB heA heB,
    fun _ _ _ _ _ _ _ _ _ _ _ _ _ _ hb h ht hi hmi hkp hmark hkm he he' hx hy =>
      hb.fill_equity_step h ht hi hmi hkp hmark hkm he he' hx hy⟩

def fillTwoAtDouble : Command :=
  .confirmFill (.client "a") "u" (Decimal.ofParts false 200 0) (Decimal.ofParts false 2 0) false

/-- Filled one lot at 100 and two at 200 in either order, the BTC perpetual's equities at every
mark stay within eight raw units. -/
theorem btc_fills_equity_order_independent :
    ∃ a aA aB, Sample.session [Sample.listBtcPerp, .newOrder Sample.buyTen] = some a ∧
      a.Reports [Sample.fillA 1, fillTwoAtDouble] aA ∧ a.Reports [fillTwoAtDouble, Sample.fillA 1] aB ∧
      ∀ mark eA eB, aA.equityAt? 1 mark = some eA → aB.equityAt? 1 mark = some eB →
        |eA - eB| ≤ 4 * 2 := by
  have hs : Sample.session [Sample.listBtcPerp, .newOrder Sample.buyTen] = some _ := rfl
  exact ⟨_, _, _, hs, .cons rfl (.cons rfl (.nil _)), .cons rfl (.cons rfl (.nil _)),
    (@Reachable.equity_independent_of_fill_order _ [Sample.fillA 1, fillTwoAtDouble]
      [fillTwoAtDouble, Sample.fillA 1] 1 _
      (fun p => ((p.num * Security.btcusdPerp.multiplier.num * 100000000 : Int) : ℚ) /
        (Decimal.pow10 (p.scale + Security.btcusdPerp.multiplier.scale) : ℚ)) _ _
      (.of_session hs) (by rfl) rfl (by
        intro c hc
        simp only [List.mem_cons, List.not_mem_nil, or_false] at hc
        rcases hc with rfl | rfl
        all_goals
          refine ⟨_, rfl, rfl, ?_⟩
          exact ContractTerms.roundsLinearly_of_whole_lots rfl (by decide) (by decide) (by decide))
      (.swap _ _ _) (.cons rfl (.cons rfl (.nil _))) (.cons rfl (.cons rfl (.nil _)))).1⟩

/-! ## Fills that do not round linearly -/

def tinyPerp : Security :=
  { securityId := 7, symbol := "TINY", securityType := .perpetual,
    minPriceIncrement := Decimal.ofParts false 1 1, roundLot := Decimal.ofParts false 1 1,
    multiplier := Decimal.ofParts false 10000000000000000000000 0, isInverse := false,
    makerFee := Decimal.zero, takerFee := Decimal.zero, underlying := "BTC", quoteCurrency := "USD" }

def tinySession : List Command :=
  [.sync ⟨[tinyPerp], [], [], [], none, none⟩,
    .newOrder (Order.market "x" 7 .buy (Decimal.ofParts false 2 1) 0),
    .newOrder (Order.market "y" 7 .sell (Decimal.ofParts false 1 1) 0)]

def tinyFillX : Command :=
  .confirmFill (.client "x") "tx" (Decimal.ofParts false 15 28) (Decimal.ofParts false 2 1) false

def tinyFillY : Command :=
  .confirmFill (.client "y") "ty" (Decimal.ofParts false 1 27) (Decimal.ofParts false 1 1) false

/-- The two fills in the two orders end in equities at the mark `10 ^ -27` a hundred raw units
apart: filled first, "x" opens two tenths at a cost of 300 and "y" closes one at a loss of 50;
filled second, "x" closes the short tenth at a price whose value rounds from 150 to 200 and opens
a tenth at that rounding again. -/
theorem tiny_fills_order_dependent :
    ∃ a aA aB eA eB, Sample.session tinySession = some a ∧
      a.Reports [tinyFillX, tinyFillY] aA ∧ a.Reports [tinyFillY, tinyFillX] aB ∧
      aA.equityAt? 7 (Decimal.ofParts false 1 27) = some eA ∧
      aB.equityAt? 7 (Decimal.ofParts false 1 27) = some eB ∧ 6 * 2 < |eA - eB| := by
  exact ⟨_, _, _, _, _, rfl, .cons rfl (.cons rfl (.nil _)), .cons rfl (.cons rfl (.nil _)), rfl, rfl,
    by decide⟩

end Account

end TradeLedger
