import Mathlib
import TradeLedger.Proofs.Lifecycle

/-!
# Raw quantities

A record keeps an order's size three times in raw lots of its instrument: the total, what is
still open and what is filled. They stay in step with the status (`OrderStatus.CountsFit`):
nothing is negative; a working order has lots open, which make up its total with the filled
ones; a filled order has none open and is filled to its total; a canceled or expired one has
none open. The decimal quantities are the raw ones on the lot grid (`OrderRecord.CountsSound`).

The ledger keeps this on every run in which `Account.CountsGuarded` admits each command: a
snapshot reports orders whose counts fit their status, a new order leaves at least one raw lot
open, and no fill reaches a rejected order that has lots open. The ledger checks neither of
the last two. A new order below one lot passes the check on its decimal size and is stored
with nothing open; a snapshot may report a rejected order with lots open, and a fill of it is
accepted. Under the guard, fills that add up to what a working order has open leave it filled
to its total (`Account.ReachableUnder.counts_sound`).
-/

namespace TradeLedger

namespace OrderStatus

/-- The raw counts that status `s` allows an order of `q` lots with `l` open and `c` filled. -/
def CountsFit (s : OrderStatus) (q l c : Int) : Prop :=
  0 ≤ l ∧ 0 ≤ c ∧ (s.isTerminal = false → 0 < l ∧ l + c = q) ∧ (s = .filled → l = 0 ∧ c = q) ∧
    (s = .canceled ∨ s = .expired → l = 0)

instance (s : OrderStatus) (q l c : Int) : Decidable (s.CountsFit q l c) :=
  inferInstanceAs (Decidable (0 ≤ l ∧ 0 ≤ c ∧ (s.isTerminal = false → 0 < l ∧ l + c = q) ∧
    (s = .filled → l = 0 ∧ c = q) ∧ (s = .canceled ∨ s = .expired → l = 0)))

example : filled.CountsFit 10 0 10 ∧ partiallyFilled.CountsFit 10 6 4 ∧
    ¬ new.CountsFit 10 0 10 ∧ ¬ canceled.CountsFit 10 5 0 := by
  decide

variable {s : OrderStatus} {q l c : Int}

theorem countsFit_working (hs : s.isTerminal = false) (hl : 0 < l) (hc : 0 ≤ c)
    (hq : l + c = q) : s.CountsFit q l c := by
  refine ⟨by omega, hc, fun _ => ⟨hl, hq⟩, fun hf => ?_, fun hce => ?_⟩
  · subst hf
    simp [isTerminal] at hs
  · rcases hce with rfl | rfl <;> simp [isTerminal] at hs

theorem countsFit_closed (hs : s = .canceled ∨ s = .expired ∨ s = .rejected) (hl : l = 0)
    (hc : 0 ≤ c) : s.CountsFit q l c := by
  refine ⟨by omega, hc, fun hw => ?_, fun hf => ?_, fun _ => hl⟩ <;>
    rcases hs with rfl | rfl | rfl <;> simp_all [isTerminal]

theorem countsFit_filled (hl : l = 0) (hc : 0 ≤ c) (hq : c = q) : filled.CountsFit q l c :=
  ⟨by omega, hc, fun h => by simp [isTerminal] at h, fun _ => ⟨hl, hq⟩, fun h => by simp at h⟩

theorem CountsFit.working (h : s.CountsFit q l c) (hs : s.isTerminal = false) :
    0 < l ∧ 0 ≤ c ∧ l + c = q :=
  ⟨(h.2.2.1 hs).1, h.2.1, (h.2.2.1 hs).2⟩

theorem CountsFit.isTerminal_eq_false (h : s.CountsFit q l c) (hl : 0 < l)
    (hrej : s ≠ .rejected) : s.isTerminal = false := by
  obtain ⟨-, -, -, hfilled, hclosed⟩ := h
  cases s <;> simp_all [isTerminal]

end OrderStatus

theorem Precision.fromRaw_zero (p : Precision) : p.fromRaw 0 = Decimal.zero := by
  have hunit : p.unit.mantissa ≠ 0 := by
    have := p.pos
    simp only [Precision.unit]
    omega
  simp [Precision.fromRaw, Decimal.div?, hunit, Decimal.ofInt64, Decimal.ofInt]

theorem Word.toInt_ofInt_sub {l n : Int64} (hn : 0 ≤ n.toInt) (hle : n.toInt ≤ l.toInt) :
    (Int64.ofInt (l.toInt - n.toInt)).toInt = l.toInt - n.toInt := by
  have := Int64.le_toInt l
  have := Int64.toInt_lt l
  exact Int64.toInt_ofInt_of_le (by omega) (by omega)

namespace OrderRecord

@[simp] theorem create_status (o : Order) (q l c : Int64) : (create o q l c).status = o.status :=
  rfl

@[simp] theorem refresh_rawQuantity (r : OrderRecord) (lot : Precision) :
    (r.refresh lot).rawQuantity = r.rawQuantity := rfl

@[simp] theorem refresh_rawLeaves (r : OrderRecord) (lot : Precision) :
    (r.refresh lot).rawLeaves = r.rawLeaves := rfl

@[simp] theorem refresh_rawCum (r : OrderRecord) (lot : Precision) :
    (r.refresh lot).rawCum = r.rawCum := rfl

theorem noteTrade_rawQuantity (r : OrderRecord) (t : TradeId) :
    (r.noteTrade t).rawQuantity = r.rawQuantity := by
  unfold noteTrade
  split <;> rfl

@[simp] theorem fill_rawQuantity (r : OrderRecord) (t : TradeId) (leaves cum : Int64) :
    (r.fill t leaves cum).rawQuantity = r.rawQuantity := by
  simp only [fill]
  split_ifs <;> exact noteTrade_rawQuantity r t

@[simp] theorem fill_rawLeaves (r : OrderRecord) (t : TradeId) (leaves cum : Int64) :
    (r.fill t leaves cum).rawLeaves = leaves := by
  simp only [fill]
  split_ifs <;> rfl

@[simp] theorem fill_rawCum (r : OrderRecord) (t : TradeId) (leaves cum : Int64) :
    (r.fill t leaves cum).rawCum = cum := by
  simp only [fill]
  split_ifs <;> rfl

theorem amend_counts_of_none {am : Amendment} (r : OrderRecord) (leaves? : Option Int64)
    (h : am.rawQuantity = none) :
    (r.amend am leaves?).rawQuantity = r.rawQuantity ∧
      (r.amend am leaves?).rawLeaves = r.rawLeaves ∧ (r.amend am leaves?).rawCum = r.rawCum := by
  simp only [amend, h]
  split <;> simp

theorem amend_counts_of_some {am : Amendment} {q : Int64} (r : OrderRecord) (l : Int64)
    (h : am.rawQuantity = some q) :
    (r.amend am (some l)).rawQuantity = q ∧
      (r.amend am (some l)).rawLeaves = l ∧ (r.amend am (some l)).rawCum = r.rawCum := by
  simp only [amend, h]
  split <;> simp

/-- The record's raw counts fit its status. -/
def RawCountsFit (r : OrderRecord) : Prop :=
  r.status.CountsFit r.rawQuantity.toInt r.rawLeaves.toInt r.rawCum.toInt

instance (r : OrderRecord) : Decidable r.RawCountsFit :=
  inferInstanceAs (Decidable (r.status.CountsFit r.rawQuantity.toInt r.rawLeaves.toInt r.rawCum.toInt))

/-- The raw counts fit the status, and the decimal quantities are the raw ones on the grid
`lot`. -/
def CountsSound (lot : Precision) (r : OrderRecord) : Prop :=
  r.RawCountsFit ∧ r.order.quantity = lot.fromRaw r.rawQuantity ∧
    r.order.leavesQuantity = lot.fromRaw r.rawLeaves ∧ r.order.cumQuantity = lot.fromRaw r.rawCum

theorem countsSound_refresh {r : OrderRecord} {lot : Precision} (h : r.RawCountsFit) :
    (r.refresh lot).CountsSound lot :=
  ⟨h, rfl, rfl, rfl⟩

variable {r : OrderRecord}

theorem rawCountsFit_fill {n cum : Int64} (t : TradeId) (h : r.RawCountsFit)
    (hnt : r.status.isTerminal = false) (hpos : 0 < n.toInt) (hle : n.toInt ≤ r.rawLeaves.toInt)
    (hcum : Word.add? r.rawCum n = some cum) :
    (r.fill t (Int64.ofInt (r.rawLeaves.toInt - n.toInt)) cum).RawCountsFit := by
  obtain ⟨hl, hc, hq⟩ := h.working hnt
  have hleaves := Word.toInt_ofInt_sub (by omega) hle
  have hcum' : cum.toInt = r.rawCum.toInt + n.toInt := Word.toInt_of_ofInt? hcum
  unfold RawCountsFit
  rw [fill_status, fill_rawQuantity, fill_rawLeaves, fill_rawCum, hleaves, hcum']
  split_ifs with hzero
  · exact OrderStatus.countsFit_filled hzero (by omega) (by omega)
  · exact OrderStatus.countsFit_working hnt (by omega) (by omega) (by omega)
  · exact OrderStatus.countsFit_working rfl (by omega) (by omega) (by omega)

theorem fill_live (t : TradeId) (leaves cum : Int64) (lot : Precision)
    (hnt : r.status.isTerminal = false) :
    ((r.fill t leaves cum).refresh lot).status = .filled ∨
      ((r.fill t leaves cum).refresh lot).status.isTerminal = false := by
  rw [refresh_status, fill_status]
  split_ifs
  · exact .inl rfl
  · exact .inr hnt
  · exact .inr rfl

end OrderRecord

open OrderStatus in
theorem RecordMove.rawCountsFit {f : OrderRecord → OrderRecord} {r : OrderRecord}
    (hf : RecordMove f r) (hfb : r.FallbackSound) (h : r.RawCountsFit) : (f r).RawCountsFit := by
  have hnt := hf.isTerminal_eq_false
  obtain ⟨hl, hc, hq⟩ := h.working hnt
  cases hf with
  | acknowledge | requestCancel | requestAmend => exact countsFit_working rfl hl hc hq
  | reject | cancel | expire =>
    exact countsFit_closed (by simp)
      (by simp [OrderRecord.reject, OrderRecord.cancel, OrderRecord.expire]) hc
  | restore hs =>
    have hback : r.previousStatus.isTerminal = false := by
      rcases hfb hs with hp | hp | hp <;> rw [hp] <;> first | rfl | exact hnt
    exact countsFit_working hback hl hc hq
  | amend _ hleaves =>
    unfold AmendedLeaves at hleaves
    unfold OrderRecord.RawCountsFit
    rw [OrderRecord.amend_status]
    cases hq' : (r.amendment.getD ⟨none, none⟩).rawQuantity with
    | none =>
      simp only [hq'] at hleaves
      subst hleaves
      obtain ⟨h₁, h₂, h₃⟩ := OrderRecord.amend_counts_of_none r none hq'
      rw [h₁, h₂, h₃]
      exact countsFit_working rfl hl hc hq
    | some total =>
      simp only [hq'] at hleaves
      obtain ⟨hlt, l, hsub, rfl⟩ := hleaves
      have hl' : l.toInt = total.toInt - r.rawCum.toInt := Word.toInt_of_ofInt? hsub
      obtain ⟨h₁, h₂, h₃⟩ := OrderRecord.amend_counts_of_some r l hq'
      rw [h₁, h₂, h₃]
      exact countsFit_working rfl (by omega) hc (by omega)

/-- A record sound on the lot of its security's instrument, with a sound fallback. -/
def CountsKept (ins : KeyMap SecurityId Instrument) (r : OrderRecord) : Prop :=
  (∃ inst, ins.get? r.order.securityId = some inst ∧ r.CountsSound inst.lot) ∧ r.FallbackSound

theorem countsKept_invariant : RecordInvariant CountsKept where
  move := by
    rintro ins r f inst hinst hf ⟨⟨inst₀, hinst₀, hsound⟩, hfb⟩
    rw [hinst] at hinst₀
    cases hinst₀
    refine ⟨⟨inst, ?_, OrderRecord.countsSound_refresh (hf.rawCountsFit hfb hsound.1)⟩,
      fallbackSound_invariant.move ins r f inst hinst hf hfb⟩
    rw [(hf.keys inst.lot).2.2]
    exact hinst
  claim := fun _ _ _ hr => hr

namespace Account

/-- What each snapshot of a run reports: orders whose raw counts, on the lot of their
instrument, fit their status. -/
def SnapshotsFit (a : Account) (c : Command) : Prop :=
  ∀ x views, c = .sync x → a.rebuildInstruments x = .ok views → ∀ o ∈ x.orders, ∀ ins q l cum,
    views.get? o.securityId = some ins → ins.lot.toRaw? o.quantity = some q →
    ins.lot.toRaw? o.leavesQuantity = some l → ins.lot.toRaw? o.cumQuantity = some cum →
    o.status.CountsFit q.toInt l.toInt cum.toInt

/-- The commands under which raw counts stay sound: fitting snapshots, new orders of at least
one raw lot, and no fill of a rejected order with lots open. -/
structure CountsGuarded (a : Account) (c : Command) : Prop where
  snapshots : a.SnapshotsFit c
  wholeLots : ∀ o ins raw, c = .newOrder o → a.instrument? o.securityId = some ins →
    ins.lot.toRaw? o.leavesQuantity = some raw → 0 < raw.toInt
  noRejectedFill : ∀ ref t price quantity taker i r, c = .confirmFill ref t price quantity taker →
    a.orders.lookup ref = some i → a.orders.get? i = some r → r.status = .rejected →
    r.rawLeaves.toInt ≤ 0

variable {a a' : Account} {c : Command}

theorem countsGuarded_fill {ref : OrderRef} {t : TradeId} {price quantity : Decimal}
    {taker : Bool}
    (hlive : ∀ i r, a.orders.lookup ref = some i → a.orders.get? i = some r → r.status ≠ .rejected) :
    a.CountsGuarded (.confirmFill ref t price quantity taker) where
  snapshots := fun _ _ hc => by cases hc
  wholeLots := fun _ _ _ hc => by cases hc
  noRejectedFill := fun _ _ _ _ _ i r hc hi hr hrej => by
    cases hc
    exact absurd hrej (hlive i r hi hr)

end Account

section Guarded

variable {a a' : Account} {c : Command}

theorem Effect.countsKept (he : Effect a c a') (hfree : a.orders.FreeSlots)
    (h : a.EveryRecord CountsKept) (hg : a.CountsGuarded c) : a'.EveryRecord CountsKept :=
  countsKept_invariant.effect hfree h he
    (fun ref t price quantity taker i r ins n cum hc hl hr hins hpos hle hcum => by
      obtain ⟨⟨inst, hinst, hsound⟩, -⟩ := h i r hr
      have hsame : inst = ins := Option.some.inj (hinst.symm.trans hins)
      subst hsame
      have hnt : r.status.isTerminal = false := hsound.1.isTerminal_eq_false (by omega)
        fun hrej => by
          have := hg.noRejectedFill ref t price quantity taker i r hc hl hr hrej
          omega
      refine ⟨⟨inst, ?_, OrderRecord.countsSound_refresh
        (OrderRecord.rawCountsFit_fill t hsound.1 hnt hpos hle hcum)⟩,
        r.fallbackSound_fill _ _ _ _⟩
      rw [(r.fill_keys _ _ _ _).2.2]
      exact hinst)
    (fun o ins raw _ hc hs hins hraw =>
      ⟨⟨ins, hins, OrderRecord.countsSound_refresh (OrderStatus.countsFit_working
        (by simp [hs, OrderStatus.isTerminal]) (hg.wholeLots o ins raw hc hins hraw)
        (by simp [OrderRecord.create]) (by simp [OrderRecord.create]))⟩,
        OrderRecord.fallbackSound_create _ _ _ _⟩)
    (fun x views _ hc hv hb i r hr => by
      obtain ⟨o, ho, ins, q, l, cum, hins, hq, hl, hcum, rfl⟩ :=
        (Account.rebuildOrders_records hb).2 i r hr
      exact ⟨⟨ins, hins, OrderRecord.countsSound_refresh
        (hg.snapshots x views hc hv o ho ins q l cum hins hq hl hcum)⟩,
        OrderRecord.fallbackSound_create _ _ _ _⟩)

end Guarded

namespace Account

variable {a a' : Account} {c : Command}

theorem ReachableUnder.countsKept (h : a.ReachableUnder CountsGuarded) :
    a.EveryRecord CountsKept := by
  induction h with
  | create hc =>
    intro i r hr
    simp [(create_orders hc).1] at hr
  | step hreach hg hstep ih =>
    have hwf := ReachableUnder.wellFormed hreach
    exact (handle_handled hwf.known hstep).effect.countsKept hwf.free ih hg

/-- A fill answered by a report filled `n > 0` raw lots within the leaves of the record that
its reference reaches. -/
theorem handle_confirmFill_report {ref : OrderRef} {t : TradeId} {price quantity : Decimal}
    {taker : Bool} {rep : ExecutionReport}
    (h : a.handle (.confirmFill ref t price quantity taker) = .ok (a', .report (some rep))) :
    ∃ i r ins n cum, a.orders.lookup ref = some i ∧ a.orders.get? i = some r ∧
      a.instrument? r.order.securityId = some ins ∧ ins.lot.toRaw? quantity = some n ∧
      0 < n.toInt ∧ n.toInt ≤ r.rawLeaves.toInt ∧ Word.add? r.rawCum n = some cum ∧
      a'.orders = a.orders.modify i (fun r' =>
        (r'.fill t (Int64.ofInt (r.rawLeaves.toInt - n.toInt)) cum).refresh ins.lot) := by
  simp only [handle, answer] at h
  split at h
  · cases h
  · rename_i v a₁ hrun
    simp only [Except.ok.injEq, Prod.mk.injEq, Response.report.injEq] at h
    obtain ⟨rfl, rfl⟩ := h
    rcases AccountM.confirmFill_cases hrun with ⟨-, hnone⟩ | hfill
    · exact absurd rfl (hnone rep)
    · obtain ⟨i, r, ins, n, cum, -, hi, hr, hins, hn, hpos, hle, hcum, -, -, ho, -⟩ := hfill
      exact ⟨i, r, ins, n, cum, hi, hr, hins, hn, hpos, hle, hcum, ho⟩
  · cases h

/-- Fills accepted one after another on the order in slot `i`, each answered by a report; `ns`
lists their sizes in raw lots. -/
inductive AcceptedFills (i : Nat) : Account → List Int64 → Account → Prop
  | nil {a : Account} : AcceptedFills i a [] a
  | cons {a a₁ a' : Account} {ref : OrderRef} {t : TradeId} {price quantity : Decimal}
      {taker : Bool} {r : OrderRecord} {ins : Instrument} {n : Int64} {rep : ExecutionReport}
      {ns : List Int64} :
      a.orders.lookup ref = some i → a.orders.get? i = some r →
      a.instrument? r.order.securityId = some ins → ins.lot.toRaw? quantity = some n →
      a.handle (.confirmFill ref t price quantity taker) = .ok (a₁, .report (some rep)) →
      AcceptedFills i a₁ ns a' → AcceptedFills i a (n :: ns) a'

/-- Accepted fills of an order that is working or filled keep the run guarded and the order
working or filled, and take their sizes off what it has open. -/
theorem AcceptedFills.run {i : Nat} {ns : List Int64} {r : OrderRecord}
    (hf : AcceptedFills i a ns a') (h : a.ReachableUnder CountsGuarded)
    (hr : a.orders.get? i = some r) (hlive : r.status = .filled ∨ r.status.isTerminal = false) :
    a'.ReachableUnder CountsGuarded ∧ ∃ r', a'.orders.get? i = some r' ∧
      (r'.status = .filled ∨ r'.status.isTerminal = false) ∧
      r'.rawLeaves.toInt + (ns.map Int64.toInt).sum = r.rawLeaves.toInt := by
  induction hf generalizing r with
  | nil => exact ⟨h, r, hr, hlive, by simp⟩
  | @cons a a₁ a' ref t price quantity taker r₀ ins n rep ns hl hr₀ hins hn hh _ ih =>
    obtain ⟨j, s, ins', n', cum, hl', hs, hins', hn', hpos, hle, hcum, ho⟩ :=
      handle_confirmFill_report hh
    have hj : j = i := Option.some.inj (hl'.symm.trans hl)
    subst j
    have hs' : s = r := Option.some.inj (hs.symm.trans hr)
    have hr₀' : r₀ = r := Option.some.inj (hr₀.symm.trans hr)
    subst s r₀
    have hins₀ : ins' = ins := Option.some.inj (hins'.symm.trans hins)
    subst ins'
    have hn₀ : n' = n := Option.some.inj (hn'.symm.trans hn)
    subst n'
    have hnrej : r.status ≠ .rejected := fun hrej => by
      rcases hlive with hst | hst <;> simp [hrej, OrderStatus.isTerminal] at hst
    obtain ⟨⟨_, -, hsound⟩, -⟩ := h.countsKept i r hr
    have hnt : r.status.isTerminal = false := hsound.1.isTerminal_eq_false (by omega) hnrej
    have hg : a.CountsGuarded (.confirmFill ref t price quantity taker) :=
      countsGuarded_fill fun k s hk hs => by
        rw [hl] at hk
        cases hk
        rw [hr] at hs
        cases hs
        exact hnrej
    have hr₁ := OrderBook.get?_modify_of_get?
      (fun r' => (r'.fill t (Int64.ofInt (r.rawLeaves.toInt - n.toInt)) cum).refresh ins.lot) hr
    rw [← ho] at hr₁
    obtain ⟨hreach, r', hr', hlive', hsum⟩ := ih (.step h hg hh) hr₁ (r.fill_live _ _ _ _ hnt)
    refine ⟨hreach, r', hr', hlive', ?_⟩
    rw [OrderRecord.refresh_rawLeaves, OrderRecord.fill_rawLeaves,
      Word.toInt_ofInt_sub (by omega) hle] at hsum
    simp only [List.map_cons, List.sum_cons]
    omega

/-- On every run whose snapshots fit, whose new orders leave a raw lot open and whose fills
reach no rejected order with lots open, every live record's raw counts fit its status and its
decimal quantities are those counts on its instrument's lot grid; and fills accepted on a
working order whose raw sizes add up to what it has open leave it filled, with nothing open
and filled to its total. -/
theorem ReachableUnder.counts_sound (h : a.ReachableUnder CountsGuarded) :
    (∀ i r, a.orders.get? i = some r →
      ∃ ins, a.instrument? r.order.securityId = some ins ∧ r.CountsSound ins.lot) ∧
    (∀ i r ns a', a.orders.get? i = some r → r.status.isTerminal = false →
      AcceptedFills i a ns a' → (ns.map Int64.toInt).sum = r.rawLeaves.toInt →
      ∃ r' ins, a'.orders.get? i = some r' ∧ a'.instrument? r'.order.securityId = some ins ∧
        r'.status = .filled ∧ r'.rawLeaves = 0 ∧ r'.rawCum = r'.rawQuantity ∧
        r'.order.leavesQuantity = Decimal.zero ∧
        r'.order.cumQuantity = r'.order.quantity) := by
  refine ⟨fun i r hr => (h.countsKept i r hr).1, ?_⟩
  intro i r ns a' hr hnt hf hsum
  obtain ⟨hreach, r', hr', hlive', hleft⟩ := hf.run h hr (.inr hnt)
  obtain ⟨⟨ins, hins, hfit, hq, hl, hc⟩, -⟩ := hreach.countsKept i r' hr'
  have hzero : r'.rawLeaves.toInt = 0 := by omega
  have hfilled : r'.status = .filled := by
    rcases hlive' with hs | hs
    · exact hs
    · have := (hfit.working hs).1
      omega
  obtain ⟨-, hcum⟩ := hfit.2.2.2.1 hfilled
  have hleaves : r'.rawLeaves = 0 := Int64.toInt_inj.mp (by rw [hzero, Int64.toInt_zero])
  have hcum' : r'.rawCum = r'.rawQuantity := Int64.toInt_inj.mp hcum
  refine ⟨r', ins, hr', hins, hfilled, hleaves, hcum', ?_, ?_⟩
  · rw [hl, hleaves, Precision.fromRaw_zero]
  · rw [hc, hq, hcum']

def partlyFilled : List Command :=
  [Sample.listBtcPerp, .newOrder Sample.buyTen, .confirmNewOrder "a" "v", Sample.fillA 4]

/-- That session is guarded, so its account keeps its counts sound. -/
theorem partly_filled_counts_sound :
    ∃ a, Sample.session partlyFilled = some a ∧ a.ReachableUnder CountsGuarded ∧
    ((∀ i r, a.orders.get? i = some r →
      ∃ ins, a.instrument? r.order.securityId = some ins ∧ r.CountsSound ins.lot) ∧
    (∀ i r ns a', a.orders.get? i = some r → r.status.isTerminal = false →
      AcceptedFills i a ns a' → (ns.map Int64.toInt).sum = r.rawLeaves.toInt →
      ∃ r' ins, a'.orders.get? i = some r' ∧ a'.instrument? r'.order.securityId = some ins ∧
        r'.status = .filled ∧ r'.rawLeaves = 0 ∧ r'.rawCum = r'.rawQuantity ∧
        r'.order.leavesQuantity = Decimal.zero ∧
        r'.order.cumQuantity = r'.order.quantity)) := by
  have hs : Sample.session partlyFilled = some _ := rfl
  have hadm : ∀ a₀, Account.create ⟨"binance", "main"⟩ Config.default = .ok a₀ →
      Admits CountsGuarded a₀ partlyFilled := by
    intro a₀ h₀
    cases h₀
    refine ⟨⟨fun x _ hc _ o ho => ?_, fun _ _ _ hc => (by cases hc),
      fun _ _ _ _ _ _ _ hc => by cases hc⟩, fun a₁ _ h₁ => ?_⟩
    · cases hc
      cases ho
    cases h₁
    refine ⟨⟨fun _ _ hc => (by cases hc), fun o ins raw hc hins hraw => ?_,
      fun _ _ _ _ _ _ _ hc => by cases hc⟩, fun a₂ _ h₂ => ?_⟩
    · cases hc
      cases hins
      cases hraw
      decide
    cases h₂
    refine ⟨⟨fun _ _ hc => (by cases hc), fun _ _ _ hc => (by cases hc),
      fun _ _ _ _ _ _ _ hc => by cases hc⟩, fun a₃ _ h₃ => ?_⟩
    cases h₃
    refine ⟨countsGuarded_fill fun i r hi hr => ?_, fun _ _ _ => trivial⟩
    cases hi
    cases hr
    decide
  have hreach : _ := ReachableUnder.of_session hadm hs
  exact ⟨_, hs, hreach, ReachableUnder.counts_sound hreach⟩

def subLotOrder : List Command :=
  [Sample.listBtcPerp, .newOrder { Sample.buyTen with
    quantity := Decimal.ofParts false 1 6, leavesQuantity := Decimal.ofParts false 1 6 }]

def rejectedOrderFilled : List Command :=
  [.sync ⟨[Security.btcusdPerp], [{ Sample.buyTen with
      venueOrderId := some "v", leavesQuantity := Decimal.ofParts false 5 0,
      status := .rejected }], [], [], none, none⟩,
   Sample.fillA 5]

/-- Without the last two guards, runs whose snapshots fit reach unsound counts: a new order
below one lot is stored pending with no raw lot open, and five lots filled on a rejected order
leave it filled with five of its ten lots filled. -/
theorem counts_unsound_without_guards :
    (∃ a r, Sample.session subLotOrder = some a ∧ a.ReachableUnder SnapshotsFit ∧
      a.orders.get? 0 = some r ∧ r.status = .pendingNew ∧ r.rawLeaves.toInt = 0 ∧
      ¬ r.RawCountsFit) ∧
    (∃ a r, Sample.session rejectedOrderFilled = some a ∧ a.ReachableUnder SnapshotsFit ∧
      a.orders.get? 0 = some r ∧ r.status = .filled ∧ r.rawCum.toInt = 5 ∧
      r.rawQuantity.toInt = 10 ∧ ¬ r.RawCountsFit) := by
  have hs₁ : Sample.session subLotOrder = some _ := rfl
  have hs₂ : Sample.session rejectedOrderFilled = some _ := rfl
  have hfit₁ : ∀ c ∈ subLotOrder, ∀ b, SnapshotsFit b c := by
    intro c hc b x _ hx _ o ho
    simp only [subLotOrder, List.mem_cons, List.not_mem_nil, or_false] at hc
    rcases hc with rfl | rfl <;> cases hx
    cases ho
  have hfit₂ : ∀ a₀, Account.create ⟨"binance", "main"⟩ Config.default = .ok a₀ →
      Admits SnapshotsFit a₀ rejectedOrderFilled := by
    intro a₀ h₀
    cases h₀
    refine ⟨fun x views hx hv o ho ins q l cum hins hq hl hcum => ?_,
      fun a₁ _ _ => ⟨fun _ _ hx => (by cases hx), fun _ _ _ => trivial⟩⟩
    cases hx
    cases hv
    simp only [List.mem_cons, List.not_mem_nil, or_false] at ho
    subst ho
    cases hins
    cases hq
    cases hl
    cases hcum
    decide
  exact ⟨⟨_, _, hs₁, .of_session (fun a₀ _ => admits_of_forall hfit₁ a₀) hs₁, rfl, rfl,
      by decide, by decide⟩,
    ⟨_, _, hs₂, .of_session hfit₂ hs₂, rfl, rfl, by decide, by decide, by decide⟩⟩

end Account

end TradeLedger
