import TradeLedger.Proofs.Slots

/-!
# Where a refused cancel or replace sends an order

A cancel or a replace is requested from a resting order, and the order remembers the status it
rests in; a fill while the request waits turns that into `partiallyFilled`. A refusal of the
request (the venue's, a report that the order is gone, or a confirmed replace that the fills
overtook) sends the order back there, with its price and size as they were, its fills as they
landed and no amendment.

A snapshot is the exception. It stores every reported order with the reported status as the
one to fall back to, so an order reported waiting on a cancel or a replace falls back to that
same waiting status, and a refusal leaves it waiting. On runs whose snapshots report no such
order (`Account.ReportsNoWaiting`) the fallback is always resting.
-/

namespace TradeLedger

namespace OrderRecord

/-- Waiting on the venue's answer to a cancel or a replace. -/
def Waiting (r : OrderRecord) : Prop := r.status = .pendingCancel ∨ r.status = .pendingReplace

/-- A waiting record falls back to a resting status. -/
def FallbackResting (r : OrderRecord) : Prop :=
  r.Waiting → r.previousStatus = .new ∨ r.previousStatus = .partiallyFilled

/-- Record `r'` is `r` sent back to its fallback status: the amendment is dropped, and price,
size and fills are as they were. -/
def FallsBackFrom (r r' : OrderRecord) : Prop :=
  r'.status = r.previousStatus ∧ r'.order.price = r.order.price ∧
    r'.rawQuantity = r.rawQuantity ∧ r'.rawLeaves = r.rawLeaves ∧ r'.rawCum = r.rawCum ∧
    r'.amendment = none

theorem fallsBackFrom_restorePrevious (r : OrderRecord) (lot : Precision) :
    r.FallsBackFrom (r.restorePrevious.refresh lot) :=
  ⟨rfl, rfl, rfl, rfl, rfl, rfl⟩

/-- Record `r` still waits on the request made from record `r₀`: its price and size are as they
were, fills have only been added, and it falls back to `r₀`'s status until a fill lands and to
`partiallyFilled` after. -/
def WaitsSince (r₀ r : OrderRecord) : Prop :=
  r.order.price = r₀.order.price ∧ r.rawQuantity = r₀.rawQuantity ∧
    r₀.rawCum.toInt ≤ r.rawCum.toInt ∧
    r.previousStatus = if r.rawCum = r₀.rawCum then r₀.status else .partiallyFilled

end OrderRecord

/-- The commands that refuse the cancel or the replace that the order `ref` reaches waits on,
and answer a report when they do. -/
def Command.RefusesRequest (c : Command) (ref : OrderRef) : Prop :=
  (∃ reason, c = .rejectCancelOrder ref reason) ∨ (∃ reason, c = .rejectReplaceOrder ref reason) ∨
    c = .pendingFilled ref

namespace Account

/-- Snapshots that report no order waiting on a cancel or a replace. -/
def ReportsNoWaiting (_ : Account) (c : Command) : Prop :=
  ∀ x, c = .sync x → ∀ o ∈ x.orders, o.status ≠ .pendingCancel ∧ o.status ≠ .pendingReplace

def WaitingAt (i : Nat) (b : Account) : Prop := ∃ s, b.orders.get? i = some s ∧ s.Waiting

end Account

/-! ## The fallback of every waiting record -/

section Invariant

theorem AccountM.refusalOf_eq_none_not_waiting {r : OrderRecord}
    (hs : AccountM.refusalOf r.status = none) : ¬ r.Waiting := by
  rcases AccountM.refusalOf_eq_none.mp hs with h | h <;> simp [OrderRecord.Waiting, h]

theorem fallbackResting_invariant : RecordInvariant fun _ r => r.FallbackResting where
  move := by
    intro _ r f _ _ hf hr hw
    cases hf with
    | requestCancel hs | requestAmend hs _ =>
      simpa [OrderRecord.refresh, OrderRecord.requestAmend, OrderRecord.beginPending,
        OrderRecord.status] using AccountM.refusalOf_eq_none.mp hs
    | restore hs =>
      simp only [OrderRecord.Waiting, OrderRecord.refresh_status,
        OrderRecord.restorePrevious_status] at hw
      rcases hr hs with hp | hp <;> simp [hp] at hw
    | amend | acknowledge | reject | cancel | expire =>
      simp [OrderRecord.Waiting] at hw
  claim := fun _ _ _ hr => hr

theorem OrderRecord.fallbackResting_fill (r : OrderRecord) (t : TradeId) (leaves cum : Int64)
    (lot : Precision) : ((r.fill t leaves cum).refresh lot).FallbackResting := by
  simp only [OrderRecord.FallbackResting, OrderRecord.Waiting, OrderRecord.refresh,
    OrderRecord.fill, OrderRecord.noteTrade, OrderRecord.status]
  split_ifs <;> simp_all

namespace Account

variable {a : Account}

theorem ReachableUnder.fallbacksResting (h : a.ReachableUnder ReportsNoWaiting) :
    a.EveryRecord fun _ r => r.FallbackResting := by
  induction h with
  | create hc =>
    intro i r hr
    simp [(create_orders hc).1] at hr
  | step hreach hallowed hstep ih =>
    have hwf := hreach.wellFormed
    refine fallbackResting_invariant.effect hwf.free ih (handle_handled hwf.known hstep).effect
      (fun _ _ _ _ _ _ r _ _ _ _ _ _ _ _ _ _ => r.fallbackResting_fill _ _ _ _)
      (fun _ _ _ _ _ hs _ _ hw => ?_) (fun x _ _ hc _ hb i r hr hw => ?_)
    · simp [OrderRecord.Waiting, OrderRecord.refresh, OrderRecord.create, OrderRecord.status,
        hs] at hw
    · obtain ⟨o, ho, _, _, _, _, _, _, _, _, rfl⟩ := (rebuildOrders_records hb).2 i r hr
      have hnw := hallowed x hc o ho
      simp only [OrderRecord.Waiting, OrderRecord.refresh_status, OrderRecord.create_status] at hw
      tauto

end Account

end Invariant

/-! ## Refusals -/

namespace Account

variable {a a' : Account}

theorem answer_eq_ok {α : Type} {m : AccountM α} {wrap : α → Response} {resp : Response}
    (h : a.answer m wrap = .ok (a', resp)) (hresp : resp.isError = false) :
    ∃ x, m.run a = .ok (.ok x, a') ∧ wrap x = resp := by
  unfold answer at h
  split at h
  · cases h
  · rename_i x a₁ hrun
    cases h
    exact ⟨x, hrun, rfl⟩
  · cases h
    simp [Response.isError] at hresp

/-- A transition by `f` of the record that `ref` reaches, once the record passed a guard. -/
def RefusedAt (a a' : Account) (ref : OrderRef) (guard : OrderRecord → Prop) : Prop :=
  ∃ i r ins, a.orders.lookup ref = some i ∧ a.orders.get? i = some r ∧ guard r ∧
    a.instrument? r.order.securityId = some ins ∧
    a' = a.moved i ins.lot .rejected OrderRecord.restorePrevious r

/-- A transition of a live record that answers leaves the account with the record moved. -/
theorem moved_of_transition {β : Type} {f : OrderRecord → OrderRecord} {e : ExecutionType}
    {i : Nat} {r : OrderRecord} {k : ExecutionReport → β} {x : β}
    (hr : a.orders.get? i = some r)
    (h : (k <$> AccountM.transition i e f).run a = .ok (.ok x, a')) :
    ∃ ins, a.instrument? r.order.securityId = some ins ∧ a' = a.moved i ins.lot e f r := by
  rw [AccountM.run_map, AccountM.run_transition, hr] at h
  cases hins : a.instrument? r.order.securityId with
  | none => simp [hins] at h
  | some ins =>
    simp only [hins] at h
    cases h
    exact ⟨ins, rfl, rfl⟩

theorem rejectCancelOrder_report {ref : OrderRef} {reason : RejectReason} {rep : ExecutionReport}
    (h : a.handle (.rejectCancelOrder ref reason) = .ok (a', .report (some rep))) :
    RefusedAt a a' ref (·.status = .pendingCancel) := by
  obtain ⟨x, hrun, hx⟩ := answer_eq_ok h rfl
  cases hx
  simp only [AccountM.rejectCancelOrder] at hrun
  obtain ⟨i, r, hl, hr, hrun⟩ := AccountM.run_found hrun
  simp only [AccountM.run_ite, bind_pure_comp] at hrun
  split at hrun
  · cases hrun
  · obtain ⟨ins, hins, rfl⟩ := moved_of_transition hr hrun
    exact ⟨i, r, ins, hl, hr, not_not.mp ‹_›, hins, rfl⟩

theorem rejectReplaceOrder_report {ref : OrderRef} {reason : RejectReason} {rep : ExecutionReport}
    (h : a.handle (.rejectReplaceOrder ref reason) = .ok (a', .report (some rep))) :
    RefusedAt a a' ref (·.status = .pendingReplace) := by
  obtain ⟨x, hrun, hx⟩ := answer_eq_ok h rfl
  cases hx
  simp only [AccountM.rejectReplaceOrder] at hrun
  obtain ⟨i, r, hl, hr, hrun⟩ := AccountM.run_found hrun
  simp only [AccountM.run_ite, bind_pure_comp] at hrun
  split at hrun
  · cases hrun
  · obtain ⟨ins, hins, rfl⟩ := moved_of_transition hr hrun
    exact ⟨i, r, ins, hl, hr, not_not.mp ‹_›, hins, rfl⟩

theorem pendingFilled_report {ref : OrderRef} {rep : ExecutionReport}
    (h : a.handle (.pendingFilled ref) = .ok (a', .report (some rep))) :
    RefusedAt a a' ref OrderRecord.Waiting := by
  obtain ⟨x, hrun, hx⟩ := answer_eq_ok h rfl
  cases hx
  simp only [AccountM.pendingFilled] at hrun
  obtain ⟨i, r, hl, hr, hrun⟩ := AccountM.run_found hrun
  simp only [bind_pure_comp] at hrun
  split at hrun
  · obtain ⟨ins, hins, rfl⟩ := moved_of_transition hr hrun
    exact ⟨i, r, ins, hl, hr, .inl ‹_›, hins, rfl⟩
  · obtain ⟨ins, hins, rfl⟩ := moved_of_transition hr hrun
    exact ⟨i, r, ins, hl, hr, .inr ‹_›, hins, rfl⟩
  · cases hrun

theorem refusesRequest_report {c : Command} {ref : OrderRef} {rep : ExecutionReport}
    (hc : c.RefusesRequest ref) (h : a.handle c = .ok (a', .report (some rep))) :
    RefusedAt a a' ref OrderRecord.Waiting := by
  rcases hc with ⟨reason, rfl⟩ | ⟨reason, rfl⟩ | rfl
  · obtain ⟨i, r, ins, hl, hr, hs, hins, rfl⟩ := rejectCancelOrder_report h
    exact ⟨i, r, ins, hl, hr, .inl hs, hins, rfl⟩
  · obtain ⟨i, r, ins, hl, hr, hs, hins, rfl⟩ := rejectReplaceOrder_report h
    exact ⟨i, r, ins, hl, hr, .inr hs, hins, rfl⟩
  · exact pendingFilled_report h

/-- A confirmed replace whose new size the fills in flight reached is refused with
`incorrectQuantity`, and the record goes back to its fallback. -/
theorem handle_confirmReplaceOrder_overtaken {ref : OrderRef} {v : Option VenueOrderId} {i : Nat}
    {r : OrderRecord} {q : Int64} {ins : Instrument} (hl : a.orders.lookup ref = some i)
    (hr : a.orders.get? i = some r) (hs : r.status = .pendingReplace)
    (hq : (r.amendment.getD ⟨none, none⟩).rawQuantity = some q) (hle : q.toInt ≤ r.rawCum.toInt)
    (hins : a.instrument? r.order.securityId = some ins) :
    a.handle (.confirmReplaceOrder ref v) =
      .ok (a.moved i ins.lot .rejected OrderRecord.restorePrevious r,
        .error (LedgerError.rejected .incorrectQuantity).toApi) := by
  have hrun : (AccountM.confirmReplaceOrder ref v).run a =
      .ok (.error (.rejected .incorrectQuantity), a.moved i ins.lot .rejected
        OrderRecord.restorePrevious r) := by
    simp only [AccountM.confirmReplaceOrder, AccountM.run_indexOf_bind, hl,
      AccountM.run_recordAt_bind, hr, hs, OrderStatus.isResting, Bool.false_eq_true, if_false,
      ne_eq, not_true_eq_false, hq, hle, if_true]
    rw [AccountM.run_bind, AccountM.run_transition, hr]
    simp only [hins, AccountM.run_throw_bind]
  simp only [handle, answer, hrun]

theorem RefusedAt.fallsBack {ref : OrderRef} {guard : OrderRecord → Prop}
    (h : RefusedAt a a' ref guard) :
    ∃ i r r', a.orders.lookup ref = some i ∧ a.orders.get? i = some r ∧ guard r ∧
      a'.orders.get? i = some r' ∧ r.FallsBackFrom r' := by
  obtain ⟨i, r, ins, hl, hr, hg, -, rfl⟩ := h
  exact ⟨i, r, _, hl, hr, hg, OrderBook.get?_modify_of_get? _ hr,
    OrderRecord.fallsBackFrom_restorePrevious r ins.lot⟩

end Account

/-! ## The wait after a request -/

namespace OrderRecord

variable {r₀ r s : OrderRecord}

theorem waitsSince_request (r₀ : OrderRecord) (s : OrderStatus) (am : Option Amendment)
    (lot : Precision) :
    r₀.WaitsSince ({ r₀.beginPending s with amendment := am }.refresh lot) :=
  ⟨rfl, rfl, le_refl _, by simp [beginPending, refresh, status]⟩

/-- A waiting record that falls back to a resting status and that a command leaves waiting was
kept, or filled with lots still open. -/
theorem Becomes.kept_or_filled (hb : r.Becomes (some s)) (hr : r.Waiting)
    (hrest : r.previousStatus = .new ∨ r.previousStatus = .partiallyFilled) (hs : s.Waiting) :
    s = r ∨ ∃ t n cum lot, 0 < n.toInt ∧ n.toInt ≤ r.rawLeaves.toInt ∧
      Word.add? r.rawCum n = some cum ∧ (Int64.ofInt (r.rawLeaves.toInt - n.toInt)).toInt ≠ 0 ∧
      s = (r.fill t (Int64.ofInt (r.rawLeaves.toInt - n.toInt)) cum).refresh lot := by
  cases hb with
  | keep => exact .inl rfl
  | move hf =>
    cases hf with
    | acknowledge h | reject h => simp [Waiting, h] at hr
    | requestCancel h | requestAmend h _ =>
      exact absurd hr (AccountM.refusalOf_eq_none_not_waiting h)
    | restore =>
      simp only [Waiting, refresh_status, restorePrevious_status] at hs
      rcases hrest with h | h <;> simp [h] at hs
    | amend | cancel | expire => simp [Waiting] at hs
  | @fill t n cum lot hpos hle hadd =>
    have hopen : (Int64.ofInt (r.rawLeaves.toInt - n.toInt)).toInt ≠ 0 := by
      intro h0
      simp only [Waiting, refresh_status, fill_status, h0, if_true] at hs
      simp at hs
    exact .inr ⟨t, n, cum, lot, hpos, hle, hadd, hopen, rfl⟩

theorem WaitsSince.becomes (hw : r₀.WaitsSince r) (h₀ : r₀.status = .new ∨ r₀.status = .partiallyFilled)
    (hr : r.Waiting) (hb : r.Becomes (some s)) (hs : s.Waiting) : r₀.WaitsSince s := by
  obtain ⟨hprice, hqty, hcum, hprev⟩ := hw
  -- The fallback so far is resting, so the wait cannot go back to it and still wait.
  have hrest : r.previousStatus = .new ∨ r.previousStatus = .partiallyFilled := by
    rw [hprev]
    split_ifs
    · exact h₀
    · exact .inr rfl
  rcases hb.kept_or_filled hr hrest hs with rfl | ⟨t, n, cum, lot, hpos, -, hadd, hleaves, rfl⟩
  · exact ⟨hprice, hqty, hcum, hprev⟩
  · have hcum' : cum.toInt = r.rawCum.toInt + n.toInt := Word.toInt_of_ofInt? hadd
    have hne : cum ≠ r₀.rawCum := fun he => by rw [he] at hcum'; omega
    refine ⟨by simpa using hprice, by simpa using hqty, by simp only [refresh_rawCum, fill_rawCum]; omega, ?_⟩
    rw [refresh_previousStatus, fill_previousStatus_of_waiting r t cum hleaves hr, refresh_rawCum,
      fill_rawCum, if_neg hne]

theorem WaitsSince.step (hw : r₀.WaitsSince r) (h₀ : r₀.status = .new ∨ r₀.status = .partiallyFilled)
    (hr : r.Waiting) (hst : r.Step (some s)) (hs : s.Waiting) : r₀.WaitsSince s := by
  rcases hst with hb | ⟨v, hb⟩
  · exact hw.becomes h₀ hr hb hs
  · exact WaitsSince.becomes (r := r.withVenueId v) hw h₀ hr hb hs

end OrderRecord

namespace Account

variable {a a' b : Account}

/-- An accepted cancel moves the record that `ref` reaches from a resting status into
`pendingCancel`. -/
theorem cancelOrder_accepted {ref : OrderRef} {rep : ExecutionReport}
    (h : a.handle (.cancelOrder ref) = .ok (a', .report (some rep))) :
    ∃ i r ins, a.orders.lookup ref = some i ∧ a.orders.get? i = some r ∧
      AccountM.refusalOf r.status = none ∧ a.instrument? r.order.securityId = some ins ∧
      a' = a.moved i ins.lot .pendingCancel (·.beginPending .pendingCancel) r := by
  obtain ⟨x, hrun, -⟩ := answer_eq_ok h rfl
  simp only [AccountM.cancelOrder] at hrun
  obtain ⟨i, r, hl, hr, hrun⟩ := AccountM.run_found hrun
  cases hs : AccountM.refusalOf r.status with
  | some reason => simp [hs] at hrun
  | none =>
    simp only [hs] at hrun
    rw [AccountM.run_transition, hr] at hrun
    cases hins : a.instrument? r.order.securityId with
    | none => simp [hins] at hrun
    | some ins =>
      simp only [hins] at hrun
      cases hrun
      exact ⟨i, r, ins, hl, hr, hs, hins, rfl⟩

/-- An accepted replace moves the record that `ref` reaches from a resting status into
`pendingReplace` with an amendment. -/
theorem replaceOrder_accepted {ref : OrderRef} {price quantity : Option Decimal}
    {rep : ExecutionReport}
    (h : a.handle (.replaceOrder ref price quantity) = .ok (a', .report (some rep))) :
    ∃ i r ins am, a.orders.lookup ref = some i ∧ a.orders.get? i = some r ∧
      AccountM.refusalOf r.status = none ∧ a.instrument? r.order.securityId = some ins ∧
      a' = a.moved i ins.lot .pendingReplace (OrderRecord.requestAmend am) r := by
  obtain ⟨x, hrun, -⟩ := answer_eq_ok h rfl
  rcases AccountM.replaceOrder_cases hrun with ⟨e, he, -⟩ |
    ⟨i, r, ins, am, hl, hr, hs, hins, -, -, -, -, hrun⟩
  · cases he
  rw [AccountM.run_transition] at hrun
  simp only [hr, hins] at hrun
  cases hrun
  exact ⟨i, r, ins, am, hl, hr, hs, hins, rfl⟩

/-- After an accepted cancel or replace, through any commands other than a snapshot that keep the
order waiting, the order keeps its price and size and falls back to the resting status it was
requested from, or to `partiallyFilled` once a fill has landed. -/
theorem waitsSince_after_request {c : Command} {ref : OrderRef} {rep : ExecutionReport} {i : Nat}
    {r₀ : OrderRecord} (ha : a.Reachable)
    (hc : c = .cancelOrder ref ∨ ∃ p q, c = .replaceOrder ref p q)
    (h : a.handle c = .ok (a', .report (some rep))) (hl : a.orders.lookup ref = some i)
    (hr₀ : a.orders.get? i = some r₀) (hrun : a'.RunWhile (WaitingAt i) b) :
    (r₀.status = .new ∨ r₀.status = .partiallyFilled) ∧
      ∃ r, b.orders.get? i = some r ∧ r.Waiting ∧ r₀.WaitsSince r := by
  obtain ⟨h₀, hstart⟩ : (r₀.status = .new ∨ r₀.status = .partiallyFilled) ∧
      ∃ r, a'.orders.get? i = some r ∧ r.Waiting ∧ r₀.WaitsSince r := by
    rcases hc with rfl | ⟨p, q, rfl⟩
    · obtain ⟨j, r, ins, hl', hr, hs, -, rfl⟩ := cancelOrder_accepted h
      rw [hl, Option.some.injEq] at hl'
      subst hl'
      rw [hr₀, Option.some.injEq] at hr
      subst hr
      exact ⟨AccountM.refusalOf_eq_none.mp hs, _, OrderBook.get?_modify_of_get? _ hr₀,
        .inl rfl, r₀.waitsSince_request .pendingCancel r₀.amendment ins.lot⟩
    · obtain ⟨j, r, ins, am, hl', hr, hs, -, rfl⟩ := replaceOrder_accepted h
      rw [hl, Option.some.injEq] at hl'
      subst hl'
      rw [hr₀, Option.some.injEq] at hr
      subst hr
      exact ⟨AccountM.refusalOf_eq_none.mp hs, _, OrderBook.get?_modify_of_get? _ hr₀,
        .inr rfl, r₀.waitsSince_request .pendingReplace (some am) ins.lot⟩
  refine ⟨h₀, ?_⟩
  have hreach : a'.Reachable := .step ha trivial h
  exact hrun.record (Q := fun r => r.Waiting ∧ r₀.WaitsSince r)
    (fun _ _ ⟨hr, hw⟩ hst hs => ⟨hs, hw.step h₀ hr hst hs⟩) hreach hstart

/-! ## Every refusal of a request -/

/-- On every reachable account a waiting order falls back to a resting status or to its own
waiting status, and to a resting one on runs whose snapshots report no waiting order. A refusal
of its request that answers a report, and a confirmed replace that the fills overtook, send it
back there with its price, size and fills as they were and its amendment dropped. After an
accepted cancel or replace, through any commands but a snapshot that keep the order waiting, it
falls back to the resting status it was requested from, or to `partiallyFilled` once a fill has
landed. -/
theorem Reachable.refusal_restores_fallback (ha : a.Reachable) :
    (∀ i r, a.orders.get? i = some r → r.Waiting →
      r.previousStatus = .new ∨ r.previousStatus = .partiallyFilled ∨
        r.previousStatus = r.status) ∧
    (a.ReachableUnder ReportsNoWaiting → ∀ i r, a.orders.get? i = some r → r.Waiting →
      r.previousStatus = .new ∨ r.previousStatus = .partiallyFilled) ∧
    (∀ c ref a' rep, c.RefusesRequest ref → a.handle c = .ok (a', .report (some rep)) →
      ∃ i r r', a.orders.lookup ref = some i ∧ a.orders.get? i = some r ∧ r.Waiting ∧
        a'.orders.get? i = some r' ∧ r.FallsBackFrom r' ∧
        (r'.status = .new ∨ r'.status = .partiallyFilled ∨ r'.status = r.status)) ∧
    (∀ ref v i r q, a.orders.lookup ref = some i → a.orders.get? i = some r →
      r.status = .pendingReplace → (r.amendment.getD ⟨none, none⟩).rawQuantity = some q →
      q.toInt ≤ r.rawCum.toInt → ∃ a' r', a.handle (.confirmReplaceOrder ref v) =
        .ok (a', .error (LedgerError.rejected .incorrectQuantity).toApi) ∧
        a'.orders.get? i = some r' ∧ r.FallsBackFrom r' ∧
        (r'.status = .new ∨ r'.status = .partiallyFilled ∨ r'.status = r.status)) ∧
    (∀ c ref rep a' i r₀ b, (c = .cancelOrder ref ∨ ∃ p q, c = .replaceOrder ref p q) →
      a.handle c = .ok (a', .report (some rep)) → a.orders.lookup ref = some i →
      a.orders.get? i = some r₀ → a'.RunWhile (WaitingAt i) b →
      (r₀.status = .new ∨ r₀.status = .partiallyFilled) ∧ ∃ r, b.orders.get? i = some r ∧
        r.Waiting ∧ r.order.price = r₀.order.price ∧ r.rawQuantity = r₀.rawQuantity ∧
        r.previousStatus = if r.rawCum = r₀.rawCum then r₀.status else .partiallyFilled) := by
  have hwf := ReachableUnder.wellFormed ha
  have hback : ∀ i r r', a.orders.get? i = some r → r.Waiting → r.FallsBackFrom r' →
      r'.status = .new ∨ r'.status = .partiallyFilled ∨ r'.status = r.status :=
    fun i r _ hr hw hfb => hfb.1 ▸ hwf.fallback i r hr hw
  refine ⟨fun i r hr hw => hwf.fallback i r hr hw,
    fun h i r hr hw => h.fallbacksResting i r hr hw, ?_, ?_, ?_⟩
  · intro c ref a' rep hc h
    obtain ⟨i, r, r', hl, hr, hw, hr', hfb⟩ := (refusesRequest_report hc h).fallsBack
    exact ⟨i, r, r', hl, hr, hw, hr', hfb, hback i r r' hr hw hfb⟩
  · intro ref v i r q hl hr hs hq hle
    obtain ⟨ins, hins⟩ := hwf.known i r hr
    refine ⟨_, _, handle_confirmReplaceOrder_overtaken hl hr hs hq hle hins,
      OrderBook.get?_modify_of_get? _ hr, OrderRecord.fallsBackFrom_restorePrevious r ins.lot,
      hback i r _ hr (.inr hs) (OrderRecord.fallsBackFrom_restorePrevious r ins.lot)⟩
  · intro c ref rep a' i r₀ b hc h hl hr₀ hrun
    obtain ⟨h₀, r, hr, hw, hprice, hqty, -, hprev⟩ := waitsSince_after_request ha hc h hl hr₀ hrun
    exact ⟨h₀, r, hr, hw, hprice, hqty, hprev⟩

end Account

namespace Sample

def cancelRequested : List Command :=
  [listBtcPerp, .newOrder buyTen, .confirmNewOrder "a" "v", .cancelOrder (.client "a")]

def reportWaitingCancel : Command :=
  .sync ⟨[Security.btcusdPerp], [{ buyTen with venueOrderId := some "v", status := .pendingCancel }],
    [], [], none, none⟩

end Sample

namespace Account

/-- The account in which order "a" waits on its cancel is reachable, and everything above
holds of it. -/
theorem cancel_requested_restores_fallback :
    ∃ a, Sample.session Sample.cancelRequested = some a ∧ a.Reachable ∧
    ((∀ i r, a.orders.get? i = some r → r.Waiting →
      r.previousStatus = .new ∨ r.previousStatus = .partiallyFilled ∨
        r.previousStatus = r.status) ∧
    (a.ReachableUnder ReportsNoWaiting → ∀ i r, a.orders.get? i = some r → r.Waiting →
      r.previousStatus = .new ∨ r.previousStatus = .partiallyFilled) ∧
    (∀ c ref a' rep, c.RefusesRequest ref → a.handle c = .ok (a', .report (some rep)) →
      ∃ i r r', a.orders.lookup ref = some i ∧ a.orders.get? i = some r ∧ r.Waiting ∧
        a'.orders.get? i = some r' ∧ r.FallsBackFrom r' ∧
        (r'.status = .new ∨ r'.status = .partiallyFilled ∨ r'.status = r.status)) ∧
    (∀ ref v i r q, a.orders.lookup ref = some i → a.orders.get? i = some r →
      r.status = .pendingReplace → (r.amendment.getD ⟨none, none⟩).rawQuantity = some q →
      q.toInt ≤ r.rawCum.toInt → ∃ a' r', a.handle (.confirmReplaceOrder ref v) =
        .ok (a', .error (LedgerError.rejected .incorrectQuantity).toApi) ∧
        a'.orders.get? i = some r' ∧ r.FallsBackFrom r' ∧
        (r'.status = .new ∨ r'.status = .partiallyFilled ∨ r'.status = r.status)) ∧
    (∀ c ref rep a' i r₀ b, (c = .cancelOrder ref ∨ ∃ p q, c = .replaceOrder ref p q) →
      a.handle c = .ok (a', .report (some rep)) → a.orders.lookup ref = some i →
      a.orders.get? i = some r₀ → a'.RunWhile (WaitingAt i) b →
      (r₀.status = .new ∨ r₀.status = .partiallyFilled) ∧ ∃ r, b.orders.get? i = some r ∧
        r.Waiting ∧ r.order.price = r₀.order.price ∧ r.rawQuantity = r₀.rawQuantity ∧
        r.previousStatus = if r.rawCum = r₀.rawCum then r₀.status else .partiallyFilled)) := by
  have hs : Sample.session Sample.cancelRequested = some _ := rfl
  exact ⟨_, hs, .of_session hs, Reachable.refusal_restores_fallback (.of_session hs)⟩

/-- A snapshot may report order "a" waiting on a cancel. It then falls back to that waiting
status, and the venue's refusal of the cancel answers a report that leaves it waiting. -/
theorem reported_waiting_cancel_stays_waiting :
    ∃ a a' rep r, Sample.session [Sample.reportWaitingCancel] = some a ∧ a.Reachable ∧
      a.orders.get? 0 = some r ∧ r.status = .pendingCancel ∧ r.previousStatus = .pendingCancel ∧
      a.handle (.rejectCancelOrder (.client "a") .other) = .ok (a', .report (some rep)) ∧
      rep.orderStatus = .pendingCancel ∧
      (a'.order? (.client "a")).map (·.status) = some .pendingCancel := by
  have hs : Sample.session [Sample.reportWaitingCancel] = some _ := rfl
  exact ⟨_, _, _, _, hs, .of_session hs, rfl, rfl, rfl, rfl, rfl, rfl⟩

end Account

end TradeLedger
