import TradeLedger.Proofs.Fallback
import TradeLedger.Proofs.BookConsistency

/-!
# Commands delivered twice

The venue delivers its acknowledgments at least once. Every command but a snapshot, handled a
second time right after the first, leaves the account as the first left it, and after a first
success the second answers quietly (`Response.Quiet`): no report, no reports, nothing pruned,
done, or a refusal by the ledger's rules. A repeated request is refused as already pending, a
repeated order as a duplicate, and a repeated acknowledgment finds the order past the status it
acknowledges.

The exception is a refusal of a request on an order that falls back to the very status it waits
in, which only a snapshot stores (`Account.RestoresToSelf`): the refusal leaves the order
waiting, so the next one refuses it again and logs it again.

A trade id is applied at most once: once a fill under it is accepted for an order, every later
fill of that order under the same id answers no report and changes nothing, whatever commands
other than a snapshot come between.
-/

namespace TradeLedger

/-- What a command answers when there is nothing left for it to do: no report, no reports,
nothing pruned, done, or a refusal by the ledger's rules. -/
def Response.Quiet : Response → Prop
  | .report none | .reports [] | .pruned 0 | .done => True
  | .error e => ∃ reason, e = (LedgerError.rejected reason).toApi
  | _ => False

theorem Response.Quiet.error {e : ApiError} (h : (Response.error e).Quiet) :
    e.code = "Rejected" ∧ e.fatal = false := by
  obtain ⟨reason, rfl⟩ := h
  exact ⟨rfl, rfl⟩

namespace OrderBook

variable {b : OrderBook}

@[simp] theorem lookup_modify (b : OrderBook) (i : Nat) (f : OrderRecord → OrderRecord)
    (ref : OrderRef) : (b.modify i f).lookup ref = b.lookup ref := by
  cases ref <;> rfl

@[simp] theorem lookup_client_assignVenueId (b : OrderBook) (i : Nat) (v : VenueOrderId)
    (c : ClientOrderId) : (b.assignVenueId i v).lookup (.client c) = b.lookup (.client c) := by
  simp [lookup]

theorem containsClient_insert (b : OrderBook) (r : OrderRecord) :
    (b.insert r).2.containsClient r.order.clientOrderId = true := by
  simp [containsClient, KeyMap.contains]

theorem slotsWhere_eq_nil {p : OrderRecord → Bool} (h : ∀ j r, b.get? j = some r → p r = false) :
    b.slotsWhere p = [] := by
  rw [List.eq_nil_iff_forall_not_mem]
  intro j hj
  obtain ⟨r, hr, hp⟩ := mem_slotsWhere.mp hj
  rw [h j r hr] at hp
  cases hp

theorem find?_discard_of_lookup {ref : OrderRef} {i : Nat} (hl : b.lookup ref = some i) :
    (b.discard i).find? ref = none := by
  cases hr : b.get? i with
  | none => simp [discard_of_get?_eq_none hr, find?, hl, hr]
  | some r =>
    have hgone : (b.discard i).get? i = none := by simp [get?_discard_eq]
    cases ref with
    | client c =>
      simp only [find?, lookup, get?_discard_byClient hr] at hl ⊢
      split_ifs <;> simp [hl, hgone]
    | venue v =>
      simp only [find?, lookup, get?_discard_byVenue hr] at hl ⊢
      split_ifs <;> simp [hl, hgone]

theorem lookup_assignVenueId {ref : OrderRef} {i : Nat} {r : OrderRecord}
    (hr : b.get? i = some r) (hl : b.lookup ref = some i) (v : VenueOrderId) :
    (b.assignVenueId i v).lookup ref = some i ∨ (b.assignVenueId i v).lookup ref = none := by
  cases ref with
  | client c => exact .inl (by simpa using hl)
  | venue k =>
    simp only [lookup, get?_assignVenueId_byVenue hr] at hl ⊢
    split_ifs <;> simp [hl]

end OrderBook

/-- Command `c` refuses the request that record `r`, reached by `ref`, waits on: a cancel
refused while it waits on a cancel, a replace while it waits on a replace, and either as gone. -/
def Command.RefusesWaiting (c : Command) (ref : OrderRef) (r : OrderRecord) : Prop :=
  (∃ reason, c = .rejectCancelOrder ref reason) ∧ r.status = .pendingCancel ∨
    (∃ reason, c = .rejectReplaceOrder ref reason) ∧ r.status = .pendingReplace ∨
    c = .pendingFilled ref ∧ r.Waiting

theorem OrderRecord.fill_tradeIds (r : OrderRecord) (t : TradeId) (leaves cum : Int64) :
    (r.fill t leaves cum).tradeIds = (r.noteTrade t).tradeIds := by
  simp only [OrderRecord.fill]
  split_ifs <;> rfl

namespace Account

variable {a a₁ b : Account} {c : Command} {resp : Response}

/-- Command `c` refuses the request of an order waiting on it, and the order falls back to the
status it waits in. -/
def RestoresToSelf (a : Account) (c : Command) : Prop :=
  ∃ ref i r, a.orders.lookup ref = some i ∧ a.orders.get? i = some r ∧
    c.RefusesWaiting ref r ∧ r.previousStatus = r.status

/-- Handling `c` again from `a₁`, where a first handling answered `resp`, leaves `a₁` as it is,
and answers quietly unless the first answer was a refusal. -/
def AbsorbsRepeat (a₁ : Account) (c : Command) (resp : Response) : Prop :=
  ∃ resp', a₁.handle c = .ok (a₁, resp') ∧ (resp.isError = false → resp'.Quiet)

def LiveAt (i : Nat) (b : Account) : Prop := ∃ s, b.orders.get? i = some s

theorem absorbsRepeat_of_refusal (hk : a.InstrumentsKnown)
    (hc : ∀ ref v, c ≠ .confirmReplaceOrder ref v) (h : a.handle c = .ok (a₁, resp))
    (he : resp.isError = true) : a₁.AbsorbsRepeat c resp := by
  cases resp with
  | error e =>
    rcases (handle_handled hk h).refused e rfl with rfl | ⟨_, -, ref, v, _, _, _, _, hcr, -⟩
    · exact ⟨_, h, fun h' => by cases h'⟩
    · exact absurd hcr (hc ref v)
  | _ => cases he

/-- A command answered through `wrap` absorbs its repeat when every answer leaves an account
from which the command changes nothing and answers quietly. -/
theorem absorbsRepeat_of_answer {α : Type} {m : AccountM α} {wrap : α → Response}
    (hk : a.InstrumentsKnown) (hc : ∀ ref v, c ≠ .confirmReplaceOrder ref v)
    (hh : a.handle c = a.answer m wrap)
    (hsettle : ∀ x, m.run a = .ok (.ok x, a₁) →
      ∃ resp', a₁.handle c = .ok (a₁, resp') ∧ resp'.Quiet)
    (h : a.handle c = .ok (a₁, resp)) : a₁.AbsorbsRepeat c resp := by
  cases hresp : resp.isError
  · rw [hh] at h
    obtain ⟨x, hrun, -⟩ := answer_eq_ok h hresp
    obtain ⟨resp', h', hq⟩ := hsettle x hrun
    exact ⟨resp', h', fun _ => hq⟩
  · exact absorbsRepeat_of_refusal hk hc h hresp

theorem run_unreached {β : Type} {ref : OrderRef} {f : Nat → OrderRecord → AccountM β}
    (h : b.orders.find? ref = none) :
    (AccountM.indexOf ref >>= fun i => AccountM.recordAt i >>= f i).run b =
      .ok (.error (.rejected .unknownOrder), b) := by
  rw [AccountM.run_indexOf_bind]
  cases hl : b.orders.lookup ref with
  | none => rfl
  | some i =>
    have hr : b.orders.get? i = none := by simpa [OrderBook.find?, hl] using h
    simp only [AccountM.run_recordAt_bind, hr]

theorem transition_answers {β : Type} {k : ExecutionReport → β} {x : β} {i : Nat}
    {e : ExecutionType} {f : OrderRecord → OrderRecord}
    (h : (k <$> AccountM.transition i e f).run a = .ok (.ok x, a₁)) : ∃ rep, k rep = x := by
  rw [AccountM.run_map, AccountM.run_transition] at h
  cases hr : a.orders.get? i with
  | none => simp [hr] at h
  | some r =>
    cases hins : a.instrument? r.order.securityId with
    | none => simp [hr, hins] at h
    | some ins =>
      simp only [hr, hins, Except.ok.injEq, Prod.mk.injEq] at h
      exact ⟨_, h.1⟩

end Account

/-! ## Each command a second time -/

namespace Account

variable {a a₁ b : Account} {resp : Response}

open AccountM in
theorem newOrder_stores {o : Order} {x : ExecutionReport}
    (h : (newOrder o).run a = .ok (.ok x, a₁)) :
    a₁.orders.containsClient o.clientOrderId = true := by
  rcases newOrder_cases h with ⟨e, he, -⟩ | ⟨ins, raw, p, r, -, -, -, -, rfl, -, rfl⟩
  · cases he
  · exact OrderBook.containsClient_insert _ _

theorem newOrder_absorbsRepeat {o : Order} (hk : a.InstrumentsKnown)
    (h : a.handle (.newOrder o) = .ok (a₁, resp)) : a₁.AbsorbsRepeat (.newOrder o) resp := by
  refine absorbsRepeat_of_answer hk (fun _ _ h => by cases h) rfl (fun x hrun => ?_) h
  have hdup := newOrder_stores hrun
  refine ⟨.error (LedgerError.rejected .duplicateOrder).toApi, ?_, _, rfl⟩
  simp only [handle, answer, AccountM.newOrder, AccountM.run_get_bind, hdup, if_true,
    AccountM.run_throw_bind]

open AccountM in
theorem confirmNewOrder_settles {cid : ClientOrderId} {v : VenueOrderId}
    {x : Option ExecutionReport} (h : (confirmNewOrder cid v).run a = .ok (.ok x, a₁)) :
    ∃ i s w, a₁.orders.lookup (.client cid) = some i ∧ a₁.orders.get? i = some s ∧
      s.order.venueOrderId = some w ∧ s.status ≠ .pendingNew := by
  obtain ⟨i, r, hl, hr, h⟩ := AccountM.run_found h
  simp only [run_ite, run_claimVenueId_bind] at h
  split at h
  · cases hown : a.orders.venueOwner v (some i) with
    | some owner => simp [hown] at h
    | none =>
      simp only [hown] at h
      have hr' : (a.claimed i v).orders.get? i = some (r.withVenueId v) := by
        simp [OrderBook.get?_assignVenueId, hr, OrderRecord.withVenueId]
      have hl' : (a.claimed i v).orders.lookup (.client cid) = some i := by simpa using hl
      split at h
      · rename_i hst
        cases h
        exact ⟨i, _, v, hl', hr', rfl, hst⟩
      · obtain ⟨ins, -, rfl⟩ := moved_of_transition hr' h
        exact ⟨i, _, v, by simpa using hl', OrderBook.get?_modify_of_get? _ hr', rfl, by simp⟩
  · rename_i hnone
    cases hw : r.order.venueOrderId with
    | none => simp [hw] at hnone
    | some w =>
      split at h
      · rename_i hst
        cases h
        exact ⟨i, r, w, hl, hr, hw, hst⟩
      · obtain ⟨ins, -, rfl⟩ := moved_of_transition hr h
        exact ⟨i, _, w, by simpa using hl, OrderBook.get?_modify_of_get? _ hr, hw, by simp⟩

theorem handle_confirmNewOrder_settled {cid : ClientOrderId} {v w : VenueOrderId} {i : Nat}
    {s : OrderRecord} (hl : b.orders.lookup (.client cid) = some i) (hs : b.orders.get? i = some s)
    (hw : s.order.venueOrderId = some w) (hst : s.status ≠ .pendingNew) :
    b.handle (.confirmNewOrder cid v) = .ok (b, .report none) := by
  simp [handle, answer, AccountM.confirmNewOrder, AccountM.run_indexOf_bind, hl,
    AccountM.run_recordAt_bind, hs, hw, hst]

theorem confirmNewOrder_absorbsRepeat {cid : ClientOrderId} {v : VenueOrderId}
    (hk : a.InstrumentsKnown) (h : a.handle (.confirmNewOrder cid v) = .ok (a₁, resp)) :
    a₁.AbsorbsRepeat (.confirmNewOrder cid v) resp := by
  refine absorbsRepeat_of_answer hk (fun _ _ h => by cases h) rfl (fun x hrun => ?_) h
  obtain ⟨i, s, w, hl, hs, hw, hst⟩ := confirmNewOrder_settles hrun
  exact ⟨_, handle_confirmNewOrder_settled hl hs hw hst, trivial⟩

open AccountM in
theorem rejectNewOrder_drops {cid : ClientOrderId} {reason : RejectReason} {x : ExecutionReport}
    (h : (rejectNewOrder cid reason).run a = .ok (.ok x, a₁)) :
    a₁.orders.find? (.client cid) = none := by
  obtain ⟨i, r, hl, hr, h⟩ := AccountM.run_found h
  simp only [run_ite, run_throw_bind] at h
  split at h
  · cases h
  · rw [run_bind, run_transition, hr] at h
    cases hins : a.instrument? r.order.securityId with
    | none => simp [hins] at h
    | some ins =>
      simp only [hins, run_modify_bind, run_pure] at h
      cases h
      exact OrderBook.find?_discard_of_lookup (by simpa using hl)

theorem rejectNewOrder_absorbsRepeat {cid : ClientOrderId} {reason : RejectReason}
    (hk : a.InstrumentsKnown) (h : a.handle (.rejectNewOrder cid reason) = .ok (a₁, resp)) :
    a₁.AbsorbsRepeat (.rejectNewOrder cid reason) resp := by
  refine absorbsRepeat_of_answer hk (fun _ _ h => by cases h) rfl (fun x hrun => ?_) h
  refine ⟨.error (LedgerError.rejected .unknownOrder).toApi, ?_, _, rfl⟩
  simp only [handle, answer, AccountM.rejectNewOrder, run_unreached (rejectNewOrder_drops hrun)]

theorem cancelOrder_absorbsRepeat {ref : OrderRef} (hk : a.InstrumentsKnown)
    (h : a.handle (.cancelOrder ref) = .ok (a₁, resp)) :
    a₁.AbsorbsRepeat (.cancelOrder ref) resp := by
  refine absorbsRepeat_of_answer hk (fun _ _ h => by cases h) rfl (fun x hrun => ?_) h
  have h' : a.handle (.cancelOrder ref) = .ok (a₁, .report (some x)) := by
    simp only [handle, answer, hrun, Function.comp_apply]
  obtain ⟨i, r, ins, hl, hr, -, -, rfl⟩ := cancelOrder_accepted h'
  refine ⟨.error (LedgerError.rejected .cancelAlreadyPending).toApi, ?_, _, rfl⟩
  simp [handle, answer, AccountM.cancelOrder, AccountM.run_indexOf_bind, hl,
    AccountM.run_recordAt_bind, OrderBook.get?_modify_of_get? _ hr, AccountM.refusalOf]

theorem replaceOrder_absorbsRepeat {ref : OrderRef} {price quantity : Option Decimal}
    (hk : a.InstrumentsKnown) (h : a.handle (.replaceOrder ref price quantity) = .ok (a₁, resp)) :
    a₁.AbsorbsRepeat (.replaceOrder ref price quantity) resp := by
  refine absorbsRepeat_of_answer hk (fun _ _ h => by cases h) rfl (fun x hrun => ?_) h
  have h' : a.handle (.replaceOrder ref price quantity) = .ok (a₁, .report (some x)) := by
    simp only [handle, answer, hrun, Function.comp_apply]
  obtain ⟨i, r, ins, am, hl, hr, -, -, rfl⟩ := replaceOrder_accepted h'
  refine ⟨.error (LedgerError.rejected .replaceAlreadyPending).toApi, ?_, _, rfl⟩
  simp [handle, answer, AccountM.replaceOrder, AccountM.run_indexOf_bind, hl,
    AccountM.run_recordAt_bind, OrderBook.get?_modify_of_get? _ hr, AccountM.refusalOf]

theorem handle_confirmCancelOrder_canceled {ref : OrderRef} {i : Nat} {s : OrderRecord}
    (hl : b.orders.lookup ref = some i) (hs : b.orders.get? i = some s)
    (hst : s.status = .canceled) :
    b.handle (.confirmCancelOrder ref) = .ok (b, .report none) := by
  simp [handle, answer, AccountM.confirmCancelOrder, AccountM.run_indexOf_bind, hl,
    AccountM.run_recordAt_bind, hs, hst]

theorem handle_confirmExpiredOrder_expired {ref : OrderRef} {i : Nat} {s : OrderRecord}
    (hl : b.orders.lookup ref = some i) (hs : b.orders.get? i = some s)
    (hst : s.status = .expired) :
    b.handle (.confirmExpiredOrder ref) = .ok (b, .report none) := by
  simp [handle, answer, AccountM.confirmExpiredOrder, AccountM.run_indexOf_bind, hl,
    AccountM.run_recordAt_bind, hs, hst]

open AccountM in
theorem confirmCancelOrder_settles {ref : OrderRef} {x : Option ExecutionReport}
    (h : (confirmCancelOrder ref).run a = .ok (.ok x, a₁)) :
    ∃ i s, a₁.orders.lookup ref = some i ∧ a₁.orders.get? i = some s ∧ s.status = .canceled := by
  obtain ⟨i, r, hl, hr, h⟩ := AccountM.run_found h
  split at h
  · rename_i hst
    cases h
    exact ⟨i, r, hl, hr, hst⟩
  · obtain ⟨ins, -, rfl⟩ := moved_of_transition hr h
    exact ⟨i, _, by simpa using hl, OrderBook.get?_modify_of_get? _ hr, by simp⟩
  · cases h

open AccountM in
theorem confirmExpiredOrder_settles {ref : OrderRef} {x : Option ExecutionReport}
    (h : (confirmExpiredOrder ref).run a = .ok (.ok x, a₁)) :
    ∃ i s, a₁.orders.lookup ref = some i ∧ a₁.orders.get? i = some s ∧ s.status = .expired := by
  obtain ⟨i, r, hl, hr, h⟩ := AccountM.run_found h
  split at h
  · rename_i hst
    cases h
    exact ⟨i, r, hl, hr, hst⟩
  · rw [run_ite] at h
    split at h
    · cases h
    · obtain ⟨ins, -, rfl⟩ := moved_of_transition hr h
      exact ⟨i, _, by simpa using hl, OrderBook.get?_modify_of_get? _ hr, by simp⟩

theorem confirmCancelOrder_absorbsRepeat {ref : OrderRef} (hk : a.InstrumentsKnown)
    (h : a.handle (.confirmCancelOrder ref) = .ok (a₁, resp)) :
    a₁.AbsorbsRepeat (.confirmCancelOrder ref) resp := by
  refine absorbsRepeat_of_answer hk (fun _ _ h => by cases h) rfl (fun x hrun => ?_) h
  obtain ⟨i, s, hl, hs, hst⟩ := confirmCancelOrder_settles hrun
  exact ⟨_, handle_confirmCancelOrder_canceled hl hs hst, trivial⟩

theorem confirmExpiredOrder_absorbsRepeat {ref : OrderRef} (hk : a.InstrumentsKnown)
    (h : a.handle (.confirmExpiredOrder ref) = .ok (a₁, resp)) :
    a₁.AbsorbsRepeat (.confirmExpiredOrder ref) resp := by
  refine absorbsRepeat_of_answer hk (fun _ _ h => by cases h) rfl (fun x hrun => ?_) h
  obtain ⟨i, s, hl, hs, hst⟩ := confirmExpiredOrder_settles hrun
  exact ⟨_, handle_confirmExpiredOrder_expired hl hs hst, trivial⟩

theorem setTime_absorbsRepeat {t : Timestamp} (h : a.handle (.setTime t) = .ok (a₁, resp)) :
    a₁.AbsorbsRepeat (.setTime t) resp := by
  cases h
  exact ⟨.done, rfl, fun _ => trivial⟩

theorem pruneClosed_absorbsRepeat (h : a.handle .pruneClosed = .ok (a₁, resp)) : a₁.AbsorbsRepeat .pruneClosed resp := by
  rw [handle_pruneClosed] at h
  cases h
  have hnone : ∀ j s, ((a.orders.slotsWhere (·.status.isTerminal)).foldl OrderBook.discard
      a.orders).get? j = some s → s.status.isTerminal = false := by
    intro j s hs
    rw [get?_pruned] at hs
    cases hj : a.orders.get? j with
    | none => simp [hj] at hs
    | some r =>
      cases hfin : r.status.isTerminal
      · simp only [hj, Option.any_some, hfin, Bool.false_eq_true, if_false, Option.some.injEq] at hs
        rw [← hs, hfin]
      · simp [hj, hfin] at hs
  refine ⟨.pruned 0, ?_, fun _ => trivial⟩
  rw [handle_pruneClosed, OrderBook.slotsWhere_eq_nil hnone]
  rfl

/-- A refusal of a request that finds its order resting answers no report and changes
nothing. -/
theorem handle_refusesRequest_resting {c : Command} {ref : OrderRef} {i : Nat} {s : OrderRecord}
    (hc : c.RefusesRequest ref) (hl : b.orders.lookup ref = some i)
    (hs : b.orders.get? i = some s)
    (hrest : s.status = .new ∨ s.status = .partiallyFilled) :
    b.handle c = .ok (b, .report none) := by
  rcases hc with ⟨reason, rfl⟩ | ⟨reason, rfl⟩ | rfl <;> rcases hrest with hst | hst <;>
    simp [handle, answer, AccountM.rejectCancelOrder, AccountM.rejectReplaceOrder,
      AccountM.pendingFilled, AccountM.run_indexOf_bind, hl, AccountM.run_recordAt_bind, hs, hst]

theorem refusesRequest_unanswered {c : Command} {ref : OrderRef} (hc : c.RefusesRequest ref)
    (h : a.handle c = .ok (a₁, .report none)) : a₁ = a := by
  have hrun : ∀ {m : AccountM (Option ExecutionReport)},
      a.answer m .report = .ok (a₁, .report none) → m.run a = .ok (.ok none, a₁) := by
    intro m hm
    obtain ⟨x, hx, hw⟩ := answer_eq_ok hm rfl
    cases hw
    exact hx
  rcases hc with ⟨reason, rfl⟩ | ⟨reason, rfl⟩ | rfl
  · obtain ⟨i, r, -, hr, h⟩ := AccountM.run_found (hrun h)
    simp only [AccountM.run_ite, bind_pure_comp] at h
    split at h
    · cases h
      rfl
    · obtain ⟨_, h⟩ := transition_answers h
      cases h
  · obtain ⟨i, r, -, hr, h⟩ := AccountM.run_found (hrun h)
    simp only [AccountM.run_ite, bind_pure_comp] at h
    split at h
    · cases h
      rfl
    · obtain ⟨_, h⟩ := transition_answers h
      cases h
  · obtain ⟨i, r, -, hr, h⟩ := AccountM.run_found (hrun h)
    simp only [bind_pure_comp] at h
    split at h
    · obtain ⟨_, h⟩ := transition_answers h
      cases h
    · obtain ⟨_, h⟩ := transition_answers h
      cases h
    · cases h
      rfl

/-- A refusal of a request that answers a report refused the request the order waited on, and
sent it back to its fallback. -/
theorem refusesWaiting_of_report {c : Command} {ref : OrderRef} {rep : ExecutionReport}
    (hc : c.RefusesRequest ref) (h : a.handle c = .ok (a₁, .report (some rep))) :
    ∃ i r ins, a.orders.lookup ref = some i ∧ a.orders.get? i = some r ∧
      c.RefusesWaiting ref r ∧ r.Waiting ∧ a.instrument? r.order.securityId = some ins ∧
      a₁ = a.moved i ins.lot .rejected OrderRecord.restorePrevious r := by
  rcases hc with ⟨reason, rfl⟩ | ⟨reason, rfl⟩ | rfl
  · obtain ⟨i, r, ins, hl, hr, hs, hins, rfl⟩ := rejectCancelOrder_report h
    exact ⟨i, r, ins, hl, hr, .inl ⟨⟨reason, rfl⟩, hs⟩, .inl hs, hins, rfl⟩
  · obtain ⟨i, r, ins, hl, hr, hs, hins, rfl⟩ := rejectReplaceOrder_report h
    exact ⟨i, r, ins, hl, hr, .inr (.inl ⟨⟨reason, rfl⟩, hs⟩), .inr hs, hins, rfl⟩
  · obtain ⟨i, r, ins, hl, hr, hw, hins, rfl⟩ := pendingFilled_report h
    exact ⟨i, r, ins, hl, hr, .inr (.inr ⟨rfl, hw⟩), hw, hins, rfl⟩

theorem refusesRequest_absorbsRepeat {c : Command} {ref : OrderRef} (hc : c.RefusesRequest ref)
    (hwf : a.WellFormed) (hself : ¬ a.RestoresToSelf c) (h : a.handle c = .ok (a₁, resp)) :
    a₁.AbsorbsRepeat c resp := by
  have hcr : ∀ ref' v, c ≠ .confirmReplaceOrder ref' v := by
    rcases hc with ⟨_, rfl⟩ | ⟨_, rfl⟩ | rfl <;> intro _ _ h <;> cases h
  cases hresp : resp.isError
  swap
  · exact absorbsRepeat_of_refusal hwf.known hcr h hresp
  have hreport : ∃ x, resp = .report x := by
    rcases hc with ⟨_, rfl⟩ | ⟨_, rfl⟩ | rfl <;>
      exact (answer_eq_ok h hresp).imp fun _ hx => hx.2.symm
  obtain ⟨x, rfl⟩ := hreport
  cases x with
  | none =>
    have hsame := refusesRequest_unanswered hc h
    subst hsame
    exact ⟨_, h, fun _ => trivial⟩
  | some rep =>
    obtain ⟨i, r, ins, hl, hr, hrw, hw, -, rfl⟩ := refusesWaiting_of_report hc h
    -- The order falls back to a resting status, since it does not fall back to itself.
    have hrest : r.previousStatus = .new ∨ r.previousStatus = .partiallyFilled := by
      rcases hwf.fallback i r hr hw with hp | hp | hp
      · exact .inl hp
      · exact .inr hp
      · exact absurd ⟨ref, i, r, hl, hr, hrw, hp⟩ hself
    refine ⟨_, handle_refusesRequest_resting hc (by simpa using hl)
      (OrderBook.get?_modify_of_get? _ hr) (by simpa using hrest), fun _ => trivial⟩

theorem handle_confirmFill_of_hasTrade {ref : OrderRef} {t : TradeId} {price quantity : Decimal}
    {taker : Bool} {i : Nat} {s : OrderRecord} (hl : b.orders.lookup ref = some i)
    (hs : b.orders.get? i = some s) (ht : s.hasTrade t = true) :
    b.handle (.confirmFill ref t price quantity taker) = .ok (b, .report none) := by
  simp [handle, answer, AccountM.confirmFill, AccountM.run_indexOf_bind, hl,
    AccountM.run_recordAt_bind, hs, ht]

/-- An accepted fill leaves its trade id on the order it fills. -/
theorem confirmFill_accepted {ref : OrderRef} {t : TradeId} {price quantity : Decimal}
    {taker : Bool} {x : ExecutionReport}
    (h : (AccountM.confirmFill ref t price quantity taker).run a = .ok (.ok (some x), a₁)) :
    ∃ i s, a.orders.lookup ref = some i ∧ a₁.orders.lookup ref = some i ∧
      a₁.orders.get? i = some s ∧ s.hasTrade t = true := by
  rcases AccountM.confirmFill_cases h with ⟨-, hnone⟩ | ⟨i, r, ins, n, cum, rep, hl, hr, -, -, -,
    -, -, -, -, ho, -⟩
  · exact absurd rfl (hnone x)
  · refine ⟨i, _, hl, by rw [ho, OrderBook.lookup_modify, hl], by
      rw [ho, OrderBook.get?_modify_of_get? _ hr], ?_⟩
    simpa [OrderRecord.hasTrade, OrderRecord.fill_tradeIds] using r.hasTrade_noteTrade t

theorem confirmFill_absorbsRepeat {ref : OrderRef} {t : TradeId} {price quantity : Decimal}
    {taker : Bool} (hk : a.InstrumentsKnown)
    (h : a.handle (.confirmFill ref t price quantity taker) = .ok (a₁, resp)) :
    a₁.AbsorbsRepeat (.confirmFill ref t price quantity taker) resp := by
  refine absorbsRepeat_of_answer hk (fun _ _ h => by cases h) rfl (fun x hrun => ?_) h
  cases x with
  | none =>
    rcases AccountM.confirmFill_cases hrun with ⟨rfl, -⟩ | ⟨_, _, _, _, _, _, _, _, _, _, _, _,
      _, hres, -⟩
    · exact ⟨.report none, by simp only [handle, answer, hrun], trivial⟩
    · cases hres
  | some rep =>
    obtain ⟨i, s, -, hl, hs, ht⟩ := confirmFill_accepted hrun
    exact ⟨_, handle_confirmFill_of_hasTrade hl hs ht, trivial⟩

/-- Expiring the records of distinct slots one after another leaves each of them expired, every
other slot as it was, and the time as it was. -/
theorem expireAll_expired {slots : List Nat} (hnd : slots.Nodup) :
    ∀ {a a₁ : Account} {xs : List ExecutionReport},
      (slots.mapM fun j => AccountM.transition j .expired OrderRecord.expire).run a =
        .ok (.ok xs, a₁) →
      a₁.time = a.time ∧ ∀ j, (j ∈ slots → ∃ s, a₁.orders.get? j = some s ∧ s.status = .expired) ∧
        (j ∉ slots → a₁.orders.get? j = a.orders.get? j) := by
  induction slots with
  | nil =>
    intro a a₁ xs h
    cases h
    exact ⟨rfl, fun j => ⟨fun hj => absurd hj List.not_mem_nil, fun _ => rfl⟩⟩
  | cons j js ih =>
    intro a a₁ xs h
    obtain ⟨hj, hnd'⟩ := List.nodup_cons.mp hnd
    rw [List.mapM_cons, AccountM.run_bind, AccountM.run_transition] at h
    cases hr : a.orders.get? j with
    | none => simp [hr] at h
    | some r =>
      cases hins : a.instrument? r.order.securityId with
      | none => simp [hr, hins] at h
      | some ins =>
        simp only [hr, hins, AccountM.run_bind] at h
        cases hrest : (js.mapM fun j => AccountM.transition j .expired OrderRecord.expire).run
            (a.moved j ins.lot .expired OrderRecord.expire r) with
        | error f => simp [hrest] at h
        | ok p =>
          obtain ⟨res, a₂⟩ := p
          cases res with
          | error e => simp [hrest] at h
          | ok ys =>
            simp only [hrest, AccountM.run_pure, Except.ok.injEq, Prod.mk.injEq] at h
            obtain ⟨-, rfl⟩ := h
            obtain ⟨htime, hslots⟩ := ih hnd' hrest
            refine ⟨htime, fun k => ⟨fun hk => ?_, fun hk => ?_⟩⟩
            · rcases List.mem_cons.mp hk with rfl | hk
              · exact ⟨_, ((hslots k).2 hj).trans (OrderBook.get?_modify_of_get? _ hr), by simp⟩
              · exact (hslots k).1 hk
            · have hkj : k ≠ j := fun e => hk (e ▸ List.mem_cons_self)
              rw [(hslots k).2 (fun h => hk (List.mem_cons_of_mem _ h))]
              simp [OrderBook.get?_modify, hkj]

theorem checkExpiration_absorbsRepeat (hk : a.InstrumentsKnown)
    (h : a.handle .checkExpiration = .ok (a₁, resp)) : a₁.AbsorbsRepeat .checkExpiration resp := by
  refine absorbsRepeat_of_answer hk (fun _ _ h => by cases h) rfl (fun xs hrun => ?_) h
  simp only [AccountM.checkExpiration, AccountM.run_get_bind] at hrun
  obtain ⟨htime, hslots⟩ := expireAll_expired (OrderBook.nodup_slotsWhere _ _) hrun
  have hnone : ∀ j s, a₁.orders.get? j = some s →
      ((s.status.isResting || s.status == .pendingCancel || s.status == .pendingReplace) &&
        s.order.expireAt.any (·.toInt ≤ a₁.time.toInt)) = false := by
    intro j s hs
    by_cases hj : j ∈ a.orders.slotsWhere fun r =>
        (r.status.isResting || r.status == .pendingCancel || r.status == .pendingReplace) &&
          r.order.expireAt.any (·.toInt ≤ a.time.toInt)
    · obtain ⟨s', hs', hexp⟩ := (hslots j).1 hj
      rw [hs, Option.some.injEq] at hs'
      subst hs'
      simp [hexp, OrderStatus.isResting]
    · rw [(hslots j).2 hj] at hs
      rw [htime]
      by_contra hdue
      exact hj (OrderBook.mem_slotsWhere.mpr ⟨s, hs, by simpa using hdue⟩)
  refine ⟨.reports [], ?_, trivial⟩
  simp only [handle, answer, AccountM.checkExpiration, AccountM.run_get_bind,
    OrderBook.slotsWhere_eq_nil hnone, List.mapM_nil, AccountM.run_pure]

end Account

/-! ## A confirmed replace a second time

A replace is confirmed once: afterwards the order rests, or, when the venue moved it to a new
venue id, the old id reaches nothing. A replace that the fills overtook sends the order back to
its fallback, which is resting because an amendment is only requested from a resting order. -/

namespace OrderRecord

/-- A record with an amendment falls back to a resting status. -/
def AmendedFromRest (r : OrderRecord) : Prop :=
  r.amendment.isSome → r.previousStatus = .new ∨ r.previousStatus = .partiallyFilled

theorem amendedFromRest_fill {r : OrderRecord} (h : r.AmendedFromRest) (t : TradeId)
    (leaves cum : Int64) (lot : Precision) : ((r.fill t leaves cum).refresh lot).AmendedFromRest := by
  simp only [AmendedFromRest, refresh, fill, noteTrade, status] at h ⊢
  split_ifs <;> simp_all

end OrderRecord

theorem amendedFromRest_invariant : RecordInvariant fun _ r => r.AmendedFromRest where
  move := by
    intro _ r f _ _ hf hr ham
    cases hf with
    | requestCancel hs | requestAmend hs _ =>
      simpa [OrderRecord.refresh, OrderRecord.requestAmend, OrderRecord.beginPending,
        OrderRecord.status] using AccountM.refusalOf_eq_none.mp hs
    | acknowledge | amend => exact .inl rfl
    | reject => exact hr ham
    | cancel | restore | expire =>
      simp [OrderRecord.refresh, OrderRecord.cancel, OrderRecord.restorePrevious,
        OrderRecord.expire] at ham
  claim := fun _ _ _ hr => hr

namespace Account

variable {a a₁ b : Account} {resp : Response}

theorem Reachable.amendedFromRest (h : a.Reachable) :
    a.EveryRecord fun _ r => r.AmendedFromRest := by
  induction h with
  | create hc =>
    intro i r hr
    simp [(create_orders hc).1] at hr
  | step hreach _ hstep ih =>
    have hwf := hreach.wellFormed
    refine amendedFromRest_invariant.effect hwf.free ih (handle_handled hwf.known hstep).effect
      (fun _ _ _ _ _ i r _ _ _ _ _ hr _ _ _ _ =>
        OrderRecord.amendedFromRest_fill (ih i r hr) _ _ _ _)
      (fun _ _ _ _ _ _ _ _ ham => ?_) (fun _ _ _ _ _ hb i r hr ham => ?_)
    · simp [OrderRecord.refresh, OrderRecord.create] at ham
    · obtain ⟨_, _, _, _, _, _, _, _, _, _, rfl⟩ := (rebuildOrders_records hb).2 i r hr
      simp [OrderRecord.refresh, OrderRecord.create] at ham

end Account

namespace OrderBook

/-- Every record that the reference reaches rests. -/
def ReachesResting (b : OrderBook) (ref : OrderRef) : Prop :=
  ∀ s, b.find? ref = some s → s.status.isResting = true

variable {b : OrderBook} {ref : OrderRef}

theorem reachesResting_of_lookup_none (hl : b.lookup ref = none) : b.ReachesResting ref := by
  intro s hs
  simp [find?, hl] at hs

theorem reachesResting_of_get? {i : Nat} {s : OrderRecord} (hl : b.lookup ref = some i)
    (hs : b.get? i = some s) (hrest : s.status.isResting = true) : b.ReachesResting ref := by
  intro s' hs'
  have hf : b.find? ref = some s := by simp [find?, hl, hs]
  rw [hf, Option.some.injEq] at hs'
  exact hs' ▸ hrest

end OrderBook

namespace Account

variable {a a₁ b : Account} {resp : Response}

theorem handle_confirmReplaceOrder_of_reachesResting {ref : OrderRef} (v : Option VenueOrderId)
    (h : b.orders.ReachesResting ref) :
    ∃ resp, b.handle (.confirmReplaceOrder ref v) = .ok (b, resp) ∧ resp.Quiet := by
  cases hf : b.orders.find? ref with
  | none =>
    refine ⟨.error (LedgerError.rejected .unknownOrder).toApi, ?_, _, rfl⟩
    simp only [handle, answer, AccountM.confirmReplaceOrder, run_unreached hf]
  | some s =>
    obtain ⟨j, hl, hs⟩ : ∃ j, b.orders.lookup ref = some j ∧ b.orders.get? j = some s := by
      simpa [OrderBook.find?, Option.bind_eq_some_iff] using hf
    refine ⟨.report none, ?_, trivial⟩
    simp [handle, answer, AccountM.confirmReplaceOrder, AccountM.run_indexOf_bind, hl,
      AccountM.run_recordAt_bind, hs, h s hf]

open AccountM in
theorem confirmReplaceOrder_settles {ref : OrderRef} {nv : Option VenueOrderId}
    {x : Option ExecutionReport} (h : (confirmReplaceOrder ref nv).run a = .ok (.ok x, a₁)) :
    a₁.orders.ReachesResting ref := by
  rcases AccountM.confirmReplaceOrder_cases h with ⟨e, he, -⟩ | ⟨i, r, hl, hr, hrest, -, rfl⟩ |
    ⟨e, he, -⟩ | ⟨i, r, leaves?, hl, hr, -, -, -, h⟩
  · cases he
  · exact OrderBook.reachesResting_of_get? hl hr hrest
  · cases he
  cases nv with
  | none =>
    obtain ⟨ins, -, rfl⟩ := moved_of_transition hr h
    exact OrderBook.reachesResting_of_get? (by simpa using hl)
      (OrderBook.get?_modify_of_get? _ hr) (by simp [OrderStatus.isResting])
  | some v =>
    have hr' : (a.claimed i v).orders.get? i = some (r.withVenueId v) := by
      simp [OrderBook.get?_assignVenueId, hr, OrderRecord.withVenueId]
    obtain ⟨ins, -, rfl⟩ := moved_of_transition hr' h
    rcases OrderBook.lookup_assignVenueId hr hl v with hl' | hl'
    · exact OrderBook.reachesResting_of_get? (by simpa using hl')
        (OrderBook.get?_modify_of_get? _ hr') (by simp [OrderStatus.isResting])
    · exact OrderBook.reachesResting_of_lookup_none (by simpa using hl')

theorem confirmReplaceOrder_absorbsRepeat {ref : OrderRef} {v : Option VenueOrderId}
    (hk : a.InstrumentsKnown) (hamend : a.EveryRecord fun _ r => r.AmendedFromRest)
    (h : a.handle (.confirmReplaceOrder ref v) = .ok (a₁, resp)) :
    a₁.AbsorbsRepeat (.confirmReplaceOrder ref v) resp := by
  cases hresp : resp.isError
  · obtain ⟨x, hrun, -⟩ := answer_eq_ok h hresp
    obtain ⟨resp', h', hq⟩ :=
      handle_confirmReplaceOrder_of_reachesResting v (confirmReplaceOrder_settles hrun)
    exact ⟨resp', h', fun _ => hq⟩
  cases resp with
  | error e =>
    rcases (handle_handled hk h).refused e rfl with rfl | ⟨_, -, ref', v', i, r, q, ins, hc, hl, hr,
      -, hq, -, -, -, rfl⟩
    · exact ⟨_, h, fun h' => by cases h'⟩
    · cases hc
      have hsome : r.amendment.isSome = true := by
        cases ham : r.amendment
        · simp [ham] at hq
        · rfl
      have hrest : (r.restorePrevious.refresh ins.lot).status.isResting = true := by
        rcases hamend i r hr hsome with hp | hp <;> simp [hp, OrderStatus.isResting]
      have hr' : (a.moved i ins.lot .rejected OrderRecord.restorePrevious r).orders.get? i =
          some (r.restorePrevious.refresh ins.lot) := OrderBook.get?_modify_of_get? _ hr
      obtain ⟨resp', h', -⟩ := handle_confirmReplaceOrder_of_reachesResting v
        (OrderBook.reachesResting_of_get? (by simpa using hl) hr' hrest)
      exact ⟨resp', h', fun h' => by cases h'⟩
  | _ => cases hresp

end Account

/-! ## A trade id is applied once -/

theorem RecordMove.tradeIds {f : OrderRecord → OrderRecord} {r : OrderRecord}
    (hf : RecordMove f r) : (f r).tradeIds = r.tradeIds := by
  cases hf with
  | amend =>
    simp only [OrderRecord.amend]
    split <;> split <;> rfl
  | _ => rfl

theorem OrderRecord.Becomes.tradeIds_subset {r s : OrderRecord} (h : r.Becomes (some s)) :
    r.tradeIds ⊆ s.tradeIds := by
  cases h with
  | keep => exact List.Subset.refl _
  | move hf =>
    rw [OrderRecord.refresh_tradeIds, hf.tradeIds]
    exact List.Subset.refl _
  | fill =>
    rw [OrderRecord.refresh_tradeIds, OrderRecord.fill_tradeIds]
    unfold OrderRecord.noteTrade
    split
    · exact List.Subset.refl _
    · exact List.subset_cons_self _ _

theorem OrderRecord.Step.hasTrade {r s : OrderRecord} {t : TradeId} (h : r.Step (some s))
    (ht : r.hasTrade t = true) : s.hasTrade t = true := by
  have hsub : r.tradeIds ⊆ s.tradeIds := by
    rcases h with h | ⟨v, h⟩
    · exact h.tradeIds_subset
    · exact h.tradeIds_subset
  simp only [OrderRecord.hasTrade, List.contains_iff_mem] at ht ⊢
  exact hsub ht

namespace Account

variable {a a₁ b : Account} {resp : Response}

theorem RunWhile.mono {P Q : Account → Prop} (hPQ : ∀ b, P b → Q b) (h : a.RunWhile P b) :
    a.RunWhile Q b := by
  induction h with
  | refl => exact .refl
  | step _ hsync hc hP ih => exact .step ih hsync hc (hPQ _ hP)

theorem RunWhile.hasTrade {i : Nat} {t : TradeId} (h : a.RunWhile (LiveAt i) b)
    (ha : a.Reachable) (hstart : ∃ r, a.orders.get? i = some r ∧ r.hasTrade t = true) :
    ∃ s, b.orders.get? i = some s ∧ s.hasTrade t = true := by
  have hlive : a.RunWhile (fun b => ∃ s, b.orders.get? i = some s ∧ True) b :=
    h.mono fun _ ⟨s, hs⟩ => ⟨s, hs, trivial⟩
  exact hlive.record (fun _ _ hr hst _ => hst.hasTrade hr) ha hstart

/-- Once a fill under trade id `t` is accepted for the order in slot `i`, every later fill that
reaches the slot under `t` answers no report and changes nothing, as long as the order stays. -/
theorem Reachable.tradeId_applied_once (ha : a.Reachable) {ref : OrderRef} {t : TradeId}
    {price quantity : Decimal} {taker : Bool} {rep : ExecutionReport}
    (h : a.handle (.confirmFill ref t price quantity taker) = .ok (a₁, .report (some rep))) :
    ∃ i, a.orders.lookup ref = some i ∧ ∀ b, a₁.RunWhile (LiveAt i) b →
      ∀ ref' price' quantity' taker', b.orders.lookup ref' = some i →
        b.handle (.confirmFill ref' t price' quantity' taker') = .ok (b, .report none) := by
  obtain ⟨x, hrun, hx⟩ := answer_eq_ok h rfl
  cases hx
  obtain ⟨i, s, hl, -, hs, ht⟩ := confirmFill_accepted hrun
  refine ⟨i, hl, fun b hb ref' price' quantity' taker' hl' => ?_⟩
  obtain ⟨s', hs', ht'⟩ := hb.hasTrade (.step ha trivial h) ⟨s, hs, ht⟩
  exact handle_confirmFill_of_hasTrade hl' hs' ht'

/-! ## Every command a second time -/

theorem Reachable.absorbsRepeat {c : Command} (ha : a.Reachable) (hsync : ∀ x, c ≠ .sync x)
    (hself : ¬ a.RestoresToSelf c) (h : a.handle c = .ok (a₁, resp)) :
    a₁.AbsorbsRepeat c resp := by
  have hwf := ha.wellFormed
  cases c with
  | setTime t => exact setTime_absorbsRepeat h
  | newOrder o => exact newOrder_absorbsRepeat hwf.known h
  | confirmNewOrder cid v => exact confirmNewOrder_absorbsRepeat hwf.known h
  | rejectNewOrder cid reason => exact rejectNewOrder_absorbsRepeat hwf.known h
  | cancelOrder ref => exact cancelOrder_absorbsRepeat hwf.known h
  | confirmCancelOrder ref => exact confirmCancelOrder_absorbsRepeat hwf.known h
  | rejectCancelOrder ref reason =>
    exact refusesRequest_absorbsRepeat (.inl ⟨reason, rfl⟩) hwf hself h
  | replaceOrder ref p q => exact replaceOrder_absorbsRepeat hwf.known h
  | confirmReplaceOrder ref v =>
    exact confirmReplaceOrder_absorbsRepeat hwf.known ha.amendedFromRest h
  | rejectReplaceOrder ref reason =>
    exact refusesRequest_absorbsRepeat (.inr (.inl ⟨reason, rfl⟩)) hwf hself h
  | pendingFilled ref => exact refusesRequest_absorbsRepeat (.inr (.inr rfl)) hwf hself h
  | confirmFill ref t p q taker => exact confirmFill_absorbsRepeat hwf.known h
  | confirmExpiredOrder ref => exact confirmExpiredOrder_absorbsRepeat hwf.known h
  | checkExpiration => exact checkExpiration_absorbsRepeat hwf.known h
  | pruneClosed => exact pruneClosed_absorbsRepeat h
  | sync x => exact absurd rfl (hsync x)

/-- Commands may be delivered twice. Every command but a snapshot, handled again right after it
was handled, leaves the account as the first handling left it, and answers quietly when the
first handling succeeded, unless it refuses the request of an order that falls back to the
status it waits in. And a trade id is applied once: after a fill under it is accepted, every
fill of the same order under it answers no report and changes nothing, whatever commands other
than a snapshot come between while the order stays in the book. -/
theorem Reachable.repeat_changes_nothing (ha : a.Reachable) :
    (∀ c a₁ resp, (∀ x, c ≠ .sync x) → ¬ a.RestoresToSelf c → a.handle c = .ok (a₁, resp) →
      ∃ resp', a₁.handle c = .ok (a₁, resp') ∧ (resp.isError = false → resp'.Quiet)) ∧
    (∀ ref t price quantity taker a₁ rep,
      a.handle (.confirmFill ref t price quantity taker) = .ok (a₁, .report (some rep)) →
      ∃ i, a.orders.lookup ref = some i ∧ ∀ b, a₁.RunWhile (LiveAt i) b →
        ∀ ref' price' quantity' taker', b.orders.lookup ref' = some i →
          b.handle (.confirmFill ref' t price' quantity' taker') = .ok (b, .report none)) :=
  ⟨fun _ _ _ hsync hself h => ha.absorbsRepeat hsync hself h,
    fun _ _ _ _ _ _ _ h => ha.tradeId_applied_once h⟩

/-- The account in which order "a" waits on its cancel is reachable, and everything above holds
of it. -/
theorem cancel_requested_repeat_changes_nothing :
    ∃ a, Sample.session Sample.cancelRequested = some a ∧ a.Reachable ∧
    ((∀ c a₁ resp, (∀ x, c ≠ .sync x) → ¬ a.RestoresToSelf c → a.handle c = .ok (a₁, resp) →
      ∃ resp', a₁.handle c = .ok (a₁, resp') ∧ (resp.isError = false → resp'.Quiet)) ∧
    (∀ ref t price quantity taker a₁ rep,
      a.handle (.confirmFill ref t price quantity taker) = .ok (a₁, .report (some rep)) →
      ∃ i, a.orders.lookup ref = some i ∧ ∀ b, a₁.RunWhile (LiveAt i) b →
        ∀ ref' price' quantity' taker', b.orders.lookup ref' = some i →
          b.handle (.confirmFill ref' t price' quantity' taker') = .ok (b, .report none))) := by
  have hs : Sample.session Sample.cancelRequested = some _ := rfl
  exact ⟨_, hs, .of_session hs, Reachable.repeat_changes_nothing (.of_session hs)⟩

/-- A snapshot may report order "a" waiting on a cancel. The venue's refusal of the cancel,
delivered twice, answers a report both times and logs a status change both times. -/
theorem reported_waiting_cancel_refused_twice :
    ∃ a a₁ a₂ rep₁ rep₂, Sample.session [Sample.reportWaitingCancel] = some a ∧ a.Reachable ∧
      a.handle (.rejectCancelOrder (.client "a") .other) = .ok (a₁, .report (some rep₁)) ∧
      a₁.handle (.rejectCancelOrder (.client "a") .other) = .ok (a₂, .report (some rep₂)) ∧
      a₂.events.nextId = a₁.events.nextId + 1 := by
  have hs : Sample.session [Sample.reportWaitingCancel] = some _ := rfl
  exact ⟨_, _, _, _, _, hs, .of_session hs, rfl, rfl, rfl⟩

end Account

end TradeLedger
