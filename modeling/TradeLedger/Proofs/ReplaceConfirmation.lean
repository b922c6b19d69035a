import TradeLedger.Proofs.Redelivery

/-!
# A replace, its fills in flight, and the venue's confirmation

A replace is requested from a resting order and recorded in raw units: the price moved to the
nearest tick, the new total on the lot grid and above what is already filled. While the order
waits, fills may land and other orders may move; the amendment and the order's price and total
stay as they were. The venue's confirmation then either finds the new total already reached by
the fills and sends the order back, refuses a venue id indexed for another order, or applies the
amendment: the order is `new` at the amended price and total, its fills kept and the rest of the
total open, and indexed under the new venue id if one came.

The rest of the total is what is open only when the order's counts add up, which the ledger
keeps on every fill but does not check of the orders a snapshot reports: a reported order whose
open and filled lots fall short of its total keeps the shortfall through a replace that changes
only its price.
-/

namespace TradeLedger

/-- The amendment that a replace of record `r` to price `price` and quantity `quantity` records
on instrument `ins`: the price moved to the nearest tick and positive, and the quantity in raw
lots when it lies on the grid within `tolerance`, above what `r` has filled. -/
structure RecordsAmendment (ins : Instrument) (tolerance : Decimal) (r : OrderRecord)
    (price quantity : Option Decimal) (am : Amendment) : Prop where
  price : am.price = price.bind ins.roundPrice?
  pricePos : ∀ p, am.price = some p → Decimal.zero < p
  quantity : am.rawQuantity = quantity.bind fun q =>
    if ins.lot.isAligned q tolerance then ins.lot.toRaw? q else none
  aboveCum : ∀ q, am.rawQuantity = some q → r.rawCum.toInt < q.toInt

namespace Account

variable {a a' : Account}

/-- An accepted replace moves the record that `ref` reaches from a resting status into
`pendingReplace`, with the amendment the request describes. -/
theorem replaceOrder_records {ref : OrderRef} {price quantity : Option Decimal}
    {rep : ExecutionReport}
    (h : a.handle (.replaceOrder ref price quantity) = .ok (a', .report (some rep))) :
    ∃ i r ins am, a.orders.lookup ref = some i ∧ a.orders.get? i = some r ∧
      AccountM.refusalOf r.status = none ∧ a.instrument? r.order.securityId = some ins ∧
      RecordsAmendment ins a.config.lotTolerance r price quantity am ∧
      a' = a.moved i ins.lot .pendingReplace (OrderRecord.requestAmend am) r := by
  obtain ⟨x, hrun, -⟩ := answer_eq_ok h rfl
  rcases AccountM.replaceOrder_cases hrun with ⟨e, he, -⟩ |
    ⟨i, r, ins, am, hl, hr, hs, hins, hp, hpos, hq, habove, hrun⟩
  · cases he
  rw [AccountM.run_transition] at hrun
  simp only [hr, hins] at hrun
  cases hrun
  exact ⟨i, r, ins, am, hl, hr, hs, hins, ⟨hp, hpos, hq, habove⟩, rfl⟩

end Account

/-! ## The wait -/

namespace OrderRecord

variable {r₀ r s : OrderRecord} {am : Amendment}

theorem fill_amendment_of_open (r : OrderRecord) (t : TradeId) {leaves : Int64} (cum : Int64)
    (hl : leaves.toInt ≠ 0) : (r.fill t leaves cum).amendment = r.amendment := by
  have hnote : (r.noteTrade t).amendment = r.amendment := by
    unfold noteTrade
    split <;> rfl
  simp only [fill, if_neg hl]
  split_ifs <;> exact hnote

/-- Record `r` waits on the replace `am` requested from record `r₀`: the wait started from `r₀`,
the amendment is the one requested, and the raw counts fit the status. -/
structure AwaitsAmendment (r₀ : OrderRecord) (am : Amendment) (r : OrderRecord) : Prop where
  pending : r.status = .pendingReplace
  amendment : r.amendment = some am
  waits : r₀.WaitsSince r
  counts : r.RawCountsFit

theorem awaitsAmendment_request (h₀ : r₀.status = .new ∨ r₀.status = .partiallyFilled)
    (hfit : r₀.RawCountsFit) (am : Amendment) (lot : Precision) :
    r₀.AwaitsAmendment am ((r₀.requestAmend am).refresh lot) := by
  have hnt : r₀.status.isTerminal = false := by rcases h₀ with h | h <;> simp [h, OrderStatus.isTerminal]
  obtain ⟨hl, hc, hq⟩ := hfit.working hnt
  exact ⟨rfl, rfl, r₀.waitsSince_request .pendingReplace (some am) lot,
    OrderStatus.countsFit_working rfl hl hc hq⟩

theorem AwaitsAmendment.becomes (hw : r₀.AwaitsAmendment am r)
    (h₀ : r₀.status = .new ∨ r₀.status = .partiallyFilled) (hb : r.Becomes (some s))
    (hs : s.Waiting) : r₀.AwaitsAmendment am s := by
  have hr : r.Waiting := .inr hw.pending
  have hrest : r.previousStatus = .new ∨ r.previousStatus = .partiallyFilled := by
    rw [hw.waits.2.2.2]
    split_ifs
    · exact h₀
    · exact .inr rfl
  have hwaits := hw.waits.becomes h₀ hr hb hs
  rcases hb.kept_or_filled hr hrest hs with rfl | ⟨t, n, cum, lot, hpos, hle, hadd, hopen, rfl⟩
  · exact hw
  · have hnt : r.status.isTerminal = false := by simp [hw.pending, OrderStatus.isTerminal]
    refine ⟨?_, ?_, hwaits, rawCountsFit_fill t hw.counts hnt hpos hle hadd⟩
    · rw [refresh_status, fill_status, if_neg hopen, if_pos (.inr hw.pending), hw.pending]
    · rw [show ((r.fill t _ cum).refresh lot).amendment = (r.fill t _ cum).amendment from rfl,
        fill_amendment_of_open r t cum hopen, hw.amendment]

theorem AwaitsAmendment.step (hw : r₀.AwaitsAmendment am r)
    (h₀ : r₀.status = .new ∨ r₀.status = .partiallyFilled) (hst : r.Step (some s))
    (hs : s.Waiting) : r₀.AwaitsAmendment am s := by
  rcases hst with hb | ⟨v, hb⟩
  · exact hw.becomes h₀ hb hs
  · have hv : r₀.AwaitsAmendment am (r.withVenueId v) :=
      ⟨hw.pending, hw.amendment, hw.waits, hw.counts⟩
    exact hv.becomes h₀ hb hs

end OrderRecord

namespace Account

variable {a a' b : Account}

/-- After an accepted replace, through any commands other than a snapshot that keep the order
waiting, the order waits on the amendment the request recorded. -/
theorem awaitsAmendment_after_replace {ref : OrderRef} {price quantity : Option Decimal}
    {rep : ExecutionReport} {i : Nat} {r₀ : OrderRecord} (ha : a.Reachable)
    (h : a.handle (.replaceOrder ref price quantity) = .ok (a', .report (some rep)))
    (hl : a.orders.lookup ref = some i) (hr₀ : a.orders.get? i = some r₀) (hfit : r₀.RawCountsFit)
    (hrun : a'.RunWhile (WaitingAt i) b) :
    (r₀.status = .new ∨ r₀.status = .partiallyFilled) ∧ ∃ ins am,
      a.instrument? r₀.order.securityId = some ins ∧
      RecordsAmendment ins a.config.lotTolerance r₀ price quantity am ∧
      ∃ r, b.orders.get? i = some r ∧ r₀.AwaitsAmendment am r := by
  obtain ⟨j, r, ins, am, hl', hr, hs, hins, ham, rfl⟩ := replaceOrder_records h
  rw [hl, Option.some.injEq] at hl'
  subst hl'
  rw [hr₀, Option.some.injEq] at hr
  subst hr
  have h₀ := AccountM.refusalOf_eq_none.mp hs
  refine ⟨h₀, ins, am, hins, ham, ?_⟩
  exact hrun.record (Q := r₀.AwaitsAmendment am) (fun _ _ hw hst hs => hw.step h₀ hst hs)
    (.step ha trivial h) ⟨_, OrderBook.get?_modify_of_get? _ hr₀,
      OrderRecord.awaitsAmendment_request h₀ hfit am ins.lot⟩

end Account

/-! ## The confirmation -/

namespace OrderRecord

variable {r : OrderRecord} {am : Amendment} {leaves? : Option Int64}

theorem amend_price (am : Amendment) (leaves? : Option Int64) (r : OrderRecord) :
    (r.amend am leaves?).order.price = am.price.or r.order.price := by
  unfold amend
  split <;> split <;> simp_all

theorem amend_venueOrderId (am : Amendment) (leaves? : Option Int64) (r : OrderRecord) :
    (r.amend am leaves?).order.venueOrderId = r.order.venueOrderId := by
  unfold amend
  split <;> split <;> rfl

@[simp] theorem refresh_venueOrderId (r : OrderRecord) (lot : Precision) :
    (r.refresh lot).order.venueOrderId = r.order.venueOrderId := rfl

@[simp] theorem amend_amendment (am : Amendment) (leaves? : Option Int64) (r : OrderRecord) :
    (r.amend am leaves?).amendment = none := rfl

/-- Record `s` is `r` with the replace `am` applied: `new`, at the amended price and total or the
old ones, its fills kept, the rest of the total open, and no amendment left. -/
structure AmendedTo (r : OrderRecord) (am : Amendment) (s : OrderRecord) : Prop where
  status : s.status = .new
  price : s.order.price = am.price.or r.order.price
  quantity : s.rawQuantity = am.rawQuantity.getD r.rawQuantity
  cum : s.rawCum = r.rawCum
  leaves : s.rawLeaves.toInt = s.rawQuantity.toInt - s.rawCum.toInt
  leavesPos : 0 < s.rawLeaves.toInt
  amendment : s.amendment = none

theorem amendedTo_amend (hs : r.status = .pendingReplace) (hfit : r.RawCountsFit)
    (hleaves : AmendedLeaves r leaves?) (lot : Precision) :
    r.AmendedTo (r.amendment.getD ⟨none, none⟩)
      ((r.amend (r.amendment.getD ⟨none, none⟩) leaves?).refresh lot) := by
  obtain ⟨hl, hc, hq⟩ := hfit.working (by simp [hs, OrderStatus.isTerminal])
  unfold AmendedLeaves at hleaves
  cases htotal : (r.amendment.getD ⟨none, none⟩).rawQuantity with
  | none =>
    rw [htotal] at hleaves
    subst hleaves
    obtain ⟨h₁, h₂, h₃⟩ := amend_counts_of_none r none htotal
    refine ⟨rfl, amend_price _ _ r, ?_, h₃, ?_, ?_, rfl⟩ <;>
      simp only [refresh_rawQuantity, refresh_rawLeaves, refresh_rawCum, h₁, h₂, h₃, htotal,
        Option.getD_none] <;> omega
  | some total =>
    rw [htotal] at hleaves
    obtain ⟨hlt, l, hsub, rfl⟩ := hleaves
    have hl' : l.toInt = total.toInt - r.rawCum.toInt := Word.toInt_of_ofInt? hsub
    obtain ⟨h₁, h₂, h₃⟩ := amend_counts_of_some r l htotal
    refine ⟨rfl, amend_price _ _ r, ?_, h₃, ?_, ?_, rfl⟩ <;>
      simp only [refresh_rawQuantity, refresh_rawLeaves, refresh_rawCum, h₁, h₂, h₃, htotal,
        Option.getD_some] <;> omega

theorem AmendedTo.of_withVenueId {v : VenueOrderId} {s : OrderRecord}
    (h : (r.withVenueId v).AmendedTo am s) : r.AmendedTo am s :=
  ⟨h.status, h.price, h.quantity, h.cum, h.leaves, h.leavesPos, h.amendment⟩

end OrderRecord

namespace Account

variable {b : Account}

theorem OrderBook.get?_assignVenueId_self {b : OrderBook} {i : Nat} {r : OrderRecord}
    (hr : b.get? i = some r) (v : VenueOrderId) :
    (b.assignVenueId i v).get? i = some (r.withVenueId v) := by
  simp [OrderBook.get?_assignVenueId, hr, OrderRecord.withVenueId]

/-- A confirmation that finds the order waiting on a replace whose leaves are defined, and the
venue id that comes with it free, applies the amendment, the venue id claimed first. -/
theorem handle_confirmReplaceOrder_applies {ref : OrderRef} {nv : Option VenueOrderId} {i : Nat}
    {r : OrderRecord} {ins : Instrument} {leaves? : Option Int64}
    (hl : b.orders.lookup ref = some i) (hr : b.orders.get? i = some r)
    (hs : r.status = .pendingReplace) (hleaves : AmendedLeaves r leaves?)
    (hins : b.instrument? r.order.securityId = some ins)
    (hfree : ∀ v, nv = some v → b.orders.venueOwner v (some i) = none) :
    b.handle (.confirmReplaceOrder ref nv) =
      .ok ((nv.elim b (b.claimed i)).moved i ins.lot .replaced
          (OrderRecord.amend (r.amendment.getD ⟨none, none⟩) leaves?) (nv.elim r r.withVenueId),
        .report (some (ExecutionReport.ofOrder (((nv.elim r r.withVenueId).amend
          (r.amendment.getD ⟨none, none⟩) leaves?).refresh ins.lot).order .replaced b.time))) := by
  have hclaimed := OrderBook.get?_assignVenueId_self hr
  have hins' : ∀ v, (b.claimed i v).instrument? (r.withVenueId v).order.securityId = some ins :=
    fun _ => hins
  unfold AmendedLeaves at hleaves
  simp only [handle, answer, AccountM.confirmReplaceOrder, AccountM.run_indexOf_bind, hl,
    AccountM.run_recordAt_bind, hr, hs, OrderStatus.isResting, Bool.false_eq_true, if_false,
    ne_eq, not_true_eq_false]
  cases htotal : (r.amendment.getD ⟨none, none⟩).rawQuantity with
  | none =>
    rw [htotal] at hleaves
    subst hleaves
    cases nv with
    | none =>
      simp only [pure_bind, AccountM.run_map, AccountM.run_transition, hr, hins]
      rfl
    | some v =>
      simp only [AccountM.run_claimVenueId_bind, hfree v rfl, pure_bind, AccountM.run_map,
        AccountM.run_transition, claimed_orders, hclaimed, hins']
      rfl
  | some total =>
    rw [htotal] at hleaves
    obtain ⟨hlt, l, hsub, rfl⟩ := hleaves
    have hle : ¬ total.toInt ≤ r.rawCum.toInt := by omega
    cases nv with
    | none =>
      simp only [hle, if_false, hsub, bind_map_left, AccountM.run_ofFault_bind, AccountM.run_map,
        AccountM.run_transition, hr, hins]
      rfl
    | some v =>
      simp only [hle, if_false, AccountM.run_claimVenueId_bind, hfree v rfl, hsub, bind_map_left,
        AccountM.run_ofFault_bind, AccountM.run_map, AccountM.run_transition, claimed_orders,
        hclaimed, hins']
      rfl

/-- A confirmation that finds the order waiting on a replace that the fills did not overtake, and
the venue id that comes with it held by another order, refuses it and changes nothing. -/
theorem handle_confirmReplaceOrder_taken {ref : OrderRef} {i : Nat} {r : OrderRecord}
    {v : VenueOrderId} {owner : ClientOrderId}
    (hl : b.orders.lookup ref = some i) (hr : b.orders.get? i = some r)
    (hs : r.status = .pendingReplace)
    (hq : ∀ q, (r.amendment.getD ⟨none, none⟩).rawQuantity = some q → r.rawCum.toInt < q.toInt)
    (hown : b.orders.venueOwner v (some i) = some owner) :
    b.handle (.confirmReplaceOrder ref (some v)) =
      .ok (b, .error (LedgerError.duplicateVenueOrder v owner).toApi) := by
  simp only [handle, answer, AccountM.confirmReplaceOrder, AccountM.run_indexOf_bind, hl,
    AccountM.run_recordAt_bind, hr, hs, OrderStatus.isResting, Bool.false_eq_true, if_false,
    ne_eq, not_true_eq_false]
  cases htotal : (r.amendment.getD ⟨none, none⟩).rawQuantity with
  | none => simp only [pure_bind, AccountM.run_claimVenueId_bind, hown]
  | some total =>
    have hle : ¬ total.toInt ≤ r.rawCum.toInt := by have := hq total htotal; omega
    simp only [hle, if_false, AccountM.run_claimVenueId_bind, hown]

end Account

theorem Word.sub?_isSome_of_le {q c : Int64} (h0 : 0 ≤ c.toInt) (hle : c.toInt ≤ q.toInt) :
    (Word.sub? q c).isSome := by
  have := Int64.le_toInt q
  have := Int64.toInt_lt q
  exact Word.ofInt?_isSome (by omega) (by omega)

theorem OrderRecord.amendedLeaves_of_fit {r : OrderRecord} (hfit : r.RawCountsFit)
    (hq : ∀ q, (r.amendment.getD ⟨none, none⟩).rawQuantity = some q → r.rawCum.toInt < q.toInt) :
    ∃ leaves?, AmendedLeaves r leaves? := by
  unfold AmendedLeaves
  cases htotal : (r.amendment.getD ⟨none, none⟩).rawQuantity with
  | none => exact ⟨none, rfl⟩
  | some total =>
    have hlt := hq total htotal
    obtain ⟨l, hl⟩ := Option.isSome_iff_exists.mp (Word.sub?_isSome_of_le hfit.2.1 hlt.le)
    exact ⟨some l, hlt, l, hl, rfl⟩

/-- What the venue's confirmation, under venue id `nv` and through reference `ref`, of the
replace `am` that record `r` in slot `i` of `b` waits on does. When the fills reached the new
total it refuses with `incorrectQuantity` and sends the record back to its fallback. Otherwise it
refuses a venue id indexed for another order and changes nothing; or it applies the amendment
and reports it, with the record under the new venue id and no longer under its old one. -/
structure ConfirmsReplace (b : Account) (ref : OrderRef) (nv : Option VenueOrderId) (i : Nat)
    (r : OrderRecord) (am : Amendment) : Prop where
  overtaken : ∀ q, am.rawQuantity = some q → q.toInt ≤ r.rawCum.toInt →
    ∃ b' s, b.handle (.confirmReplaceOrder ref nv) =
        .ok (b', .error (LedgerError.rejected .incorrectQuantity).toApi) ∧
      b'.orders.get? i = some s ∧ r.FallsBackFrom s
  taken : (∀ q, am.rawQuantity = some q → r.rawCum.toInt < q.toInt) →
    ∀ v owner, nv = some v → b.orders.venueOwner v (some i) = some owner →
      b.handle (.confirmReplaceOrder ref nv) =
        .ok (b, .error (LedgerError.duplicateVenueOrder v owner).toApi)
  applied : (∀ q, am.rawQuantity = some q → r.rawCum.toInt < q.toInt) →
    (∀ v, nv = some v → b.orders.venueOwner v (some i) = none) →
    ∃ b' s, b.handle (.confirmReplaceOrder ref nv) =
        .ok (b', .report (some (ExecutionReport.ofOrder s.order .replaced b.time))) ∧
      b'.orders.get? i = some s ∧ r.AmendedTo am s ∧
      s.order.venueOrderId = nv.or r.order.venueOrderId ∧
      ∀ v, nv = some v → b'.orders.lookup (.venue v) = some i ∧
        ∀ w, r.order.venueOrderId = some w → w ≠ v → b'.orders.lookup (.venue w) = none

namespace Account

variable {b : Account}

/-- The confirmation of a replace that an order with fitting counts waits on does what
`ConfirmsReplace` says. -/
theorem confirmsReplace_of_pending {ref : OrderRef} {nv : Option VenueOrderId} {i : Nat}
    {r : OrderRecord} {am : Amendment} (hk : b.InstrumentsKnown)
    (hl : b.orders.lookup ref = some i) (hr : b.orders.get? i = some r)
    (hs : r.status = .pendingReplace) (ham : r.amendment = some am) (hfit : r.RawCountsFit) :
    ConfirmsReplace b ref nv i r am := by
  obtain ⟨ins, hins⟩ := hk i r hr
  have hget : r.amendment.getD ⟨none, none⟩ = am := by rw [ham]; rfl
  refine ⟨fun q hq hle => ?_, fun hq v owner hv hown => ?_, fun hq hfree => ?_⟩
  · exact ⟨_, _, handle_confirmReplaceOrder_overtaken hl hr hs (hget ▸ hq) hle hins,
      OrderBook.get?_modify_of_get? _ hr, OrderRecord.fallsBackFrom_restorePrevious r ins.lot⟩
  · subst hv
    exact handle_confirmReplaceOrder_taken hl hr hs (hget ▸ hq) hown
  · obtain ⟨leaves?, hleaves⟩ := OrderRecord.amendedLeaves_of_fit hfit (hget ▸ hq)
    rw [handle_confirmReplaceOrder_applies hl hr hs hleaves hins hfree]
    have hclaimed : (nv.elim b (b.claimed i)).orders.get? i = some (nv.elim r r.withVenueId) := by
      cases nv with
      | none => exact hr
      | some v => exact OrderBook.get?_assignVenueId_self hr v
    refine ⟨_, _, rfl, OrderBook.get?_modify_of_get? _ hclaimed, ?_, ?_, ?_⟩
    · rw [← hget]
      cases nv with
      | none => exact OrderRecord.amendedTo_amend hs hfit hleaves ins.lot
      | some v =>
        exact (OrderRecord.amendedTo_amend (r := r.withVenueId v) hs hfit hleaves ins.lot).of_withVenueId
    · rw [OrderRecord.refresh_venueOrderId, OrderRecord.amend_venueOrderId]
      cases nv <;> rfl
    · rintro v rfl
      simp only [Option.elim, moved_orders, OrderBook.lookup_modify, claimed_orders]
      simp only [OrderBook.lookup, OrderBook.get?_assignVenueId_byVenue hr, if_true]
      refine ⟨trivial, fun w hw hne => ?_⟩
      simp [hne, OrderBook.venueKey, hw]

/-- After an accepted replace of an order whose raw counts fit its status, through any commands
other than a snapshot that keep the order waiting (its fills, and whatever is done to other
orders), the order waits in `pendingReplace` on the amendment the request recorded: the price
moved to the tick, and the total on the lot grid above the fills at the request. Its price and
total are as before, its fills only grew, and it has lots open. A confirmation through any
reference that reaches it does what `ConfirmsReplace` says: when the fills reached the new total
the order goes back to `partiallyFilled` with its old price and total; otherwise a venue id held
by another order is refused and changes nothing, and else the amendment is applied. -/
theorem Reachable.confirmed_replace_applies {a a' b : Account} {ref ref' : OrderRef}
    {price quantity : Option Decimal} {rep : ExecutionReport} {i : Nat} {r₀ : OrderRecord}
    (ha : a.Reachable)
    (h : a.handle (.replaceOrder ref price quantity) = .ok (a', .report (some rep)))
    (hl : a.orders.lookup ref = some i) (hr₀ : a.orders.get? i = some r₀)
    (hfit : r₀.RawCountsFit) (hrun : a'.RunWhile (WaitingAt i) b)
    (hl' : b.orders.lookup ref' = some i) (nv : Option VenueOrderId) :
    ∃ ins am r, a.instrument? r₀.order.securityId = some ins ∧
      RecordsAmendment ins a.config.lotTolerance r₀ price quantity am ∧
      b.orders.get? i = some r ∧ r.status = .pendingReplace ∧ r.amendment = some am ∧
      r.order.price = r₀.order.price ∧ r.rawQuantity = r₀.rawQuantity ∧
      r₀.rawCum.toInt ≤ r.rawCum.toInt ∧ 0 < r.rawLeaves.toInt ∧
      ConfirmsReplace b ref' nv i r am ∧
      ∀ q, am.rawQuantity = some q → q.toInt ≤ r.rawCum.toInt →
        r.previousStatus = .partiallyFilled := by
  obtain ⟨-, ins, am, hins, ham, r, hr, hw⟩ := awaitsAmendment_after_replace ha h hl hr₀ hfit hrun
  obtain ⟨hprice, hqty, hcum, hprev⟩ := hw.waits
  have hk := (hrun.reachable (.step ha trivial h)).wellFormed.known
  refine ⟨ins, am, r, hins, ham, hr, hw.pending, hw.amendment, hprice, hqty, hcum,
    (hw.counts.working (by simp [hw.pending, OrderStatus.isTerminal])).1,
    confirmsReplace_of_pending hk hl' hr hw.pending hw.amendment hw.counts, fun q hq hle => ?_⟩
  have hmoved : r.rawCum ≠ r₀.rawCum := fun he => by
    have := ham.aboveCum q hq
    rw [he] at hle
    omega
  rw [hprev, if_neg hmoved]

end Account

namespace Sample

def replaceA : Command :=
  .replaceOrder (.client "a") (some (Decimal.ofParts false 101 0)) (some (Decimal.ofParts false 12 0))

end Sample

namespace Account

/-- Order "a", acknowledged under venue id "v" with 10 lots, is replaced to 12 lots at 101; 4 lots
fill while the replace waits, and the venue confirms it under venue id "w". -/
theorem filled_replace_confirmed_under_new_id :
    ∃ a a' b rep resp r₀, Sample.session acknowledgedSession = some a ∧ a.Reachable ∧
      a.handle Sample.replaceA = .ok (a', .report (some rep)) ∧
      a.orders.lookup (.client "a") = some 0 ∧ a.orders.get? 0 = some r₀ ∧ r₀.RawCountsFit ∧
      a'.handle (Sample.fillA 4) = .ok (b, resp) ∧ WaitingAt 0 b ∧
      b.orders.lookup (.venue "v") = some 0 ∧
      ∃ ins am r, a.instrument? r₀.order.securityId = some ins ∧
        RecordsAmendment ins a.config.lotTolerance r₀ (some (Decimal.ofParts false 101 0))
          (some (Decimal.ofParts false 12 0)) am ∧
        b.orders.get? 0 = some r ∧ r.status = .pendingReplace ∧ r.amendment = some am ∧
        r.order.price = r₀.order.price ∧ r.rawQuantity = r₀.rawQuantity ∧
        r₀.rawCum.toInt ≤ r.rawCum.toInt ∧ 0 < r.rawLeaves.toInt ∧
        ConfirmsReplace b (.venue "v") (some "w") 0 r am ∧
        ∀ q, am.rawQuantity = some q → q.toInt ≤ r.rawCum.toInt →
          r.previousStatus = .partiallyFilled := by
  have hs : Sample.session acknowledgedSession = some _ := rfl
  exact ⟨_, _, _, _, _, _, hs, .of_session hs, rfl, rfl, rfl, by decide, rfl, ⟨_, rfl, .inr rfl⟩,
    rfl, Reachable.confirmed_replace_applies (.of_session hs)
      (rfl : Account.handle _ Sample.replaceA = _) rfl rfl (by decide)
      (.step (c := Sample.fillA 4) .refl (fun x hx => by cases hx) rfl ⟨_, rfl, .inr rfl⟩) rfl
      (some "w")⟩

end Account

namespace Sample

def shortLeavesA : Order :=
  { buyTen with venueOrderId := some "v", status := .new, leavesQuantity := Decimal.ofParts false 5 0 }

def reportShortLeaves : Command :=
  .sync ⟨[Security.btcusdPerp], [shortLeavesA], [], [], none, none⟩

def repriceA : Command := .replaceOrder (.client "a") (some (Decimal.ofParts false 101 0)) none

end Sample

namespace Account

/-- A snapshot may report an order whose open and filled lots fall short of its total, and its
counts then do not fit. A replace that changes only its price is accepted and confirmed, and the
order keeps 5 of its 10 lots open with none filled. -/
theorem reported_short_leaves_kept :
    ∃ a a' b rep rep' r₀ r, Sample.session [Sample.reportShortLeaves] = some a ∧ a.Reachable ∧
      a.orders.get? 0 = some r₀ ∧ ¬ r₀.RawCountsFit ∧
      a.handle Sample.repriceA = .ok (a', .report (some rep)) ∧
      a'.handle (.confirmReplaceOrder (.client "a") none) = .ok (b, .report (some rep')) ∧
      rep'.executionType = .replaced ∧ rep'.orderStatus = .new ∧
      b.orders.get? 0 = some r ∧ r.rawQuantity.toInt = 10 ∧ r.rawCum.toInt = 0 ∧
      r.rawLeaves.toInt = 5 := by
  have hs : Sample.session [Sample.reportShortLeaves] = some _ := rfl
  exact ⟨_, _, _, _, _, _, _, hs, .of_session hs, rfl, by decide, rfl, rfl, rfl, rfl, rfl, rfl,
    rfl, rfl⟩

end Account

end TradeLedger
