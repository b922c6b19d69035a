import TradeLedger.Proofs.Effects

/-!
# The outcome of each command

One lemma per command: whatever its run from an account gives, it is an `Outcome` of that
command, so the command's effect on the book is one of the `Effect`s, made under the guards
the command checked, and a refusal leaves the account as it was (the refused replace apart).
Every proof walks the command's `do` block in order, splitting on what the command reads.

Three commands may move a record after a first write: confirming a new order or a replace
claims a venue id before the transition, and expiry moves one record after another. There the
transition must not refuse, which holds when every live record's instrument is known
(`Account.InstrumentsKnown`).
-/

namespace TradeLedger

namespace AccountM

open Account

variable {a a' : Account}

theorem refused_unchanged {β : Type} {e : LedgerError} {res : Except LedgerError β}
    (h : (Except.ok (Except.error e, a) : Except Fault _) = .ok (res, a')) :
    ∃ e, res = .error e ∧ a' = a := by
  cases h
  exact ⟨e, rfl, rfl⟩

/-- A new order is refused without a change, or passes its checks and is stored as `pendingNew`
under a client id that no live order holds, its leaves in raw lots on its instrument's grid and
its price the one the checks fixed, with its acceptance logged. -/
theorem newOrder_cases {o : Order} {res : Except LedgerError ExecutionReport}
    (h : (newOrder o).run a = .ok (res, a')) :
    (∃ e, res = .error e ∧ a' = a) ∨
    ∃ ins raw p r, a.orders.containsClient o.clientOrderId = false ∧ o.status = .pendingNew ∧
      a.instrument? o.securityId = some ins ∧ ins.lot.toRaw? o.leavesQuantity = some raw ∧
      r = (OrderRecord.create { o with price := p } raw raw 0).refresh ins.lot ∧
      res = .ok (ExecutionReport.ofOrder r.order .pendingNew a.time) ∧
      a' = { a with
        orders := (a.orders.insert r).2,
        events := a.events.record a.time (.orderAccepted o.clientOrderId r.order.securityId
          r.order.side r.order.quantity r.order.price) } := by
  simp only [newOrder, run_get_bind, run_ite, run_throw_bind, run_orThrow_bind] at h
  by_cases hc : a.orders.containsClient o.clientOrderId = true
  · rw [if_pos hc] at h
    exact .inl (refused_unchanged h)
  rw [if_neg hc] at h
  have hc' : a.orders.containsClient o.clientOrderId = false := by simpa using hc
  by_cases hs : o.status = .pendingNew
  swap
  · rw [if_pos hs] at h
    exact .inl (refused_unchanged h)
  rw [if_neg (not_not.mpr hs)] at h
  cases hins : a.instrument? o.securityId with
  | none =>
    simp only [hins] at h
    exact .inl (refused_unchanged h)
  | some ins =>
    simp only [hins] at h
    split at h
    · exact .inl (refused_unchanged h)
    cases hraw : ins.lot.toRaw? o.leavesQuantity with
    | none =>
      simp only [hraw] at h
      exact .inl (refused_unchanged h)
    | some raw =>
      simp only [hraw] at h
      cases hp : o.price with
      | none =>
        simp only [hp, pure_bind, run_ite, run_throw_bind, run_modify_bind, run_emit_bind] at h
        split at h
        · exact .inl (refused_unchanged h)
        · cases h
          exact .inr ⟨ins, raw, none, _, hc', hs, rfl, hraw, rfl, rfl, rfl⟩
      | some p =>
        cases hr : ins.roundPrice? p with
        | none =>
          simp only [hp, hr, run_throw_bind] at h
          exact .inl (refused_unchanged h)
        | some q =>
          by_cases hpos : Decimal.zero < q
          · simp only [hp, hr, hpos, if_true, pure_bind, run_ite, run_throw_bind, run_modify_bind,
              run_emit_bind] at h
            split at h
            · exact .inl (refused_unchanged h)
            · cases h
              exact .inr ⟨ins, raw, some q, _, hc', hs, rfl, hraw, rfl, rfl, rfl⟩
          · simp only [hp, hr, hpos, if_false, run_throw_bind] at h
            exact .inl (refused_unchanged h)

theorem newOrder_outcome {o : Order} {res : Except LedgerError ExecutionReport}
    (h : (newOrder o).run a = .ok (res, a')) : Outcome a (.newOrder o) a' res := by
  rcases newOrder_cases h with ⟨e, -, rfl⟩ | ⟨ins, raw, p, r, hc, hs, hins, hraw, rfl, rfl, rfl⟩
  · exact .same _
  · exact .ok (.place rfl hc hs hins hraw rfl)

theorem confirmNewOrder_outcome {cid : ClientOrderId} {v : VenueOrderId}
    {res : Except LedgerError (Option ExecutionReport)} (hk : a.InstrumentsKnown)
    (h : (confirmNewOrder cid v).run a = .ok (res, a')) :
    Outcome a (.confirmNewOrder cid v) a' res := by
  simp only [confirmNewOrder] at h
  refine .of_found (fun i r _ hr h => ?_) h
  simp only [run_ite, run_claimVenueId_bind] at h
  split at h
  · cases hown : a.orders.venueOwner v (some i) with
    | some owner =>
      simp only [hown] at h
      exact .refusal h
    | none =>
      simp only [hown] at h
      split at h
      · cases h
        exact .ok (.claim rfl hr hown List.nodup_nil .nil)
      · exact .of_claim_transition hk hr hown (.acknowledge (not_not.mp ‹_›)) h
  · split at h
    · cases h
      exact .same _
    · exact .of_map_transition hr (.acknowledge (not_not.mp ‹_›)) h

theorem rejectNewOrder_outcome {cid : ClientOrderId} {reason : RejectReason}
    {res : Except LedgerError ExecutionReport}
    (h : (rejectNewOrder cid reason).run a = .ok (res, a')) :
    Outcome a (.rejectNewOrder cid reason) a' res := by
  simp only [rejectNewOrder] at h
  refine .of_found (fun i r _ hr h => ?_) h
  simp only [run_ite, run_throw_bind] at h
  split at h
  · exact .refusal h
  · have hs : r.status = .pendingNew := not_not.mp ‹_›
    rw [run_bind, run_transition, hr] at h
    cases hins : a.instrument? r.order.securityId with
    | none =>
      simp only [hins] at h
      exact .refusal h
    | some ins =>
      simp only [hins, run_modify_bind, run_pure] at h
      cases h
      exact .ok (.reject rfl hr hs hins rfl)

theorem cancelOrder_outcome {ref : OrderRef} {res : Except LedgerError ExecutionReport}
    (h : (cancelOrder ref).run a = .ok (res, a')) : Outcome a (.cancelOrder ref) a' res := by
  simp only [cancelOrder] at h
  refine .of_found (fun i r _ hr h => ?_) h
  cases hs : refusalOf r.status with
  | some reason =>
    simp only [hs, run_throw_bind] at h
    exact .refusal h
  | none =>
    simp only [hs] at h
    exact .of_transition hr (.requestCancel hs) h

theorem confirmCancelOrder_outcome {ref : OrderRef}
    {res : Except LedgerError (Option ExecutionReport)}
    (h : (confirmCancelOrder ref).run a = .ok (res, a')) :
    Outcome a (.confirmCancelOrder ref) a' res := by
  simp only [confirmCancelOrder] at h
  refine .of_found (fun i r _ hr h => ?_) h
  split at h
  · cases h
    exact .same _
  · exact .of_map_transition hr (.cancel ‹_›) h
  · exact .refusal h

theorem rejectCancelOrder_outcome {ref : OrderRef} {reason : RejectReason}
    {res : Except LedgerError (Option ExecutionReport)}
    (h : (rejectCancelOrder ref reason).run a = .ok (res, a')) :
    Outcome a (.rejectCancelOrder ref reason) a' res := by
  simp only [rejectCancelOrder] at h
  refine .of_found (fun i r _ hr h => ?_) h
  simp only [run_ite, bind_pure_comp] at h
  split at h
  · cases h
    exact .same _
  · exact .of_map_transition hr (.restore (.inl (not_not.mp ‹_›))) h

/-- A replace refuses without a change, or passes its checks on the record its reference
reaches and ends in the transition into `pendingReplace` with the amendment it checked: the price
moved to the nearest tick and positive, the quantity in raw lots when it lies on the grid within
the account's tolerance, above what the record has filled. -/
theorem replaceOrder_cases {ref : OrderRef} {price quantity : Option Decimal}
    {res : Except LedgerError ExecutionReport}
    (h : (replaceOrder ref price quantity).run a = .ok (res, a')) :
    (∃ e, res = .error e ∧ a' = a) ∨
    ∃ i r ins am, a.orders.lookup ref = some i ∧ a.orders.get? i = some r ∧
      refusalOf r.status = none ∧ a.instrument? r.order.securityId = some ins ∧
      am.price = price.bind ins.roundPrice? ∧ (∀ p, am.price = some p → Decimal.zero < p) ∧
      am.rawQuantity = quantity.bind (fun q =>
        if ins.lot.isAligned q a.config.lotTolerance then ins.lot.toRaw? q else none) ∧
      (∀ q, am.rawQuantity = some q → r.rawCum.toInt < q.toInt) ∧
      (transition i .pendingReplace (OrderRecord.requestAmend am)).run a = .ok (res, a') := by
  simp only [replaceOrder] at h
  rcases run_found_cases h with h | ⟨i, r, hl, hr, h⟩
  · exact .inl (refused_unchanged h.symm)
  cases hs : refusalOf r.status with
  | some reason =>
    simp only [hs, run_throw_bind] at h
    exact .inl (refused_unchanged h)
  | none =>
    simp only [hs, run_ite, run_throw_bind, run_view_bind] at h
    split at h
    · exact .inl (refused_unchanged h)
    cases hins : a.instrument? r.order.securityId with
    | none =>
      simp only [hins] at h
      exact .inl (refused_unchanged h)
    | some v =>
      simp only [hins] at h
      cases price with
      | none =>
        cases quantity with
        | none => simp at *
        | some q =>
          simp only [pure_bind, run_get_bind] at h
          split at h
          next raw hraw =>
            split at h
            next hgt =>
              exact .inr ⟨i, r, v, _, hl, hr, hs, hins, rfl, by simp, hraw.symm,
                by simpa using hgt, h⟩
            next => exact .inl (refused_unchanged h)
          next => exact .inl (refused_unchanged h)
      | some p =>
        cases hround : v.roundPrice? p with
        | none =>
          simp only [hround, run_throw_bind] at h
          exact .inl (refused_unchanged h)
        | some q =>
          by_cases hpos : Decimal.zero < q
          · cases quantity with
            | none =>
              simp only [hround, hpos, if_true, pure_bind, run_get_bind] at h
              exact .inr ⟨i, r, v, _, hl, hr, hs, hins, hround.symm, by simpa using hpos, rfl,
                by simp, h⟩
            | some q =>
              simp only [hround, hpos, if_true, pure_bind, run_get_bind] at h
              split at h
              next raw hraw =>
                split at h
                next hgt =>
                  exact .inr ⟨i, r, v, _, hl, hr, hs, hins, hround.symm, by simpa using hpos,
                    hraw.symm, by simpa using hgt, h⟩
                next => exact .inl (refused_unchanged h)
              next => exact .inl (refused_unchanged h)
          · simp only [hround, hpos, if_false, run_throw_bind] at h
            exact .inl (refused_unchanged h)

theorem replaceOrder_outcome {ref : OrderRef} {price quantity : Option Decimal}
    {res : Except LedgerError ExecutionReport}
    (h : (replaceOrder ref price quantity).run a = .ok (res, a')) :
    Outcome a (.replaceOrder ref price quantity) a' res := by
  rcases replaceOrder_cases h with ⟨e, -, rfl⟩ |
    ⟨i, r, ins, am, -, hr, hs, -, -, -, -, habove, h⟩
  · exact .same _
  · exact .of_transition hr (.requestAmend hs habove) h

/-- A confirmed replace, from the record its reference reaches: it answers nothing and changes
nothing when the record rests; it refuses without a change when the reference reaches no record,
the record waits on no replace, or the venue id that came is indexed for another record; when
the fills in flight reached the new quantity it sends the record back and refuses; otherwise it
claims the venue id that came, if any, and applies the amendment with its leaves. -/
theorem confirmReplaceOrder_cases {ref : OrderRef} {nv : Option VenueOrderId}
    {res : Except LedgerError (Option ExecutionReport)}
    (h : (confirmReplaceOrder ref nv).run a = .ok (res, a')) :
    (∃ e, res = .error e ∧ a' = a) ∨
    (∃ i r, a.orders.lookup ref = some i ∧ a.orders.get? i = some r ∧
      r.status.isResting = true ∧ res = .ok none ∧ a' = a) ∨
    (∃ e, res = .error e ∧ ReplaceRefused a (.confirmReplaceOrder ref nv) a' e) ∨
    ∃ i r leaves?, a.orders.lookup ref = some i ∧ a.orders.get? i = some r ∧
      r.status = .pendingReplace ∧ AmendedLeaves r leaves? ∧
      (∀ v, nv = some v → a.orders.venueOwner v (some i) = none) ∧
      (some <$> transition i .replaced (OrderRecord.amend (r.amendment.getD ⟨none, none⟩) leaves?)).run
        (nv.elim a (a.claimed i)) = .ok (res, a') := by
  simp only [confirmReplaceOrder] at h
  rcases run_found_cases h with h | ⟨i, r, hl, hr, h⟩
  · exact .inl (refused_unchanged h.symm)
  simp only [run_ite, run_throw_bind] at h
  split at h
  · cases h
    exact .inr (.inl ⟨i, r, hl, hr, ‹_›, rfl, rfl⟩)
  split at h
  · exact .inl (refused_unchanged h)
  have hs : r.status = .pendingReplace := not_not.mp ‹_›
  cases hq : (r.amendment.getD ⟨none, none⟩).rawQuantity with
  | none =>
    have hleaves : AmendedLeaves r none := by simp [AmendedLeaves, hq]
    cases nv with
    | none =>
      simp only [hq, pure_bind] at h
      exact .inr (.inr (.inr ⟨i, r, none, hl, hr, hs, hleaves, (fun _ hv => by cases hv), h⟩))
    | some v =>
      simp only [hq, run_claimVenueId_bind] at h
      cases hown : a.orders.venueOwner v (some i) with
      | some owner =>
        simp only [hown] at h
        exact .inl (refused_unchanged h)
      | none =>
        simp only [hown, pure_bind] at h
        exact .inr (.inr (.inr ⟨i, r, none, hl, hr, hs, hleaves,
          (fun _ hv => by cases hv; exact hown), h⟩))
  | some q =>
    by_cases hle : q.toInt ≤ r.rawCum.toInt
    · simp only [hq, hle, if_true] at h
      rw [run_bind, run_transition, hr] at h
      cases hins : a.instrument? r.order.securityId with
      | none =>
        simp only [hins] at h
        exact .inl (refused_unchanged h)
      | some ins =>
        simp only [hins, run_throw_bind] at h
        cases h
        exact .inr (.inr (.inl ⟨_, rfl, ref, nv, i, r, q, ins, rfl, hl, hr, hs, hq, hle, hins, rfl,
          rfl⟩))
    · simp only [hq, hle, if_false] at h
      cases hsub : Word.sub? q r.rawCum with
      | none =>
        cases nv with
        | none => simp [bind_map_left, run_ofFault_bind, hsub] at h
        | some v =>
          simp only [run_claimVenueId_bind] at h
          cases hown : a.orders.venueOwner v (some i) with
          | some owner =>
            simp only [hown] at h
            exact .inl (refused_unchanged h)
          | none => simp [hown, bind_map_left, run_ofFault_bind, hsub] at h
      | some l =>
        have hleaves : AmendedLeaves r (some l) := by
          simp [AmendedLeaves, hq, hsub]
          omega
        cases nv with
        | none =>
          simp only [bind_map_left, run_ofFault_bind, hsub] at h
          exact .inr (.inr (.inr ⟨i, r, some l, hl, hr, hs, hleaves, (fun _ hv => by cases hv), h⟩))
        | some v =>
          simp only [run_claimVenueId_bind] at h
          cases hown : a.orders.venueOwner v (some i) with
          | some owner =>
            simp only [hown] at h
            exact .inl (refused_unchanged h)
          | none =>
            simp only [hown, bind_map_left, run_ofFault_bind, hsub] at h
            exact .inr (.inr (.inr ⟨i, r, some l, hl, hr, hs, hleaves,
              (fun _ hv => by cases hv; exact hown), h⟩))

theorem confirmReplaceOrder_outcome {ref : OrderRef} {nv : Option VenueOrderId}
    {res : Except LedgerError (Option ExecutionReport)} (hk : a.InstrumentsKnown)
    (h : (confirmReplaceOrder ref nv).run a = .ok (res, a')) :
    Outcome a (.confirmReplaceOrder ref nv) a' res := by
  rcases confirmReplaceOrder_cases h with ⟨e, -, rfl⟩ | ⟨-, -, -, -, -, -, rfl⟩ |
    ⟨e, rfl, hrefused⟩ | ⟨i, r, leaves?, -, hr, hs, hleaves, hfree, h⟩
  · exact .same _
  · exact .same _
  · exact .of_replaceRefused hrefused
  · cases nv with
    | none => exact .of_map_transition hr (.amend hs hleaves) h
    | some v => exact .of_claim_transition hk hr (hfree v rfl) (.amend hs hleaves) h

theorem rejectReplaceOrder_outcome {ref : OrderRef} {reason : RejectReason}
    {res : Except LedgerError (Option ExecutionReport)}
    (h : (rejectReplaceOrder ref reason).run a = .ok (res, a')) :
    Outcome a (.rejectReplaceOrder ref reason) a' res := by
  simp only [rejectReplaceOrder] at h
  refine .of_found (fun i r _ hr h => ?_) h
  simp only [run_ite, bind_pure_comp] at h
  split at h
  · cases h
    exact .same _
  · exact .of_map_transition hr (.restore (.inr (not_not.mp ‹_›))) h

theorem pendingFilled_outcome {ref : OrderRef} {res : Except LedgerError (Option ExecutionReport)}
    (h : (pendingFilled ref).run a = .ok (res, a')) : Outcome a (.pendingFilled ref) a' res := by
  simp only [pendingFilled] at h
  refine .of_found (fun i r _ hr h => ?_) h
  simp only [bind_pure_comp] at h
  split at h
  · exact .of_map_transition hr (.restore (.inl ‹_›)) h
  · exact .of_map_transition hr (.restore (.inr ‹_›)) h
  · cases h
    exact .same _

/-- A fill either leaves the account as it was and answers no report, or is accepted: it fills
`n > 0` raw lots within the leaves of the record that the reference reaches. -/
theorem confirmFill_cases {ref : OrderRef} {t : TradeId} {price quantity : Decimal}
    {taker : Bool} {res : Except LedgerError (Option ExecutionReport)}
    (h : (confirmFill ref t price quantity taker).run a = .ok (res, a')) :
    (a' = a ∧ ∀ rep, res ≠ .ok (some rep)) ∨
    ∃ i r ins n cum rep, a.orders.lookup ref = some i ∧ a.orders.get? i = some r ∧
      a.instrument? r.order.securityId = some ins ∧ ins.lot.toRaw? quantity = some n ∧
      0 < n.toInt ∧ n.toInt ≤ r.rawLeaves.toInt ∧ Word.add? r.rawCum n = some cum ∧
      res = .ok (some rep) ∧ a'.instruments = a.instruments ∧
      a'.orders = a.orders.modify i (fun r' =>
        (r'.fill t (Int64.ofInt (r.rawLeaves.toInt - n.toInt)) cum).refresh ins.lot) ∧
      ∃ a₁, (settleFill r.order.securityId r.order.side t price (ins.lot.fromRaw n) n taker).run a =
          .ok (.ok ⟨⟩, a₁) ∧ a'.margin = a₁.margin ∧ a'.positions = a₁.positions ∧
        a'.marginGrid = a₁.marginGrid := by
  have refused : ∀ e, (Except.ok (Except.error e, a) : Except Fault _) = .ok (res, a') →
      a' = a ∧ ∀ rep, res ≠ .ok (some rep) := by
    intro e h
    cases h
    exact ⟨rfl, fun _ h => by cases h⟩
  simp only [confirmFill] at h
  rcases run_found_cases h with h | ⟨i, r, hl, hr, h⟩
  · exact .inl (refused _ h.symm)
  simp only [run_ite, run_throw_bind, run_view_bind, run_get_bind, run_orThrow_bind] at h
  split at h
  · cases h
    exact .inl ⟨rfl, fun _ h => by cases h⟩
  split at h
  · exact .inl (refused _ h)
  cases hins : a.instrument? r.order.securityId with
  | none =>
    simp only [hins] at h
    exact .inl (refused _ h)
  | some ins =>
    simp only [hins] at h
    split at h
    · exact .inl (refused _ h)
    cases hraw : ins.lot.toRaw? quantity with
    | none =>
      simp only [hraw] at h
      exact .inl (refused _ h)
    | some n =>
      simp only [hraw] at h
      split at h
      · exact .inl (refused _ h)
      split at h
      · exact .inl (refused _ h)
      have hpos : 0 < n.toInt := by omega
      have hle : n.toInt ≤ r.rawLeaves.toInt := by omega
      rw [run_bind] at h
      cases hset : (settleFill r.order.securityId r.order.side t price
        (ins.lot.fromRaw n) n taker).run a with
      | error f => simp [hset] at h
      | ok p =>
        obtain ⟨sres, a₁⟩ := p
        have hsettle := settleFill_settles hset
        cases sres with
        | error e =>
          simp only [hset] at h
          cases h
          exact .inl ⟨hsettle.refused e rfl, fun _ h => by cases h⟩
        | ok u =>
          have hr₁ : a₁.orders.get? i = some r := by rw [hsettle.orders, hr]
          have hins₁ : a₁.instrument? r.order.securityId = some ins := by
            rw [Account.instrument?, hsettle.instruments]
            exact hins
          simp only [hset, run_recordAt_bind, hr₁, run_ofFault_bind] at h
          cases hcum : Word.add? r.rawCum n with
          | none => simp [hcum] at h
          | some cum =>
            simp only [hcum] at h
            rw [run_bind, run_transition, hr₁] at h
            simp only [hins₁, run_emit_bind, run_pure] at h
            cases h
            refine .inr ⟨i, r, ins, n, cum, _, hl, hr, hins, hraw, hpos, hle, hcum, rfl,
              hsettle.instruments, ?_, a₁, hset, rfl, rfl, rfl⟩
            rw [Account.moved_orders, hsettle.orders]

theorem confirmFill_outcome {ref : OrderRef} {t : TradeId} {price quantity : Decimal}
    {taker : Bool} {res : Except LedgerError (Option ExecutionReport)}
    (h : (confirmFill ref t price quantity taker).run a = .ok (res, a')) :
    Outcome a (.confirmFill ref t price quantity taker) a' res := by
  rcases confirmFill_cases h with ⟨rfl, -⟩ |
    ⟨i, r, ins, n, cum, rep, hl, hr, hins, -, hpos, hle, hcum, rfl, hi, ho, -⟩
  · exact .same _
  · exact .ok (.fill hi hl hr hins hpos hle hcum ho)

theorem confirmExpiredOrder_outcome {ref : OrderRef}
    {res : Except LedgerError (Option ExecutionReport)}
    (h : (confirmExpiredOrder ref).run a = .ok (res, a')) :
    Outcome a (.confirmExpiredOrder ref) a' res := by
  simp only [confirmExpiredOrder] at h
  refine .of_found (fun i r _ hr h => ?_) h
  split at h
  · cases h
    exact .same _
  · rw [run_ite] at h
    split at h
    · exact .refusal h
    · exact .of_map_transition hr (.expire (by simpa using ‹¬r.status.isTerminal = true›)) h

/-- Expiring live records of known instruments at distinct slots, one after another, never
refuses, and moves each of them once. -/
theorem expireAll_run (slots : List Nat) (hnd : slots.Nodup) :
    ∀ a : Account, a.InstrumentsKnown →
      (∀ j ∈ slots, ∃ r, a.orders.get? j = some r ∧ r.status.isTerminal = false) →
      ∃ reports a', (slots.mapM fun j => transition j .expired OrderRecord.expire).run a =
        .ok (.ok reports, a') ∧ a'.instruments = a.instruments ∧
        MoveRun a.instruments slots a.orders a'.orders := by
  induction slots with
  | nil => exact fun a _ _ => ⟨[], a, rfl, rfl, .nil⟩
  | cons j js ih =>
    intro a hk hlive
    obtain ⟨r, hr, hlive_j⟩ := hlive j (by simp)
    obtain ⟨ins, hins⟩ := hk j r hr
    have hj : j ∉ js := (List.nodup_cons.mp hnd).1
    let a₁ := a.moved j ins.lot .expired OrderRecord.expire r
    have hk₁ : a₁.InstrumentsKnown := hk.modify hr (.expire hlive_j) rfl rfl
    have hlive₁ : ∀ k ∈ js, ∃ s, a₁.orders.get? k = some s ∧ s.status.isTerminal = false := by
      intro k hk
      have hkj : k ≠ j := fun e => hj (e ▸ hk)
      simpa [a₁, OrderBook.get?_modify, hkj] using hlive k (by simp [hk])
    obtain ⟨reports, a', hrun, hinst, hmoves⟩ := ih (List.nodup_cons.mp hnd).2 a₁ hk₁ hlive₁
    refine ⟨ExecutionReport.ofOrder (r.expire.refresh ins.lot).order .expired a.time :: reports, a',
      ?_, hinst, .cons hr hins (.expire hlive_j) hmoves⟩
    rw [List.mapM_cons, run_bind, run_transition, hr]
    simp only [hins]
    rw [run_bind, show a.moved j ins.lot .expired OrderRecord.expire r = a₁ from rfl, hrun]
    rfl

theorem expireAll_outcome {c : Command} {slots : List Nat}
    {res : Except LedgerError (List ExecutionReport)}
    (h : (slots.mapM fun j => transition j .expired OrderRecord.expire).run a = .ok (res, a'))
    (hk : a.InstrumentsKnown) (hnd : slots.Nodup)
    (hlive : ∀ j ∈ slots, ∃ r, a.orders.get? j = some r ∧ r.status.isTerminal = false) :
    Outcome a c a' res := by
  obtain ⟨reports, a₁, hrun, hinst, hmoves⟩ := expireAll_run slots hnd a hk hlive
  rw [hrun] at h
  cases h
  exact .ok (.moves hinst hnd hmoves)

theorem checkExpiration_outcome {res : Except LedgerError (List ExecutionReport)}
    (hk : a.InstrumentsKnown) (h : checkExpiration.run a = .ok (res, a')) :
    Outcome a .checkExpiration a' res := by
  simp only [checkExpiration, run_get_bind] at h
  refine expireAll_outcome h hk (OrderBook.nodup_slotsWhere _ _) fun j hj => ?_
  obtain ⟨r, hr, hdue⟩ := OrderBook.mem_slotsWhere.mp hj
  refine ⟨r, hr, ?_⟩
  cases hs : r.status <;> simp [hs, OrderStatus.isResting, OrderStatus.isTerminal] at hdue ⊢

theorem pruneClosed_outcome {res : Except LedgerError Nat}
    (h : pruneClosed.run a = .ok (res, a')) : Outcome a .pruneClosed a' res := by
  simp only [pruneClosed, run_get_bind, run_set_bind, run_pure] at h
  cases h
  exact .ok (.prune rfl rfl)

theorem sync_outcome {x : SyncInput} {res : Except LedgerError PUnit}
    (h : (sync x).run a = .ok (res, a')) : Outcome a (.sync x) a' res := by
  simp only [sync, run_get_bind] at h
  split at h
  · exact .refusal h
  · rename_i views orders positions balances margin hr
    simp only [run_set_bind, run_emit] at h
    cases h
    cases hv : a.rebuildInstruments x with
    | error e => simp [hv, bind, Except.bind] at hr
    | ok views' =>
      cases ho : Account.rebuildOrders views' x.orders with
      | error e => simp [hv, ho, bind, Except.bind] at hr
      | ok orders' =>
        simp only [hv, ho, bind, Except.bind] at hr
        split at hr
        · cases hr
        · split at hr
          · cases hr
          · cases hr
            exact .ok (.sync hv ho rfl rfl)

end AccountM

/-- What handling command `c` from `a` leaves: its effect on the book, and after an error
response the account as it was, unless the refusal is `ReplaceRefused`. -/
structure Handled (a : Account) (c : Command) (a' : Account) (resp : Response) : Prop where
  effect : Effect a c a'
  refused : ∀ e, resp = .error e → a' = a ∨ ∃ le, e = le.toApi ∧ ReplaceRefused a c a' le

namespace Account

variable {a a' : Account} {c : Command} {resp : Response}

theorem answer_handled {α : Type} {m : AccountM α} {wrap : α → Response}
    (hw : ∀ x, (wrap x).isError = false)
    (hm : ∀ res a', m.run a = .ok (res, a') → Outcome a c a' res)
    (h : a.answer m wrap = .ok (a', resp)) : Handled a c a' resp := by
  unfold answer at h
  split at h
  · cases h
  · rename_i x a₁ hrun
    cases h
    exact ⟨(hm _ _ hrun).effect, fun e he => by simpa [he, Response.isError] using hw x⟩
  · rename_i le a₁ hrun
    cases h
    refine ⟨(hm _ _ hrun).effect, fun e he => ?_⟩
    cases he
    rcases (hm _ _ hrun).refused le rfl with hsame | hrefused
    · exact .inl hsame
    · exact .inr ⟨le, rfl, hrefused⟩

/-- Every command, from an account whose live records' instruments are known, changes the book
by one of the `Effect`s and refuses without a change, the refused replace apart. -/
theorem handle_handled (hk : a.InstrumentsKnown) (h : a.handle c = .ok (a', resp)) :
    Handled a c a' resp := by
  cases c with
  | setTime t =>
    cases h
    exact ⟨.keep rfl rfl, fun _ he => by cases he⟩
  | newOrder o => exact answer_handled (fun _ => rfl) (fun _ _ => AccountM.newOrder_outcome) h
  | confirmNewOrder cid v =>
    exact answer_handled (fun _ => rfl) (fun _ _ => AccountM.confirmNewOrder_outcome hk) h
  | rejectNewOrder cid reason =>
    exact answer_handled (fun _ => rfl) (fun _ _ => AccountM.rejectNewOrder_outcome) h
  | cancelOrder ref => exact answer_handled (fun _ => rfl) (fun _ _ => AccountM.cancelOrder_outcome) h
  | confirmCancelOrder ref =>
    exact answer_handled (fun _ => rfl) (fun _ _ => AccountM.confirmCancelOrder_outcome) h
  | rejectCancelOrder ref reason =>
    exact answer_handled (fun _ => rfl) (fun _ _ => AccountM.rejectCancelOrder_outcome) h
  | replaceOrder ref p q =>
    exact answer_handled (fun _ => rfl) (fun _ _ => AccountM.replaceOrder_outcome) h
  | confirmReplaceOrder ref v =>
    exact answer_handled (fun _ => rfl) (fun _ _ => AccountM.confirmReplaceOrder_outcome hk) h
  | rejectReplaceOrder ref reason =>
    exact answer_handled (fun _ => rfl) (fun _ _ => AccountM.rejectReplaceOrder_outcome) h
  | pendingFilled ref =>
    exact answer_handled (fun _ => rfl) (fun _ _ => AccountM.pendingFilled_outcome) h
  | confirmFill ref t p q taker =>
    exact answer_handled (fun _ => rfl) (fun _ _ => AccountM.confirmFill_outcome) h
  | confirmExpiredOrder ref =>
    exact answer_handled (fun _ => rfl) (fun _ _ => AccountM.confirmExpiredOrder_outcome) h
  | checkExpiration =>
    exact answer_handled (fun _ => rfl) (fun _ _ => AccountM.checkExpiration_outcome hk) h
  | pruneClosed => exact answer_handled (fun _ => rfl) (fun _ _ => AccountM.pruneClosed_outcome) h
  | sync x => exact answer_handled (fun _ => rfl) (fun _ _ => AccountM.sync_outcome) h

end Account

end TradeLedger
