import TradeLedger.Proofs.Reachable

/-!
# Refused commands

A command that an account refuses answers an error response. From a reachable account such a
refusal leaves the account exactly as it was: its book with both indexes and the free slots,
positions, balances, margin, instruments, clock and event log. There is one exception. A
replace that the venue confirms after fills reached the amended quantity is refused with
`incorrectQuantity`; the order goes back to the status it had before the request, without its
amendment, and one status event is logged.

The guards of every command run before its first write, settlement works on copies until its
last check passed, and a snapshot is rebuilt on the side; `Account.handle_handled` collects
what this gives per command. Reachability supplies the one fact it needs: every live record's
instrument is known.
-/

namespace TradeLedger

namespace Account

variable {a a' : Account} {c : Command}

/-- A refused command leaves a reachable account as it was, except for a replace confirmed
after fills reached its amended quantity, which restores the order's previous status, drops
the amendment and logs one status event. -/
theorem handle_error_keeps_or_restores {e : ApiError} (hreach : a.Reachable)
    (h : a.handle c = .ok (a', .error e)) :
    a' = a ∨ ∃ ref v i r q ins, c = .confirmReplaceOrder ref v ∧
      e = (LedgerError.rejected .incorrectQuantity).toApi ∧
      a.orders.lookup ref = some i ∧ a.orders.get? i = some r ∧ r.status = .pendingReplace ∧
      (r.amendment.getD ⟨none, none⟩).rawQuantity = some q ∧ q.toInt ≤ r.rawCum.toInt ∧
      a.instrument? r.order.securityId = some ins ∧
      a' = { a with
        orders := a.orders.modify i fun r => r.restorePrevious.refresh ins.lot
        events := a.events.record a.time
          (.orderStatusChanged r.order.clientOrderId .pendingReplace r.previousStatus .rejected) } := by
  have hk : a.InstrumentsKnown := (ReachableUnder.wellFormed hreach).known
  rcases (handle_handled hk h).refused e rfl with hsame | ⟨le, rfl, hrefused⟩
  · exact .inl hsame
  · obtain ⟨ref, v, i, r, q, ins, hc, hi, hr, hs, hq, hle, hins, rfl, rfl⟩ := hrefused
    refine .inr ⟨ref, v, i, r, q, ins, hc, rfl, hi, hr, hs, hq, hle, hins, ?_⟩
    rw [← hs]
    rfl

def replaceOvertaken : List Command :=
  [Sample.listBtcPerp, .newOrder Sample.buyTen, .confirmNewOrder "a" "v",
   .replaceOrder (.client "a") none (some (Decimal.ofParts false 4 0)), Sample.fillA 4]

/-- The venue's confirmation of that replace is refused, and the account does change. -/
theorem replace_overtaken_by_fills_restored :
    ∃ a a', Sample.session replaceOvertaken = some a ∧
      a.handle (.confirmReplaceOrder (.client "a") none) =
        .ok (a', .error (LedgerError.rejected .incorrectQuantity).toApi) ∧ a' ≠ a ∧
      (a' = a ∨ ∃ ref v i r q ins,
        Command.confirmReplaceOrder (.client "a") none = .confirmReplaceOrder ref v ∧
        (LedgerError.rejected .incorrectQuantity).toApi =
          (LedgerError.rejected .incorrectQuantity).toApi ∧
        a.orders.lookup ref = some i ∧ a.orders.get? i = some r ∧ r.status = .pendingReplace ∧
        (r.amendment.getD ⟨none, none⟩).rawQuantity = some q ∧ q.toInt ≤ r.rawCum.toInt ∧
        a.instrument? r.order.securityId = some ins ∧
        a' = { a with
          orders := a.orders.modify i fun r => r.restorePrevious.refresh ins.lot
          events := a.events.record a.time
            (.orderStatusChanged r.order.clientOrderId .pendingReplace r.previousStatus
              .rejected) }) := by
  have hs : Sample.session replaceOvertaken = some _ := rfl
  exact ⟨_, _, hs, rfl, by decide, handle_error_keeps_or_restores (.of_session hs) rfl⟩

end Account

end TradeLedger
