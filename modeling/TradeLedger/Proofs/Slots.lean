import TradeLedger.Proofs.Quantities

/-!
# One order through a stretch of commands

What one command other than a snapshot makes of a live record (`OrderRecord.Step`): it keeps
it, moves it by a guarded move, fills it, or drops it, and it drops it only when the record
waits for its acknowledgment or is finished. A confirmation may first give the record a new
venue id, which changes nothing else. `Account.RunWhile` collects the runs of such commands
through accounts of one kind, so that a property of the record in one slot is carried along a
run by its step lemma alone (`Account.RunWhile.record`).
-/

namespace TradeLedger

namespace OrderRecord

def withVenueId (r : OrderRecord) (v : VenueOrderId) : OrderRecord :=
  { r with order := { r.order with venueOrderId := some v } }

/-- What one command other than a snapshot may make of the live record `r`, once any new venue
id is given. -/
inductive Becomes (r : OrderRecord) : Option OrderRecord → Prop
  | keep : Becomes r (some r)
  | move {f : OrderRecord → OrderRecord} {lot : Precision} : RecordMove f r →
      Becomes r (some ((f r).refresh lot))
  | fill {t : TradeId} {n cum : Int64} {lot : Precision} : 0 < n.toInt →
      n.toInt ≤ r.rawLeaves.toInt → Word.add? r.rawCum n = some cum →
      Becomes r (some ((r.fill t (Int64.ofInt (r.rawLeaves.toInt - n.toInt)) cum).refresh lot))
  | drop : r.status = .pendingNew ∨ r.status.isTerminal = true → Becomes r none

/-- One command's step of a live record: it `Becomes` something, under its venue id or a new
one. -/
def Step (r : OrderRecord) (s : Option OrderRecord) : Prop :=
  r.Becomes s ∨ ∃ v, (r.withVenueId v).Becomes s

@[simp] theorem withVenueId_status (r : OrderRecord) (v : VenueOrderId) :
    (r.withVenueId v).status = r.status := rfl

/-! What refreshing the decimal quantities and noting a trade leave alone. -/

@[simp] theorem refresh_price (r : OrderRecord) (lot : Precision) :
    (r.refresh lot).order.price = r.order.price := rfl

@[simp] theorem refresh_previousStatus (r : OrderRecord) (lot : Precision) :
    (r.refresh lot).previousStatus = r.previousStatus := rfl

@[simp] theorem refresh_tradeIds (r : OrderRecord) (lot : Precision) :
    (r.refresh lot).tradeIds = r.tradeIds := rfl

@[simp] theorem noteTrade_order (r : OrderRecord) (t : TradeId) : (r.noteTrade t).order = r.order := by
  unfold noteTrade
  split <;> rfl

@[simp] theorem noteTrade_previousStatus (r : OrderRecord) (t : TradeId) :
    (r.noteTrade t).previousStatus = r.previousStatus := by
  unfold noteTrade
  split <;> rfl

@[simp] theorem fill_price (r : OrderRecord) (t : TradeId) (leaves cum : Int64) :
    (r.fill t leaves cum).order.price = r.order.price := by
  simp only [fill]
  split_ifs <;> simp

theorem fill_previousStatus_of_waiting (r : OrderRecord) (t : TradeId) {leaves : Int64}
    (cum : Int64) (hl : leaves.toInt ≠ 0)
    (hw : r.status = .pendingCancel ∨ r.status = .pendingReplace) :
    (r.fill t leaves cum).previousStatus = .partiallyFilled := by
  simp only [fill, if_neg hl]
  rw [if_pos (by simpa [status] using hw)]

end OrderRecord

section Effects

variable {a a' : Account} {c : Command} {i : Nat} {r : OrderRecord}

theorem Effect.recordStep (he : Effect a c a') (hfree : a.orders.FreeSlots)
    (hsync : ∀ x, c ≠ .sync x) (hr : a.orders.get? i = some r) :
    r.Step (a'.orders.get? i) := by
  have hmoves : ∀ {ins slots b b'} {s : OrderRecord}, MoveRun ins slots b b' → slots.Nodup →
      b.get? i = some s → s.Becomes (b'.get? i) := by
    intro _ _ _ _ s hrun hnd hs
    rcases hrun.get?_cases hnd hs with h | ⟨f, inst, hf, h⟩
    · rw [h]
      exact .keep
    · rw [h]
      exact .move hf
  cases he with
  | moves _ hnd hrun => exact .inl (hmoves hrun hnd hr)
  | @claim _ _ j s v _ _ hs _ hnd hrun =>
    by_cases hij : i = j
    · subst hij
      rw [hr, Option.some.injEq] at hs
      subst hs
      have hclaimed : (a.orders.assignVenueId i v).get? i = some (r.withVenueId v) := by
        rw [OrderBook.get?_assignVenueId, if_pos rfl, hr, Option.map_some]
        rfl
      exact .inr ⟨v, hmoves hrun hnd hclaimed⟩
    · have hkept : (a.orders.assignVenueId j v).get? i = some r := by
        rw [OrderBook.get?_assignVenueId, if_neg hij, hr]
      exact .inl (hmoves hrun hnd hkept)
  | @fill _ _ _ _ _ _ j s _ _ _ _ _ hs _ hpos hle hcum ho =>
    rw [ho, OrderBook.get?_modify]
    by_cases hij : i = j
    · subst hij
      rw [hr, Option.some.injEq] at hs
      subst hs
      rw [if_pos rfl, hr, Option.map_some]
      exact .inl (.fill hpos hle hcum)
    · rw [if_neg hij, hr]
      exact .inl .keep
  | place _ _ _ _ _ ho =>
    rw [ho, hfree.get?_insert, Function.update_apply, if_neg, hr]
    · exact .inl .keep
    · intro hi
      rw [hi, hfree.get?_insert_fst] at hr
      cases hr
  | @reject _ _ j s _ _ hs hpend _ ho =>
    rw [ho, OrderBook.get?_discard_eq, Function.update_apply]
    by_cases hij : i = j
    · subst hij
      rw [hr, Option.some.injEq] at hs
      subst hs
      rw [if_pos rfl]
      exact .inl (.drop (.inl hpend))
    · rw [if_neg hij, OrderBook.get?_modify, if_neg hij, hr]
      exact .inl .keep
  | prune _ ho =>
    rw [ho, OrderBook.get?_foldl_discard]
    split
    · obtain ⟨s, hs, hfin⟩ := OrderBook.mem_slotsWhere.mp ‹_›
      rw [hr, Option.some.injEq] at hs
      subst hs
      exact .inl (.drop (.inr hfin))
    · rw [hr]
      exact .inl .keep
  | sync => exact absurd rfl (hsync _)

end Effects

namespace Account

/-- Runs of commands other than a snapshot from `a`, each command leaving an account that
satisfies `P`. -/
inductive RunWhile (P : Account → Prop) (a : Account) : Account → Prop
  | refl : RunWhile P a a
  | step {b b' : Account} {c : Command} {resp : Response} : RunWhile P a b →
      (∀ x, c ≠ .sync x) → b.handle c = .ok (b', resp) → P b' → RunWhile P a b'

variable {P : Account → Prop} {a b : Account}

theorem RunWhile.reachable (h : a.RunWhile P b) (ha : a.Reachable) : b.Reachable := by
  induction h with
  | refl => exact ha
  | step _ _ hc _ ih => exact .step ih trivial hc

/-- A property of the record in slot `i` that every `Step` to a record of kind `R` keeps holds
along every run that keeps a record of kind `R` in the slot. -/
theorem RunWhile.record {i : Nat} {R Q : OrderRecord → Prop}
    (hQ : ∀ r s, Q r → r.Step (some s) → R s → Q s)
    (h : a.RunWhile (fun b => ∃ s, b.orders.get? i = some s ∧ R s) b) (ha : a.Reachable)
    (hstart : ∃ r, a.orders.get? i = some r ∧ Q r) : ∃ r, b.orders.get? i = some r ∧ Q r := by
  induction h with
  | refl => exact hstart
  | step hrun hsync hc hP ih =>
    obtain ⟨r, hr, hq⟩ := ih
    obtain ⟨s, hs, hR⟩ := hP
    have hwf := (hrun.reachable ha).wellFormed
    have hstep := (handle_handled hwf.known hc).effect.recordStep hwf.free hsync hr
    rw [hs] at hstep
    exact ⟨s, hs, hQ r s hq hstep hR⟩

end Account

end TradeLedger
