import TradeLedger.Proofs.Reachable

/-!
# The order lifecycle

An order moves through its statuses along fixed edges: a new order is acknowledged, filled,
refused or expired; a resting order is asked to cancel or replace, filled or expired; an order
waiting on a cancel or a replace is canceled, goes back to resting, is filled or expires. A
finished order (filled, canceled, rejected or expired) has no edge out.

Every command but a snapshot keeps each live record on these edges, and leaves a finished
record's status, price and raw quantities alone; a finished record leaves the book only when
closed orders are pruned. The guards of the record moves give all of this but for the fill,
which checks no status, only that the leaves cover it. A finished order made locally has no
leaves, but one that a snapshot reports may: a fill then brings it back to life. The lifecycle
therefore holds of every command except a fill that reaches a finished record with leaves open.
-/

namespace TradeLedger

namespace OrderStatus

def next : OrderStatus → List OrderStatus
  | .pendingNew => [.new, .partiallyFilled, .filled, .rejected, .expired]
  | .new => [.pendingCancel, .pendingReplace, .partiallyFilled, .filled, .expired]
  | .partiallyFilled => [.pendingCancel, .pendingReplace, .filled, .expired]
  | .pendingCancel => [.canceled, .new, .partiallyFilled, .filled, .expired]
  | .pendingReplace => [.new, .partiallyFilled, .filled, .expired]
  | .filled | .canceled | .rejected | .expired => []

/-- Status `s` may be followed by `t` within one command: it stays, or it takes an edge. -/
def MayBecome (s t : OrderStatus) : Prop := t = s ∨ t ∈ s.next

instance (s t : OrderStatus) : Decidable (s.MayBecome t) :=
  inferInstanceAs (Decidable (t = s ∨ t ∈ s.next))

theorem MayBecome.refl (s : OrderStatus) : s.MayBecome s := .inl rfl

end OrderStatus

namespace OrderRecord

@[simp] theorem acknowledge_status (r : OrderRecord) : r.acknowledge.status = .new := rfl

@[simp] theorem reject_status (r : OrderRecord) : r.reject.status = .rejected := rfl

@[simp] theorem cancel_status (r : OrderRecord) : r.cancel.status = .canceled := rfl

@[simp] theorem requestAmend_status (am : Amendment) (r : OrderRecord) :
    (r.requestAmend am).status = .pendingReplace := rfl

@[simp] theorem amend_status (am : Amendment) (leaves? : Option Int64) (r : OrderRecord) :
    (r.amend am leaves?).status = .new := rfl

@[simp] theorem expire_status (r : OrderRecord) : r.expire.status = .expired := rfl

@[simp] theorem noteTrade_status (r : OrderRecord) (t : TradeId) :
    (r.noteTrade t).status = r.status := by
  unfold noteTrade
  split <;> rfl

/-- A fill ends in `filled` when nothing is left, keeps a waiting status, and is otherwise
`partiallyFilled`. -/
theorem fill_status (r : OrderRecord) (t : TradeId) (leaves cum : Int64) :
    (r.fill t leaves cum).status =
      if leaves.toInt = 0 then .filled
      else if r.status = .pendingCancel ∨ r.status = .pendingReplace then r.status
      else .partiallyFilled := by
  have hnote : ({ r.noteTrade t with rawLeaves := leaves, rawCum := cum } : OrderRecord).status =
      r.status := noteTrade_status r t
  simp only [fill]
  split_ifs <;> first | rfl | exact hnote | simp_all

/-- What one command may make of the record `r` of a slot that stays live: the same order, in
the same or a next status, and with status, price and raw quantities untouched once finished. -/
structure LifecycleStep (r r' : OrderRecord) : Prop where
  sameOrder : r'.order.clientOrderId = r.order.clientOrderId
  status : r.status.MayBecome r'.status
  finished : r.status.isTerminal = true → r'.status = r.status ∧ r'.order.price = r.order.price ∧
    r'.rawQuantity = r.rawQuantity ∧ r'.rawLeaves = r.rawLeaves ∧ r'.rawCum = r.rawCum

theorem LifecycleStep.refl (r : OrderRecord) : r.LifecycleStep r :=
  ⟨rfl, .refl _, fun _ => ⟨rfl, rfl, rfl, rfl, rfl⟩⟩

theorem LifecycleStep.of_claim {r r' : OrderRecord} {v : VenueOrderId}
    (h : LifecycleStep { r with order := { r.order with venueOrderId := some v } } r') :
    r.LifecycleStep r' :=
  ⟨h.sameOrder, h.status, h.finished⟩

/-- What a command may leave in a slot that held `r`: a record that `r` may step to, or
nothing, and nothing in place of a finished record only when the command prunes. -/
def After (c : Command) (r : OrderRecord) : Option OrderRecord → Prop
  | some r' => r.LifecycleStep r'
  | none => r.status.isTerminal = true → c = .pruneClosed

theorem After.of_eq {c : Command} {r : OrderRecord} {s : Option OrderRecord} (h : s = some r) :
    r.After c s := by
  subst h
  exact LifecycleStep.refl r

end OrderRecord

theorem RecordMove.isTerminal_eq_false {f : OrderRecord → OrderRecord} {r : OrderRecord}
    (hf : RecordMove f r) : r.status.isTerminal = false := by
  cases hf with
  | requestCancel hs | requestAmend hs _ =>
    rcases AccountM.refusalOf_eq_none.mp hs with h | h <;> simp [h, OrderStatus.isTerminal]
  | restore hs => rcases hs with h | h <;> simp [h, OrderStatus.isTerminal]
  | expire hs => exact hs
  | acknowledge hs | reject hs | cancel hs | amend hs _ => simp [hs, OrderStatus.isTerminal]

theorem RecordMove.lifecycleStep {f : OrderRecord → OrderRecord} {r : OrderRecord}
    (hf : RecordMove f r) (hfb : r.FallbackSound) (lot : Precision) :
    r.LifecycleStep ((f r).refresh lot) := by
  refine ⟨(hf.keys lot).1, ?_, fun h => by simp [hf.isTerminal_eq_false] at h⟩
  cases hf with
  | acknowledge hs | reject hs | cancel hs | amend hs _ =>
    simp [OrderStatus.MayBecome, OrderStatus.next, hs]
  | requestCancel hs | requestAmend hs _ =>
    rcases AccountM.refusalOf_eq_none.mp hs with h | h <;>
      simp [OrderStatus.MayBecome, OrderStatus.next, h]
  | restore hs =>
    have hprev := hfb hs
    rcases hs with h | h <;> rcases hprev with hp | hp | hp <;>
      simp [OrderStatus.MayBecome, OrderStatus.next, h, hp]
  | expire hs =>
    cases h : r.status <;>
      simp_all [OrderStatus.MayBecome, OrderStatus.next, OrderStatus.isTerminal]

theorem OrderRecord.fill_lifecycleStep {r : OrderRecord} (t : TradeId) (leaves cum : Int64)
    (lot : Precision) (hr : r.status.isTerminal = false) :
    r.LifecycleStep ((r.fill t leaves cum).refresh lot) := by
  refine ⟨(r.fill_keys t leaves cum lot).1, ?_, fun h => by simp [hr] at h⟩
  rw [OrderRecord.refresh_status, OrderRecord.fill_status]
  cases h : r.status <;> split_ifs <;>
    simp_all [OrderStatus.MayBecome, OrderStatus.next, OrderStatus.isTerminal]

section Moves

variable {ins : KeyMap SecurityId Instrument} {slots : List Nat} {b b' : OrderBook}

theorem MoveRun.get?_of_not_mem (h : MoveRun ins slots b b') {i : Nat} (hi : i ∉ slots) :
    b'.get? i = b.get? i := by
  induction h with
  | nil => rfl
  | @cons b b' j slots r inst f _ _ _ _ ih =>
    have hij : i ≠ j := fun e => hi (e ▸ List.mem_cons_self)
    rw [ih fun hm => hi (List.mem_cons_of_mem _ hm), OrderBook.get?_modify, if_neg hij]

theorem MoveRun.get?_cases (h : MoveRun ins slots b b') (hnd : slots.Nodup) {i : Nat}
    {r : OrderRecord} (hr : b.get? i = some r) :
    b'.get? i = some r ∨ ∃ (f : OrderRecord → OrderRecord) (inst : Instrument),
      RecordMove f r ∧ b'.get? i = some ((f r).refresh inst.lot) := by
  induction h with
  | nil => exact .inl hr
  | @cons b b' j slots s inst f hs _ hf hrest ih =>
    obtain ⟨hj, hnd⟩ := List.nodup_cons.mp hnd
    by_cases hij : i = j
    · subst hij
      rw [hr, Option.some.injEq] at hs
      subst hs
      refine .inr ⟨f, inst, hf, ?_⟩
      rw [hrest.get?_of_not_mem hj, OrderBook.get?_modify, if_pos rfl, hr, Option.map_some]
    · exact ih hnd (by rw [OrderBook.get?_modify, if_neg hij, hr])

theorem MoveRun.lifecycleStep (h : MoveRun ins slots b b') (hnd : slots.Nodup) {i : Nat}
    {r : OrderRecord} (hr : b.get? i = some r) (hfb : r.FallbackSound) :
    ∃ r', b'.get? i = some r' ∧ r.LifecycleStep r' := by
  rcases h.get?_cases hnd hr with hsame | ⟨f, inst, hf, hmoved⟩
  · exact ⟨r, hsame, .refl r⟩
  · exact ⟨_, hmoved, hf.lifecycleStep hfb inst.lot⟩

end Moves

section Effects

variable {a a' : Account} {c : Command} {i : Nat} {r : OrderRecord}

/-- Every effect but a rebuild from a snapshot keeps the record of slot `i` on its lifecycle,
unless it is a fill reaching that record while it is finished with leaves open. -/
theorem Effect.lifecycle (he : Effect a c a') (hwf : a.WellFormed) (hsync : ∀ x, c ≠ .sync x)
    (hr : a.orders.get? i = some r)
    (hfill : ∀ ref t p q tk, c = .confirmFill ref t p q tk → a.orders.lookup ref = some i →
      r.status.isTerminal = false ∨ r.rawLeaves.toInt ≤ 0) :
    r.After c (a'.orders.get? i) := by
  have hfb : r.FallbackSound := hwf.fallback i r hr
  cases he with
  | moves _ hnd hrun =>
    obtain ⟨r', hr', hstep⟩ := hrun.lifecycleStep hnd hr hfb
    rw [hr']
    exact hstep
  | @claim _ _ j s v _ _ hs _ hnd hrun =>
    by_cases hij : i = j
    · subst hij
      rw [hr, Option.some.injEq] at hs
      subst hs
      have hclaimed : (a.orders.assignVenueId i v).get? i =
          some { r with order := { r.order with venueOrderId := some v } } := by
        rw [OrderBook.get?_assignVenueId, if_pos rfl, hr, Option.map_some]
      obtain ⟨r', hr', hstep⟩ := hrun.lifecycleStep hnd hclaimed hfb
      rw [hr']
      exact hstep.of_claim
    · have hkept : (a.orders.assignVenueId j v).get? i = some r := by
        rw [OrderBook.get?_assignVenueId, if_neg hij, hr]
      obtain ⟨r', hr', hstep⟩ := hrun.lifecycleStep hnd hkept hfb
      rw [hr']
      exact hstep
  | @fill ref t price quantity taker _ j s ins n cum _ hl hs _ hpos hle _ ho =>
    rw [ho, OrderBook.get?_modify]
    by_cases hij : i = j
    · subst hij
      rw [hr, Option.some.injEq] at hs
      subst hs
      have hlive : r.status.isTerminal = false := by
        rcases hfill ref t price quantity taker rfl hl with h | h
        · exact h
        · omega
      rw [if_pos rfl, hr, Option.map_some]
      exact OrderRecord.fill_lifecycleStep t _ cum ins.lot hlive
    · rw [if_neg hij]
      exact .of_eq hr
  | place _ _ _ _ _ ho =>
    rw [ho, hwf.free.get?_insert, Function.update_apply, if_neg]
    · exact .of_eq hr
    · intro hi
      rw [hi, hwf.free.get?_insert_fst] at hr
      cases hr
  | @reject _ _ j s _ _ hs hpend _ ho =>
    rw [ho, OrderBook.get?_discard_eq, Function.update_apply]
    by_cases hij : i = j
    · subst hij
      rw [hr, Option.some.injEq] at hs
      subst hs
      rw [if_pos rfl]
      intro hfin
      simp [hpend, OrderStatus.isTerminal] at hfin
    · rw [if_neg hij, OrderBook.get?_modify, if_neg hij]
      exact .of_eq hr
  | prune _ ho =>
    rw [ho, OrderBook.get?_foldl_discard]
    split
    · exact fun _ => rfl
    · exact .of_eq hr
  | sync => exact absurd rfl (hsync _)

end Effects

namespace Account

variable {a a' : Account} {c : Command} {i : Nat} {r : OrderRecord}

/-- On a reachable account, every command but a snapshot moves each live order along the edges
of its lifecycle or leaves its status, never touches a finished order's status, price or raw
quantities, and drops a finished order only when pruning, unless the command is a fill that
reaches a finished order with leaves open. -/
theorem handle_follows_lifecycle {resp : Response} (hreach : a.Reachable)
    (hsync : ∀ x, c ≠ .sync x) (hr : a.orders.get? i = some r)
    (hfill : ∀ ref t p q tk, c = .confirmFill ref t p q tk → a.orders.lookup ref = some i →
      r.status.isTerminal = false ∨ r.rawLeaves.toInt ≤ 0)
    (h : a.handle c = .ok (a', resp)) :
    (∀ r', a'.orders.get? i = some r' → r'.order.clientOrderId = r.order.clientOrderId ∧
      r.status.MayBecome r'.status ∧
      (r.status.isTerminal = true → r'.status = r.status ∧ r'.order.price = r.order.price ∧
        r'.rawQuantity = r.rawQuantity ∧ r'.rawLeaves = r.rawLeaves ∧ r'.rawCum = r.rawCum)) ∧
    (a'.orders.get? i = none → r.status.isTerminal = true → c = .pruneClosed) := by
  have hwf := ReachableUnder.wellFormed hreach
  have hafter := (handle_handled hwf.known h).effect.lifecycle hwf hsync hr hfill
  constructor
  · intro r' hr'
    rw [hr'] at hafter
    have hstep : r.LifecycleStep r' := hafter
    exact ⟨hstep.sameOrder, hstep.status, hstep.finished⟩
  · intro hnone
    rw [hnone] at hafter
    exact hafter

/-- A fill of four lots on the new order "a" of ten: it steps from `pendingNew` to
`partiallyFilled`. -/
theorem fill_on_new_order_follows_lifecycle :
    ∃ a a' resp r, Sample.session [Sample.listBtcPerp, .newOrder Sample.buyTen] = some a ∧
      a.orders.get? 0 = some r ∧ (∀ x, Sample.fillA 4 ≠ .sync x) ∧
      (∀ ref t p q tk, Sample.fillA 4 = .confirmFill ref t p q tk →
        a.orders.lookup ref = some 0 → r.status.isTerminal = false ∨ r.rawLeaves.toInt ≤ 0) ∧
      a.handle (Sample.fillA 4) = .ok (a', resp) ∧
      (∀ r', a'.orders.get? 0 = some r' → r'.order.clientOrderId = r.order.clientOrderId ∧
        r.status.MayBecome r'.status ∧
        (r.status.isTerminal = true → r'.status = r.status ∧ r'.order.price = r.order.price ∧
          r'.rawQuantity = r.rawQuantity ∧ r'.rawLeaves = r.rawLeaves ∧ r'.rawCum = r.rawCum)) ∧
      (a'.orders.get? 0 = none → r.status.isTerminal = true → Sample.fillA 4 = .pruneClosed) := by
  have hs : Sample.session [Sample.listBtcPerp, .newOrder Sample.buyTen] = some _ := rfl
  have hsync : ∀ x, Sample.fillA 4 ≠ .sync x := fun _ h => by cases h
  exact ⟨_, _, _, _, hs, rfl, hsync, fun _ _ _ _ _ _ _ => .inl rfl, rfl,
    handle_follows_lifecycle (.of_session hs) hsync rfl (fun _ _ _ _ _ _ _ => .inl rfl) rfl⟩

/-- A snapshot may report order "a" canceled with five of its ten lots open. A fill of two lots
then brings it back as partially filled, which the lifecycle has no edge for. -/
theorem canceled_order_revived_by_fill :
    ∃ a a' resp r r', Sample.session [.sync ⟨[Security.btcusdPerp],
        [{ Sample.buyTen with
            venueOrderId := some "v", leavesQuantity := Decimal.ofParts false 5 0,
            status := .canceled }], [], [], none, none⟩] = some a ∧
      a.orders.get? 0 = some r ∧ a.handle (Sample.fillA 2) = .ok (a', resp) ∧
      a'.orders.get? 0 = some r' ∧ r.status = .canceled ∧ r'.status = .partiallyFilled ∧
      ¬ r.status.MayBecome r'.status :=
  ⟨_, _, _, _, _, rfl, rfl, rfl, rfl, rfl, rfl, by decide⟩

end Account

end TradeLedger
