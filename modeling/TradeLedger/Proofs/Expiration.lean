import TradeLedger.Proofs.Redelivery

/-!
# Expiry of good-till-date orders

An expiry check reads the account's clock once, collects the orders due at that time (working
on the book or waiting on a cancel or a replace, with an expiry time that has come) and then
expires them one after another in slot order, each with a report. A due order is taken
through a transition that needs its instrument; every live record's instrument is known in a
reachable account, so no transition in the middle refuses and leaves the book half expired.

So from every reachable account the check answers one report per due order, in slot order,
moves exactly the due orders to `expired` with nothing left to fill and no amendment, keeps
their fills and ids, and leaves every other order, the positions, the balances and the margin
as they were. A second check at the same time finds nothing due and changes nothing.
-/

namespace TradeLedger

namespace OrderRecord

/-- An order is due to expire at `now` when it works on the book or waits on a cancel or a
replace, and its expiry time is at most `now`. -/
def DueAt (now : Timestamp) (r : OrderRecord) : Prop :=
  (r.status = .new ∨ r.status = .partiallyFilled ∨ r.status = .pendingCancel ∨
      r.status = .pendingReplace) ∧
    ∃ t, r.order.expireAt = some t ∧ t ≤ now

theorem dueTest_iff (now : Timestamp) (r : OrderRecord) :
    ((r.status.isResting || r.status == .pendingCancel || r.status == .pendingReplace) &&
      r.order.expireAt.any (·.toInt ≤ now.toInt)) = true ↔ r.DueAt now := by
  have hworking : (r.status.isResting || r.status == .pendingCancel ||
      r.status == .pendingReplace) = true ↔ (r.status = .new ∨ r.status = .partiallyFilled ∨
        r.status = .pendingCancel ∨ r.status = .pendingReplace) := by
    cases r.status <;> simp [OrderStatus.isResting]
  have hdue : r.order.expireAt.any (·.toInt ≤ now.toInt) = true ↔
      ∃ t, r.order.expireAt = some t ∧ t ≤ now := by
    cases r.order.expireAt <;> simp [Int64.le_iff_toInt_le]
  rw [Bool.and_eq_true, hworking, hdue]
  rfl

theorem expire_refresh (r : OrderRecord) (lot : Precision) :
    (r.expire.refresh lot).status = .expired ∧ (r.expire.refresh lot).rawLeaves = 0 ∧
      (r.expire.refresh lot).amendment = none ∧ (r.expire.refresh lot).rawCum = r.rawCum ∧
      (r.expire.refresh lot).order.venueOrderId = r.order.venueOrderId :=
  ⟨rfl, rfl, rfl, rfl, rfl⟩

end OrderRecord

namespace Account

variable {a : Account}

@[simp] theorem moved_positions (a : Account) (i : Nat) (lot : Precision) (e : ExecutionType)
    (change : OrderRecord → OrderRecord) (r : OrderRecord) :
    (a.moved i lot e change r).positions = a.positions := rfl

@[simp] theorem moved_balances (a : Account) (i : Nat) (lot : Precision) (e : ExecutionType)
    (change : OrderRecord → OrderRecord) (r : OrderRecord) :
    (a.moved i lot e change r).balances = a.balances := rfl

@[simp] theorem moved_margin (a : Account) (i : Nat) (lot : Precision) (e : ExecutionType)
    (change : OrderRecord → OrderRecord) (r : OrderRecord) :
    (a.moved i lot e change r).margin = a.margin := rfl

/-- What expiring the records of `slots` one after another does to account `a`, leaving `a'`
and answering `xs`: each of those records expired, one report per slot in the order of
`slots`, taken from the record the slot holds afterwards, and the rest of the account as it was
but its event log. -/
structure ExpiresAll (a : Account) (slots : List Nat) (xs : List ExecutionReport)
    (a' : Account) : Prop where
  expired : ∀ j ∈ slots, ∃ r s, a.orders.get? j = some r ∧ a'.orders.get? j = some s ∧
    s.status = .expired ∧ s.rawLeaves = 0 ∧ s.amendment = none ∧ s.rawCum = r.rawCum ∧
      s.order.venueOrderId = r.order.venueOrderId
  reports : List.Forall₂ (fun j x => ∃ s, a'.orders.get? j = some s ∧
    x = ExecutionReport.ofOrder s.order .expired a.time) slots xs
  others : ∀ j ∉ slots, a'.orders.get? j = a.orders.get? j
  byClient : a'.orders.byClient = a.orders.byClient
  byVenue : a'.orders.byVenue = a.orders.byVenue
  instruments : a'.instruments = a.instruments
  positions : a'.positions = a.positions
  balances : a'.balances = a.balances
  margin : a'.margin = a.margin
  time : a'.time = a.time

theorem ExpiresAll.nil (a : Account) : a.ExpiresAll [] [] a where
  expired _ h := absurd h List.not_mem_nil
  reports := .nil
  others _ _ := rfl
  byClient := rfl
  byVenue := rfl
  instruments := rfl
  positions := rfl
  balances := rfl
  margin := rfl
  time := rfl

/-- One expiry in front of a run of expiries at other slots: the step of the run. -/
theorem ExpiresAll.cons {j : Nat} {js : List Nat} {r : OrderRecord} {ins : Instrument}
    {xs : List ExecutionReport} {a' : Account} (hr : a.orders.get? j = some r) (hj : j ∉ js)
    (h : (a.moved j ins.lot .expired OrderRecord.expire r).ExpiresAll js xs a') :
    a.ExpiresAll (j :: js)
      (ExecutionReport.ofOrder (r.expire.refresh ins.lot).order .expired a.time :: xs) a' := by
  have hself : a'.orders.get? j = some (r.expire.refresh ins.lot) :=
    (h.others j hj).trans (OrderBook.get?_modify_of_get? _ hr)
  have hrest : ∀ k, k ≠ j →
      (a.moved j ins.lot .expired OrderRecord.expire r).orders.get? k = a.orders.get? k := by
    intro k hk
    rw [Account.moved_orders, OrderBook.get?_modify, if_neg hk]
  refine ⟨fun k hk => ?_, ?_, fun k hk => ?_, ?_, ?_, ?_, ?_, ?_, ?_, ?_⟩
  · rcases List.mem_cons.mp hk with rfl | hk
    · exact ⟨r, _, hr, hself, r.expire_refresh ins.lot⟩
    · rw [← hrest k fun e => hj (e ▸ hk)]
      exact h.expired k hk
  · refine .cons ⟨_, hself, rfl⟩ ?_
    simpa only [Account.moved_time] using h.reports
  · rw [h.others k fun hk' => hk (List.mem_cons_of_mem _ hk'),
      hrest k fun e => hk (e ▸ List.mem_cons_self)]
  · simpa using h.byClient
  · simpa using h.byVenue
  · simpa using h.instruments
  · simpa using h.positions
  · simpa using h.balances
  · simpa using h.margin
  · simpa using h.time

/-- Expiring live records of known instruments at distinct slots, one after another, never
refuses: the run that the expiry check makes, by induction over its slots. -/
theorem expireAll_expires {slots : List Nat} (hnd : slots.Nodup) :
    ∀ a : Account, (∀ j ∈ slots, ∃ r ins, a.orders.get? j = some r ∧
      a.instrument? r.order.securityId = some ins) →
    ∃ xs a', (slots.mapM fun j => AccountM.transition j .expired OrderRecord.expire).run a =
      .ok (.ok xs, a') ∧ a.ExpiresAll slots xs a' := by
  induction slots with
  | nil => exact fun a _ => ⟨[], a, rfl, .nil a⟩
  | cons j js ih =>
    intro a hlive
    obtain ⟨hj, hnd'⟩ := List.nodup_cons.mp hnd
    obtain ⟨r, ins, hr, hins⟩ := hlive j List.mem_cons_self
    let a₁ := a.moved j ins.lot .expired OrderRecord.expire r
    have hlive₁ : ∀ k ∈ js, ∃ s ins', a₁.orders.get? k = some s ∧
        a₁.instrument? s.order.securityId = some ins' := by
      intro k hk
      have hkj : k ≠ j := fun e => hj (e ▸ hk)
      simpa [a₁, Account.instrument?, OrderBook.get?_modify, hkj] using
        hlive k (List.mem_cons_of_mem _ hk)
    obtain ⟨xs, a', hrun, hall⟩ := ih hnd' a₁ hlive₁
    refine ⟨_ :: xs, a', ?_, hall.cons hr hj⟩
    rw [List.mapM_cons, AccountM.run_bind, AccountM.run_transition, hr]
    simp only [hins]
    rw [AccountM.run_bind, show a.moved j ins.lot .expired OrderRecord.expire r = a₁ from rfl,
      hrun]
    rfl

/-- An expiry check from an account whose live records have known instruments expires the due
records, in slot order, and answers their reports. -/
theorem handle_checkExpiration (hk : a.InstrumentsKnown) :
    ∃ xs a', a.handle .checkExpiration = .ok (a', .reports xs) ∧
      a.ExpiresAll (a.orders.slotsWhere fun r =>
        (r.status.isResting || r.status == .pendingCancel || r.status == .pendingReplace) &&
          r.order.expireAt.any (·.toInt ≤ a.time.toInt)) xs a' := by
  obtain ⟨xs, a', hrun, hall⟩ := expireAll_expires (OrderBook.nodup_slotsWhere _ _) a
    fun j hj => by
      obtain ⟨r, hr, -⟩ := OrderBook.mem_slotsWhere.mp hj
      obtain ⟨ins, hins⟩ := hk j r hr
      exact ⟨r, ins, hr, hins⟩
  refine ⟨xs, a', ?_, hall⟩
  simp only [handle, answer, AccountM.checkExpiration, AccountM.run_get_bind, hrun]

/-- From every reachable account an expiry check answers one `expired` report for each order
due at the account's time, in slot order; it expires exactly those orders, with nothing left to
fill and no amendment, keeping their filled lots and their venue ids, and leaves every other
order, the indexes, the positions, the balances and the margin as they were. A second check at
the same time answers no report and changes nothing. -/
theorem Reachable.checkExpiration_expires_due (h : a.Reachable) :
    ∃ due xs a', a.handle .checkExpiration = .ok (a', .reports xs) ∧
      due.Pairwise (· < ·) ∧ (∀ j, j ∈ due ↔ ∃ r, a.orders.get? j = some r ∧ r.DueAt a.time) ∧
      a.ExpiresAll due xs a' ∧ a'.handle .checkExpiration = .ok (a', .reports []) := by
  have hk := (ReachableUnder.wellFormed h).known
  obtain ⟨xs, a', hhandle, hall⟩ := handle_checkExpiration hk
  have hk' := (ReachableUnder.wellFormed (h.step trivial hhandle)).known
  refine ⟨_, xs, a', hhandle, ?_, fun j => ?_, hall, ?_⟩
  · exact List.pairwise_lt_range.filter _
  · rw [OrderBook.mem_slotsWhere]
    simp only [OrderRecord.dueTest_iff]
  · obtain ⟨resp, hagain, hquiet⟩ := checkExpiration_absorbsRepeat hk hhandle
    obtain ⟨ys, a'', hagain', -⟩ := handle_checkExpiration hk'
    rw [hagain] at hagain'
    obtain ⟨-, rfl⟩ := Prod.mk.inj (Except.ok.inj hagain')
    cases ys with
    | nil => exact hagain
    | cons y ys => exact (hquiet rfl).elim

end Account

namespace Sample

def buyTenUntilFive : Order := buyTen.withExpiry 5

def expiryDue : List Command :=
  [listBtcPerp, .newOrder buyTenUntilFive, .confirmNewOrder "a" "v", .setTime 10]

end Sample

namespace Account

/-- Order "a", acknowledged and past its expiry time, is due when the clock reads 10. -/
theorem past_expiry_expired :
    ∃ a, Sample.session Sample.expiryDue = some a ∧ a.Reachable ∧
      ∃ due xs a', a.handle .checkExpiration = .ok (a', .reports xs) ∧
        due.Pairwise (· < ·) ∧ (∀ j, j ∈ due ↔ ∃ r, a.orders.get? j = some r ∧ r.DueAt a.time) ∧
        a.ExpiresAll due xs a' ∧ a'.handle .checkExpiration = .ok (a', .reports []) := by
  have hs : Sample.session Sample.expiryDue = some _ := rfl
  exact ⟨_, hs, .of_session hs, Reachable.checkExpiration_expires_due (.of_session hs)⟩

end Account

end TradeLedger
