import TradeLedger.Proofs.Run

/-!
# What a command does to the order book

A command leaves the account alone or changes its instruments and its order book in one of a
few ways, each under the guards the command checks first. `RecordMove` lists the moves of one
record that its status allows, `Effect` the ways a command changes the book; an invariant of
the book is then proved once per way, never once per command. A fill checks no status, only
the leaves, so it is not a `RecordMove` but an `Effect` of its own, tied to the record that the
fill's reference reaches.

A refused command leaves the account as it was, with one exception: a confirmed replace that
the fills in flight overtook moves its record back before it refuses (`ReplaceRefused`).
`Outcome` pairs the effect of a run with that fact about its refusals.
-/

namespace TradeLedger

namespace Account

/-- Every live record's security has an instrument. -/
def InstrumentsKnown (a : Account) : Prop :=
  ∀ i r, a.orders.get? i = some r → ∃ ins, a.instrument? r.order.securityId = some ins

end Account

/-- What the venue's confirmation of a replace leaves open of record `r`, in raw lots: nothing
new without a new quantity, else the new quantity less what is filled, which is positive. -/
def AmendedLeaves (r : OrderRecord) (leaves? : Option Int64) : Prop :=
  match (r.amendment.getD ⟨none, none⟩).rawQuantity with
  | none => leaves? = none
  | some q => r.rawCum.toInt < q.toInt ∧ ∃ l, Word.sub? q r.rawCum = some l ∧ leaves? = some l

/-- The moves of one record, each under the status its command checks first. -/
inductive RecordMove : (OrderRecord → OrderRecord) → OrderRecord → Prop
  | acknowledge {r : OrderRecord} : r.status = .pendingNew → RecordMove OrderRecord.acknowledge r
  | reject {r : OrderRecord} : r.status = .pendingNew → RecordMove OrderRecord.reject r
  | requestCancel {r : OrderRecord} : AccountM.refusalOf r.status = none →
      RecordMove (·.beginPending .pendingCancel) r
  | cancel {r : OrderRecord} : r.status = .pendingCancel → RecordMove OrderRecord.cancel r
  | restore {r : OrderRecord} : r.status = .pendingCancel ∨ r.status = .pendingReplace →
      RecordMove OrderRecord.restorePrevious r
  | requestAmend {r : OrderRecord} {am : Amendment} : AccountM.refusalOf r.status = none →
      (∀ q, am.rawQuantity = some q → r.rawCum.toInt < q.toInt) →
      RecordMove (OrderRecord.requestAmend am) r
  | amend {r : OrderRecord} {leaves? : Option Int64} : r.status = .pendingReplace →
      AmendedLeaves r leaves? →
      RecordMove (OrderRecord.amend (r.amendment.getD ⟨none, none⟩) leaves?) r
  | expire {r : OrderRecord} : r.status.isTerminal = false → RecordMove OrderRecord.expire r

/-- Records moved one slot after another, each by a `RecordMove` of the record it finds, its
decimal quantities derived again on the lot of its instrument. -/
inductive MoveRun (ins : KeyMap SecurityId Instrument) : List Nat → OrderBook → OrderBook → Prop
  | nil {b : OrderBook} : MoveRun ins [] b b
  | cons {b b' : OrderBook} {i : Nat} {slots : List Nat} {r : OrderRecord} {inst : Instrument}
      {f : OrderRecord → OrderRecord} :
      b.get? i = some r → ins.get? r.order.securityId = some inst → RecordMove f r →
      MoveRun ins slots (b.modify i fun r => (f r).refresh inst.lot) b' →
      MoveRun ins (i :: slots) b b'

/-- What a command does to the instruments and the order book of an account. -/
inductive Effect (a : Account) : Command → Account → Prop
  /-- The instruments kept and records moved, each slot at most once. -/
  | moves {c : Command} {a' : Account} {slots : List Nat} : a'.instruments = a.instruments →
      slots.Nodup → MoveRun a.instruments slots a.orders a'.orders → Effect a c a'
  /-- A venue id that no other record holds given to a live record, then records moved. -/
  | claim {c : Command} {a' : Account} {i : Nat} {r : OrderRecord} {v : VenueOrderId}
      {slots : List Nat} : a'.instruments = a.instruments → a.orders.get? i = some r →
      a.orders.venueOwner v (some i) = none → slots.Nodup →
      MoveRun a.instruments slots (a.orders.assignVenueId i v) a'.orders → Effect a c a'
  /-- A new order stored as `pendingNew`, its price `p` on the tick grid. -/
  | place {o : Order} {a' : Account} {ins : Instrument} {raw : Int64} {p : Option Decimal} :
      a'.instruments = a.instruments → a.orders.containsClient o.clientOrderId = false →
      o.status = .pendingNew → a.instrument? o.securityId = some ins →
      ins.lot.toRaw? o.leavesQuantity = some raw →
      a'.orders = (a.orders.insert
        ((OrderRecord.create { o with price := p } raw raw 0).refresh ins.lot)).2 →
      Effect a (.newOrder o) a'
  /-- A fill of `n` raw lots, within the leaves of the record that the fill's reference
  reaches; no status is checked. -/
  | fill {ref : OrderRef} {t : TradeId} {price quantity : Decimal} {taker : Bool} {a' : Account}
      {i : Nat} {r : OrderRecord} {ins : Instrument} {n cum : Int64} :
      a'.instruments = a.instruments → a.orders.lookup ref = some i → a.orders.get? i = some r →
      a.instrument? r.order.securityId = some ins → 0 < n.toInt → n.toInt ≤ r.rawLeaves.toInt →
      Word.add? r.rawCum n = some cum →
      a'.orders = a.orders.modify i (fun r' =>
        (r'.fill t (Int64.ofInt (r.rawLeaves.toInt - n.toInt)) cum).refresh ins.lot) →
      Effect a (.confirmFill ref t price quantity taker) a'
  /-- A `pendingNew` record rejected and dropped. -/
  | reject {c : Command} {a' : Account} {i : Nat} {r : OrderRecord} {ins : Instrument} :
      a'.instruments = a.instruments → a.orders.get? i = some r → r.status = .pendingNew →
      a.instrument? r.order.securityId = some ins →
      a'.orders = (a.orders.modify i fun r => r.reject.refresh ins.lot).discard i → Effect a c a'
  /-- Every finished record dropped. -/
  | prune {a' : Account} : a'.instruments = a.instruments →
      a'.orders = (a.orders.slotsWhere (·.status.isTerminal)).foldl OrderBook.discard a.orders →
      Effect a .pruneClosed a'
  /-- The instruments and the book rebuilt from a venue snapshot. -/
  | sync {x : SyncInput} {a' : Account} {views : KeyMap SecurityId Instrument}
      {orders : OrderBook} : a.rebuildInstruments x = .ok views →
      Account.rebuildOrders views x.orders = .ok orders → a'.instruments = views →
      a'.orders = orders → Effect a (.sync x) a'

/-- The one refusal that changes the account: a confirmed replace whose new quantity the fills
in flight reached. The record goes back to its status before the replace, without the
amendment, and the move is logged. -/
def ReplaceRefused (a : Account) (c : Command) (a' : Account) (e : LedgerError) : Prop :=
  ∃ ref v i r q ins, c = .confirmReplaceOrder ref v ∧ a.orders.lookup ref = some i ∧
    a.orders.get? i = some r ∧ r.status = .pendingReplace ∧
    (r.amendment.getD ⟨none, none⟩).rawQuantity = some q ∧ q.toInt ≤ r.rawCum.toInt ∧
    a.instrument? r.order.securityId = some ins ∧ e = .rejected .incorrectQuantity ∧
    a' = a.moved i ins.lot .rejected OrderRecord.restorePrevious r

/-- What a run of command `c`'s step from `a` leaves: its effect, and after a refusal the
account as it was, unless the refusal is `ReplaceRefused`. -/
structure Outcome {α : Type} (a : Account) (c : Command) (a' : Account)
    (res : Except LedgerError α) : Prop where
  effect : Effect a c a'
  refused : ∀ e, res = .error e → a' = a ∨ ReplaceRefused a c a' e

section Basic

variable {a a' : Account} {c : Command}

/-- No move changes which order a record is: its client id, venue id and security stay. -/
theorem RecordMove.keys {f : OrderRecord → OrderRecord} {r : OrderRecord} (hf : RecordMove f r)
    (lot : Precision) :
    ((f r).refresh lot).order.clientOrderId = r.order.clientOrderId ∧
      ((f r).refresh lot).order.venueOrderId = r.order.venueOrderId ∧
      ((f r).refresh lot).order.securityId = r.order.securityId := by
  cases hf with
  | amend =>
    simp only [OrderRecord.refresh, OrderRecord.amend]
    split <;> split <;> simp
  | _ => simp [OrderRecord.refresh, OrderRecord.acknowledge, OrderRecord.reject,
      OrderRecord.beginPending, OrderRecord.cancel, OrderRecord.restorePrevious,
      OrderRecord.requestAmend, OrderRecord.expire]

theorem OrderRecord.fill_keys (r : OrderRecord) (t : TradeId) (leaves cum : Int64)
    (lot : Precision) :
    ((r.fill t leaves cum).refresh lot).order.clientOrderId = r.order.clientOrderId ∧
      ((r.fill t leaves cum).refresh lot).order.venueOrderId = r.order.venueOrderId ∧
      ((r.fill t leaves cum).refresh lot).order.securityId = r.order.securityId := by
  simp only [OrderRecord.refresh, OrderRecord.fill, OrderRecord.noteTrade]
  split_ifs <;> simp

theorem Account.InstrumentsKnown.modify {i : Nat} {r : OrderRecord} {f : OrderRecord → OrderRecord}
    {lot : Precision} (hk : a.InstrumentsKnown) (hr : a.orders.get? i = some r) (hf : RecordMove f r)
    (hi : a'.instruments = a.instruments)
    (ho : a'.orders = a.orders.modify i fun r => (f r).refresh lot) : a'.InstrumentsKnown := by
  intro j s hs
  rw [ho, OrderBook.get?_modify] at hs
  simp only [Account.instrument?, hi]
  by_cases hj : j = i
  · subst hj
    simp only [if_true, hr, Option.map_some, Option.some.injEq] at hs
    subst hs
    rw [(hf.keys lot).2.2]
    exact hk j r hr
  · rw [if_neg hj] at hs
    exact hk j s hs

theorem Effect.keep (hi : a'.instruments = a.instruments) (ho : a'.orders = a.orders) :
    Effect a c a' :=
  .moves hi List.nodup_nil (ho ▸ .nil)

theorem Effect.same : Effect a c a := .keep rfl rfl

theorem Outcome.same {α : Type} (res : Except LedgerError α) : Outcome a c a res :=
  ⟨.same, fun _ _ => .inl rfl⟩

theorem Outcome.ok {α : Type} {x : α} (h : Effect a c a') : Outcome a c a' (.ok x) :=
  ⟨h, fun _ he => by cases he⟩

theorem MoveRun.single {ins : KeyMap SecurityId Instrument} {b : OrderBook} {i : Nat}
    {r : OrderRecord} {inst : Instrument} {f : OrderRecord → OrderRecord} (hr : b.get? i = some r)
    (hins : ins.get? r.order.securityId = some inst) (hf : RecordMove f r) :
    MoveRun ins [i] b (b.modify i fun r => (f r).refresh inst.lot) :=
  .cons hr hins hf .nil

theorem Effect.move {i : Nat} {r : OrderRecord} {ins : Instrument} {f : OrderRecord → OrderRecord}
    {e : ExecutionType} (hr : a.orders.get? i = some r)
    (hins : a.instrument? r.order.securityId = some ins) (hf : RecordMove f r) :
    Effect a c (a.moved i ins.lot e f r) :=
  .moves rfl (List.nodup_singleton i) (.single hr hins hf)

theorem Outcome.refusal {α : Type} {res : Except LedgerError α} {e : LedgerError}
    (h : (Except.ok (Except.error e, a) : Except Fault _) = .ok (res, a')) : Outcome a c a' res := by
  cases h
  exact .same _

theorem Outcome.of_transition {i : Nat} {e : ExecutionType} {f : OrderRecord → OrderRecord}
    {r : OrderRecord} {res : Except LedgerError ExecutionReport} (hr : a.orders.get? i = some r)
    (hf : RecordMove f r) (h : (AccountM.transition i e f).run a = .ok (res, a')) :
    Outcome a c a' res := by
  rw [AccountM.run_transition, hr] at h
  cases hins : a.instrument? r.order.securityId with
  | none =>
    simp only [hins] at h
    exact .refusal h
  | some ins =>
    simp only [hins] at h
    cases h
    exact .ok (.move hr hins hf)

theorem Outcome.of_map_transition {β : Type} {k : ExecutionReport → β} {i : Nat}
    {e : ExecutionType} {f : OrderRecord → OrderRecord} {r : OrderRecord}
    {res : Except LedgerError β} (hr : a.orders.get? i = some r) (hf : RecordMove f r)
    (h : (k <$> AccountM.transition i e f).run a = .ok (res, a')) : Outcome a c a' res := by
  rw [AccountM.run_map, AccountM.run_transition, hr] at h
  cases hins : a.instrument? r.order.securityId with
  | none =>
    simp only [hins] at h
    exact .refusal h
  | some ins =>
    simp only [hins] at h
    cases h
    exact .ok (.move hr hins hf)

/-- A venue id claimed for a live record, then a transition of the claimed record. The
instrument is known, so the transition cannot refuse after the claim. -/
theorem Outcome.of_claim_transition {β : Type} {k : ExecutionReport → β} {i : Nat}
    {v : VenueOrderId} {e : ExecutionType} {f : OrderRecord → OrderRecord} {r : OrderRecord}
    {res : Except LedgerError β} (hk : a.InstrumentsKnown) (hr : a.orders.get? i = some r)
    (hown : a.orders.venueOwner v (some i) = none)
    (hf : RecordMove f { r with order := { r.order with venueOrderId := some v } })
    (h : (k <$> AccountM.transition i e f).run (a.claimed i v) = .ok (res, a')) :
    Outcome a c a' res := by
  obtain ⟨ins, hins⟩ := hk i r hr
  have hr' : (a.claimed i v).orders.get? i =
      some { r with order := { r.order with venueOrderId := some v } } := by
    simp [OrderBook.get?_assignVenueId, hr]
  rw [AccountM.run_map, AccountM.run_transition, hr'] at h
  simp only [Account.instrument?, Account.claimed_instruments] at h
  rw [show a.instruments.get? r.order.securityId = some ins from hins] at h
  cases h
  exact .ok (.claim rfl hr hown (List.nodup_singleton i) (.single hr' hins hf))

theorem Outcome.of_replaceRefused {α : Type} {e : LedgerError} (h : ReplaceRefused a c a' e) :
    Outcome a c a' (.error e : Except LedgerError α) := by
  refine ⟨?_, fun e' he => .inr ?_⟩
  · obtain ⟨-, -, i, r, -, ins, -, -, hr, hs, -, -, hins, -, rfl⟩ := h
    exact .move hr hins (.restore (.inr hs))
  · cases he
    exact h

/-- A command that first finds the record its reference reaches: with none it refuses and
changes nothing, so its outcome is decided by what it does with the record found. -/
theorem Outcome.of_found {β : Type} {ref : OrderRef} {f : Nat → OrderRecord → AccountM β}
    {res : Except LedgerError β}
    (hf : ∀ i r, a.orders.lookup ref = some i → a.orders.get? i = some r →
      (f i r).run a = .ok (res, a') → Outcome a c a' res)
    (h : (AccountM.indexOf ref >>= fun i => AccountM.recordAt i >>= f i).run a = .ok (res, a')) :
    Outcome a c a' res := by
  rcases AccountM.run_found_cases h with h | ⟨i, r, hl, hr, h⟩
  · exact .refusal h.symm
  · exact hf i r hl hr h

end Basic

end TradeLedger
