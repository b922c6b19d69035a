import TradeLedger.Account.Api
import TradeLedger.Proofs.OrderBook

/-!
# Running account steps

A step `m : AccountM α` run from an account gives a fault, or an answer or a refusal together
with the account it leaves. The lemmas here push `AccountM.run` through the monad's
operations and the account's small steps, so that a command's run is computed by `simp` and
case splits on what the command reads, never by unfolding the monad. Two steps carry a
specification of their own, which the commands cite:

* `transition` moves one record and logs the move (`run_transition`);
* `claimVenueId` indexes a venue id unless another record holds it (`run_claimVenueId`).
-/

namespace TradeLedger

namespace Account

/-- The account after the record `r` of slot `i` moves by `change`, its decimal quantities
derived again on `lot`, with the status change logged under the execution type `e`. -/
def moved (a : Account) (i : Nat) (lot : Precision) (e : ExecutionType)
    (change : OrderRecord → OrderRecord) (r : OrderRecord) : Account :=
  { a with orders := a.orders.modify i (fun r => (change r).refresh lot),
           events := a.events.record a.time
             (.orderStatusChanged ((change r).refresh lot).order.clientOrderId r.status
               ((change r).refresh lot).status e) }

@[simp] theorem moved_instruments (a : Account) (i : Nat) (lot : Precision) (e : ExecutionType)
    (change : OrderRecord → OrderRecord) (r : OrderRecord) :
    (a.moved i lot e change r).instruments = a.instruments := rfl

@[simp] theorem moved_orders (a : Account) (i : Nat) (lot : Precision) (e : ExecutionType)
    (change : OrderRecord → OrderRecord) (r : OrderRecord) :
    (a.moved i lot e change r).orders = a.orders.modify i (fun r => (change r).refresh lot) := rfl

@[simp] theorem moved_time (a : Account) (i : Nat) (lot : Precision) (e : ExecutionType)
    (change : OrderRecord → OrderRecord) (r : OrderRecord) :
    (a.moved i lot e change r).time = a.time := rfl

def claimed (a : Account) (i : Nat) (v : VenueOrderId) : Account :=
  { a with orders := a.orders.assignVenueId i v }

@[simp] theorem claimed_instruments (a : Account) (i : Nat) (v : VenueOrderId) :
    (a.claimed i v).instruments = a.instruments := rfl

@[simp] theorem claimed_orders (a : Account) (i : Nat) (v : VenueOrderId) :
    (a.claimed i v).orders = a.orders.assignVenueId i v := rfl

@[simp] theorem claimed_time (a : Account) (i : Nat) (v : VenueOrderId) :
    (a.claimed i v).time = a.time := rfl

end Account

namespace AccountM

variable {α β : Type}

/-! ## The monad -/

@[simp] theorem run_pure (x : α) (a : Account) : (pure x : AccountM α).run a = .ok (.ok x, a) :=
  rfl

theorem run_bind (m : AccountM α) (f : α → AccountM β) (a : Account) :
    (m >>= f).run a = match m.run a with
      | .error e => .error e
      | .ok (.ok x, a') => (f x).run a'
      | .ok (.error e, a') => .ok (.error e, a') := by
  simp only [run, ExceptT.run_bind, StateT.run_bind]
  cases (ExceptT.run m).run a with
  | error e => rfl
  | ok p =>
    obtain ⟨r, a'⟩ := p
    cases r <;> rfl

theorem run_map (f : α → β) (m : AccountM α) (a : Account) :
    (f <$> m).run a = match m.run a with
      | .error e => .error e
      | .ok (.ok x, a') => .ok (.ok (f x), a')
      | .ok (.error e, a') => .ok (.error e, a') := by
  rw [map_eq_pure_bind, run_bind]
  cases m.run a with
  | error e => rfl
  | ok p =>
    obtain ⟨r, a'⟩ := p
    cases r <;> rfl

@[simp] theorem run_get (a : Account) : (get : AccountM Account).run a = .ok (.ok a, a) := rfl

@[simp] theorem run_set (a a' : Account) : (set a' : AccountM PUnit).run a = .ok (.ok ⟨⟩, a') :=
  rfl

@[simp] theorem run_modify (f : Account → Account) (a : Account) :
    (modify f : AccountM PUnit).run a = .ok (.ok ⟨⟩, f a) := rfl

@[simp] theorem run_throw (e : LedgerError) (a : Account) :
    (throw e : AccountM α).run a = .ok (.error e, a) := rfl

@[simp] theorem run_fault (a : Account) : (fault : AccountM α).run a = .error .arithmeticOverflow :=
  rfl

theorem run_ite {c : Prop} [Decidable c] (x y : AccountM α) (a : Account) :
    (if c then x else y).run a = if c then x.run a else y.run a := by
  split <;> rfl

/-! A step that starts with a primitive runs the primitive first; these forms let `simp` walk a
command's `do` block one primitive at a time. -/

theorem run_get_bind (f : Account → AccountM β) (a : Account) : (get >>= f).run a = (f a).run a := by
  rw [run_bind, run_get]

theorem run_throw_bind (e : LedgerError) (f : α → AccountM β) (a : Account) :
    (throw e >>= f).run a = .ok (.error e, a) := by
  rw [run_bind, run_throw]

theorem run_set_bind (a' : Account) (f : PUnit → AccountM β) (a : Account) :
    (set a' >>= f).run a = (f ⟨⟩).run a' := by
  rw [run_bind, run_set]

theorem run_modify_bind (g : Account → Account) (f : PUnit → AccountM β) (a : Account) :
    (modify g >>= f).run a = (f ⟨⟩).run (g a) := by
  rw [run_bind, run_modify]

/-! ## Reading the account -/

theorem run_orThrow (e : LedgerError) (o : Option α) (a : Account) :
    (orThrow e o).run a = match o with
      | some x => .ok (.ok x, a)
      | none => .ok (.error e, a) := by
  cases o <;> rfl

theorem run_ofFault (x : Except Fault α) (a : Account) :
    (ofFault x).run a = match x with
      | .ok v => .ok (.ok v, a)
      | .error _ => .error .arithmeticOverflow := by
  cases x <;> rfl

@[simp] theorem run_emit (p : EventPayload) (a : Account) :
    (emit p).run a = .ok (.ok ⟨⟩, { a with events := a.events.record a.time p }) := rfl

theorem run_orThrow_bind (e : LedgerError) (o : Option α) (f : α → AccountM β) (a : Account) :
    (orThrow e o >>= f).run a = match o with
      | some x => (f x).run a
      | none => .ok (.error e, a) := by
  cases o <;> rfl

theorem run_ofFault_bind (x : Except Fault α) (f : α → AccountM β) (a : Account) :
    (ofFault x >>= f).run a = match x with
      | .ok v => (f v).run a
      | .error _ => .error .arithmeticOverflow := by
  cases x <;> rfl

theorem run_emit_bind (p : EventPayload) (f : PUnit → AccountM β) (a : Account) :
    (emit p >>= f).run a = (f ⟨⟩).run { a with events := a.events.record a.time p } := by
  rw [run_bind, run_emit]

theorem run_view (sid : SecurityId) (a : Account) :
    (view sid).run a = match a.instrument? sid with
      | some i => .ok (.ok i, a)
      | none => .ok (.error (.unknownSecurity sid), a) := by
  cases h : a.instrument? sid <;> simp [view, run_bind, run_orThrow, h]

theorem run_recordAt (i : Nat) (a : Account) :
    (recordAt i).run a = match a.orders.get? i with
      | some r => .ok (.ok r, a)
      | none => .ok (.error (.rejected .unknownOrder), a) := by
  cases h : a.orders.get? i <;> simp [recordAt, run_bind, run_orThrow, h]

theorem run_indexOf (ref : OrderRef) (a : Account) :
    (indexOf ref).run a = match a.orders.lookup ref with
      | some i => .ok (.ok i, a)
      | none => .ok (.error (.rejected .unknownOrder), a) := by
  cases h : a.orders.lookup ref <;> simp [indexOf, run_bind, run_orThrow, h]

theorem run_view_bind (sid : SecurityId) (f : Instrument → AccountM β) (a : Account) :
    (view sid >>= f).run a = match a.instrument? sid with
      | some i => (f i).run a
      | none => .ok (.error (.unknownSecurity sid), a) := by
  rw [run_bind, run_view]
  cases a.instrument? sid <;> rfl

theorem run_recordAt_bind (i : Nat) (f : OrderRecord → AccountM β) (a : Account) :
    (recordAt i >>= f).run a = match a.orders.get? i with
      | some r => (f r).run a
      | none => .ok (.error (.rejected .unknownOrder), a) := by
  rw [run_bind, run_recordAt]
  cases a.orders.get? i <;> rfl

theorem run_indexOf_bind (ref : OrderRef) (f : Nat → AccountM β) (a : Account) :
    (indexOf ref >>= f).run a = match a.orders.lookup ref with
      | some i => (f i).run a
      | none => .ok (.error (.rejected .unknownOrder), a) := by
  rw [run_bind, run_indexOf]
  cases a.orders.lookup ref <;> rfl

/-- A step that first finds the record a reference reaches refuses with `unknownOrder`, changing
nothing, when the reference reaches none, and otherwise gives what the rest gives on the slot and
its record. -/
theorem run_found_cases {ref : OrderRef} {f : Nat → OrderRecord → AccountM β} {a : Account}
    {x : Except Fault (Except LedgerError β × Account)}
    (h : (indexOf ref >>= fun i => recordAt i >>= f i).run a = x) :
    x = .ok (.error (.rejected .unknownOrder), a) ∨
      ∃ i r, a.orders.lookup ref = some i ∧ a.orders.get? i = some r ∧ (f i r).run a = x := by
  rw [run_indexOf_bind] at h
  cases hl : a.orders.lookup ref with
  | none =>
    simp only [hl] at h
    exact .inl h.symm
  | some i =>
    simp only [hl, run_recordAt_bind] at h
    cases hr : a.orders.get? i with
    | none =>
      simp only [hr] at h
      exact .inl h.symm
    | some r =>
      simp only [hr] at h
      exact .inr ⟨i, r, rfl, hr, h⟩

theorem run_found {ref : OrderRef} {f : Nat → OrderRecord → AccountM β} {a a₁ : Account} {x : β}
    (h : (indexOf ref >>= fun i => recordAt i >>= f i).run a = .ok (.ok x, a₁)) :
    ∃ i r, a.orders.lookup ref = some i ∧ a.orders.get? i = some r ∧
      (f i r).run a = .ok (.ok x, a₁) := by
  rcases run_found_cases h with h | h
  · cases h
  · exact h

/-! ## Moving a record -/

/-- A transition refuses an empty slot and a record of an unknown security, changing nothing;
otherwise it moves the record, logs the move and reports the record after it. -/
theorem run_transition (i : Nat) (e : ExecutionType) (change : OrderRecord → OrderRecord)
    (a : Account) :
    (transition i e change).run a = match a.orders.get? i with
      | none => .ok (.error (.rejected .unknownOrder), a)
      | some r => match a.instrument? r.order.securityId with
        | none => .ok (.error (.unknownSecurity r.order.securityId), a)
        | some ins =>
          .ok (.ok (ExecutionReport.ofOrder ((change r).refresh ins.lot).order e a.time),
            a.moved i ins.lot e change r) := by
  cases hr : a.orders.get? i with
  | none => simp [transition, run_bind, run_recordAt, hr]
  | some r =>
    cases hins : a.instrument? r.order.securityId with
    | none => simp [transition, run_bind, run_recordAt, run_view, hr, hins]
    | some ins =>
      have hmoved : (a.orders.modify i fun r => (change r).refresh ins.lot).get? i =
          some ((change r).refresh ins.lot) := by
        simp [OrderBook.get?_modify, hr]
      simp [transition, run_bind, run_map, run_recordAt, run_view, hr, hins, hmoved, Account.moved]

/-- Claiming a venue id refuses an id indexed for another record, changing nothing. -/
theorem run_claimVenueId (i : Nat) (v : VenueOrderId) (a : Account) :
    (claimVenueId i v).run a = match a.orders.venueOwner v (some i) with
      | some owner => .ok (.error (.duplicateVenueOrder v owner), a)
      | none => .ok (.ok ⟨⟩, a.claimed i v) := by
  cases h : a.orders.venueOwner v (some i) <;> simp [claimVenueId, run_bind, h, Account.claimed]

/-! ## Settling a fill -/

theorem run_claimVenueId_bind (i : Nat) (v : VenueOrderId) (f : PUnit → AccountM β) (a : Account) :
    (claimVenueId i v >>= f).run a = match a.orders.venueOwner v (some i) with
      | some owner => .ok (.error (.duplicateVenueOrder v owner), a)
      | none => (f ⟨⟩).run (a.claimed i v) := by
  rw [run_bind, run_claimVenueId]
  cases a.orders.venueOwner v (some i) <;> rfl

theorem run_ofChecked_bind (x : Checked α) (f : α → AccountM β) (a : Account) :
    (ofChecked x >>= f).run a = match x.run with
      | .ok (.ok v) => (f v).run a
      | .ok (.error e) => .ok (.error e, a)
      | .error _ => .error .arithmeticOverflow := by
  unfold ofChecked
  rcases x.run with _ | _ | _ <;> rfl

/-- What settling a fill may do: it moves money, never a record or an instrument, and it
refuses only before its first write. -/
structure Settles (a a' : Account) (res : Except LedgerError PUnit) : Prop where
  orders : a'.orders = a.orders
  instruments : a'.instruments = a.instruments
  refused : ∀ e, res = .error e → a' = a

variable {a a' : Account} {res : Except LedgerError PUnit}

theorem Settles.refusal {e : LedgerError}
    (h : (Except.ok (Except.error e, a) : Except Fault _) = .ok (res, a')) : Settles a a' res := by
  cases h
  exact ⟨rfl, rfl, fun _ _ => rfl⟩

/-- A spot settlement refuses without a change, or credits both legs of the fill and logs each
leg's new balance. -/
theorem settleSpot_cases {sid : SecurityId} {side : Side} {price quantity : Decimal}
    {taker : Bool} (h : (settleSpot sid side price quantity taker).run a = .ok (res, a')) :
    (∃ e, res = .error e ∧ a' = a) ∨
    ∃ ins s b, a.instrument? sid = some ins ∧
      a.balances.settleSpot side ins.security.underlying ins.security.quoteCurrency price quantity
        (ins.feeRate taker) = .ok (some (s, b)) ∧ res = .ok ⟨⟩ ∧
      a' = { a with
        balances := b,
        events := (a.events.record a.time (.balanceChanged ins.security.underlying s.baseDelta
          (b.get ins.security.underlying))).record a.time
            (.balanceChanged ins.security.quoteCurrency s.quoteDelta
              (b.get ins.security.quoteCurrency)) } := by
  simp only [settleSpot, run_view_bind, run_get_bind, run_ofFault_bind, run_orThrow_bind] at h
  split at h
  · rename_i ins hins
    split at h
    · split at h
      · rename_i sb hsb
        obtain ⟨s, b⟩ := sb
        simp only [run_modify_bind, run_emit_bind, run_emit] at h
        cases h
        exact .inr ⟨ins, s, b, hins, hsb, rfl, rfl⟩
      · cases h
        exact .inl ⟨_, rfl, rfl⟩
    · cases h
  · cases h
    exact .inl ⟨_, rfl, rfl⟩

/-- A margined settlement refuses without a change, or applies the fill to the position it reads
at the settlement price, charges the commission, and writes the position and the margin, logging
the position's change and the fee. -/
theorem settleMargined_cases {sid : SecurityId} {side : Side} {t : TradeId}
    {price quantity : Decimal} {rawFill : Int64} {taker : Bool}
    (h : (settleMargined sid side t price quantity rawFill taker).run a = .ok (res, a')) :
    (∃ e, res = .error e ∧ a' = a) ∨
    ∃ ins sp p u fee margin, a.instrument? sid = some ins ∧ ins.settlementPrice? price = some sp ∧
      (applyFill ((a.positions.get? sid).getD (Position.create sid false)) side rawFill sp
        (a.terms ins)).run = .ok (.ok (p, u)) ∧
      (Margin.notional? quantity sp ins.security.multiplier >>=
        (Margin.commission? (ins.feeRate taker) · a.marginGrid)) = some fee ∧
      (Word.add? a.margin u.realizedPnl >>= (Word.sub? · fee)) = some margin ∧ res = .ok ⟨⟩ ∧
      a' = { a with
        margin, positions := a.positions.insert sid p,
        events := (a.events.record a.time
          (.positionChanged sid u.oldRawSize u.newRawSize p.cost u.realizedPnl)).record a.time
            (.commission sid t (ins.feeRate taker) fee) } := by
  simp only [settleMargined, run_view_bind, run_get_bind, run_orThrow_bind, run_ofChecked_bind] at h
  split at h
  · rename_i ins hins
    split at h
    · rename_i sp hsp
      split at h
      · rename_i pu hpu
        obtain ⟨p, u⟩ := pu
        split at h
        · rename_i fee hfee
          split at h
          · rename_i margin hmargin
            simp only [run_modify_bind, run_emit_bind, run_emit] at h
            cases h
            exact .inr ⟨ins, sp, p, u, fee, margin, hins, hsp, hpu, hfee, hmargin, rfl, rfl⟩
          · cases h
            exact .inl ⟨_, rfl, rfl⟩
        · cases h
          exact .inl ⟨_, rfl, rfl⟩
      · cases h
        exact .inl ⟨_, rfl, rfl⟩
      · cases h
    · cases h
      exact .inl ⟨_, rfl, rfl⟩
  · cases h
    exact .inl ⟨_, rfl, rfl⟩

theorem settleSpot_settles {sid : SecurityId} {side : Side} {price quantity : Decimal} {taker : Bool}
    (h : (settleSpot sid side price quantity taker).run a = .ok (res, a')) : Settles a a' res := by
  rcases settleSpot_cases h with ⟨e, rfl, rfl⟩ | ⟨-, -, -, -, -, rfl, rfl⟩
  · exact ⟨rfl, rfl, fun _ _ => rfl⟩
  · exact ⟨rfl, rfl, fun _ he => by cases he⟩

theorem settleMargined_settles {sid : SecurityId} {side : Side} {t : TradeId}
    {price quantity : Decimal} {rawFill : Int64} {taker : Bool}
    (h : (settleMargined sid side t price quantity rawFill taker).run a = .ok (res, a')) :
    Settles a a' res := by
  rcases settleMargined_cases h with ⟨e, rfl, rfl⟩ | ⟨-, -, -, -, -, -, -, -, -, -, -, rfl, rfl⟩
  · exact ⟨rfl, rfl, fun _ _ => rfl⟩
  · exact ⟨rfl, rfl, fun _ he => by cases he⟩

theorem settleFill_settles {sid : SecurityId} {side : Side} {t : TradeId}
    {price quantity : Decimal} {rawFill : Int64} {taker : Bool}
    (h : (settleFill sid side t price quantity rawFill taker).run a = .ok (res, a')) :
    Settles a a' res := by
  simp only [settleFill, run_view_bind] at h
  split at h
  · rw [run_ite] at h
    split at h
    · exact settleMargined_settles h
    · exact settleSpot_settles h
  · exact .refusal h

end AccountM

end TradeLedger
