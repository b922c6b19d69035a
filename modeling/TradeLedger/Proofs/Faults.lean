import TradeLedger.Proofs.Reachable

/-!
# Where a step can fault

The ledger checks its arithmetic: a conversion or a sum that does not fit is refused with
`overflow`, and the account stays as it was. Five operations are left unchecked, and only
they can fault:

* crediting a balance in a spot fill, a decimal sum;
* the magnitude of a position's size when a fill closes against it, which the least word has
  not;
* adding a fill to the filled count of its order;
* the leaves of a confirmed amendment, its new total less the filled count;
* the magnitude of a position's mark value when it is valued.

`Account.handle_fault_overflows` says that a command faults only through one of the first
four (`Account.Overflows`), and `Account.query_fault_overflows` that a query faults only
through the last one or the quotient of the leverage, the exposure over the equity that the
query summed (`Account.QueryOverflows`). So every
command other than a fill or a confirmed amendment answers, whatever the account.
-/

namespace TradeLedger

theorem Word.ofInt?_eq_none {x : Int} (h : Word.ofInt? x = none) :
    x < -9223372036854775808 ∨ 9223372036854775807 < x := by
  unfold Word.ofInt? Word.inRange at h
  split at h
  · cases h
  · rename_i hr
    simp only [Bool.and_eq_true, decide_eq_true_eq] at hr
    omega

theorem Word.abs?_eq_none {w : Int64} (h : Word.abs? w = none) : w.toInt = -9223372036854775808 := by
  have hlo := Int64.le_toInt w
  have hhi := Int64.toInt_lt w
  have := Word.ofInt?_eq_none h
  omega

namespace Checked

variable {α β : Type}

/-- Every fault of `c` happens under `Q`. -/
def FaultsOnly (Q : Prop) (c : Checked α) : Prop := ∀ f, c.run = .error f → Q

theorem faultsOnly_pure {Q : Prop} (x : α) : FaultsOnly Q (pure x) := by
  intro f h
  cases h

theorem faultsOnly_throw {Q : Prop} (e : LedgerError) : FaultsOnly Q (throw e : Checked α) := by
  intro f h
  cases h

theorem faultsOnly_orError {Q : Prop} (e : LedgerError) (o : Option α) :
    FaultsOnly Q (orError e o) := by
  cases o with
  | none => exact faultsOnly_throw e
  | some x => exact faultsOnly_pure x

theorem faultsOnly_orFault {Q : Prop} {o : Option α} (hq : o = none → Q) : FaultsOnly Q (orFault o) := by
  cases o with
  | none => exact fun _ _ => hq rfl
  | some x => exact faultsOnly_pure x

theorem faultsOnly_bind_of {Q : Prop} {m : Checked α} {g : α → Checked β} (hm : FaultsOnly Q m)
    (hg : ∀ x, m.run = .ok (.ok x) → FaultsOnly Q (g x)) : FaultsOnly Q (m >>= g) := by
  intro f h
  rw [ExceptT.run_bind] at h
  cases hrun : m.run with
  | error e => exact hm e hrun
  | ok r =>
    rw [hrun] at h
    cases r with
    | ok x => exact hg x hrun f h
    | error e => cases h

theorem faultsOnly_bind {Q : Prop} {m : Checked α} {g : α → Checked β} (hm : FaultsOnly Q m)
    (hg : ∀ x, FaultsOnly Q (g x)) : FaultsOnly Q (m >>= g) :=
  faultsOnly_bind_of hm fun x _ => hg x

theorem faultsOnly_lift {Q : Prop} {m : Except Fault α} (hq : ∀ f, m = .error f → Q) :
    FaultsOnly Q (ExceptT.lift m : Checked α) := by
  intro f h
  cases hm : m with
  | error e => exact hq e hm
  | ok x =>
    rw [hm] at h
    cases h

theorem FaultsOnly.mono {Q Q' : Prop} {c : Checked α} (h : FaultsOnly Q c) (hQ : Q → Q') :
    FaultsOnly Q' c :=
  fun f hf => hQ (h f hf)

theorem orError_run_ok {e : LedgerError} {o : Option α} {x : α}
    (h : (orError e o).run = .ok (.ok x)) : o = some x := by
  cases o with
  | none => cases h
  | some y => cases h; rfl

theorem faultsOnly_foldlM {Q : Prop} {g : β → α → Checked β} :
    ∀ (xs : List α), (∀ x ∈ xs, ∀ acc, FaultsOnly Q (g acc x)) →
      ∀ init, FaultsOnly Q (xs.foldlM g init)
  | [], _, init => faultsOnly_pure init
  | x :: xs, hg, init => by
    rw [List.foldlM_cons]
    exact faultsOnly_bind (hg x (by simp) init) fun acc =>
      faultsOnly_foldlM xs (fun y hy => hg y (by simp [hy])) acc

end Checked

open Checked in
theorem applyFill_fault {p : Position} {side : Side} {rawFill : Int64} {price : Decimal}
    {t : ContractTerms} :
    FaultsOnly (p.rawSize.toInt = -9223372036854775808 ∧ side = .buy)
      (applyFill p side rawFill price t) := by
  unfold applyFill
  simp only [pure_bind]
  split
  · rename_i hagainst
    refine faultsOnly_bind (faultsOnly_orFault fun habs => ?_) fun _ => ?_
    · have hmin := Word.abs?_eq_none habs
      refine ⟨hmin, ?_⟩
      have hsig : Word.signum p.rawSize = -1 := by simp [Word.signum, hmin]
      cases side with
      | buy => rfl
      | sell => exact absurd hsig hagainst.2
    · (repeat' (first
        | exact faultsOnly_pure _
        | exact faultsOnly_orError _ _
        | refine faultsOnly_bind ?_ fun _ => ?_
        | split))
  · (repeat' (first
      | exact faultsOnly_pure _
      | exact faultsOnly_orError _ _
      | refine faultsOnly_bind ?_ fun _ => ?_
      | split))

namespace AccountM

variable {α β : Type}

/-- A step that never faults: from every account it answers or refuses. -/
def NoFault (m : AccountM α) : Prop := ∀ a, ∃ r, m.run a = .ok r

/-! ## The monad -/

theorem noFault_pure (x : α) : NoFault (pure x) := fun a => ⟨_, run_pure x a⟩

theorem noFault_throw (e : LedgerError) : NoFault (throw e : AccountM α) :=
  fun a => ⟨_, run_throw e a⟩

theorem noFault_bind {m : AccountM α} {f : α → AccountM β} (hm : NoFault m)
    (hf : ∀ x, NoFault (f x)) : NoFault (m >>= f) := by
  intro a
  obtain ⟨⟨r, a₁⟩, hrun⟩ := hm a
  rw [run_bind, hrun]
  cases r with
  | ok x => exact hf x a₁
  | error e => exact ⟨_, rfl⟩

theorem noFault_ite {c : Prop} [Decidable c] {x y : AccountM α} (hx : NoFault x)
    (hy : NoFault y) : NoFault (if c then x else y) := by
  split
  · exact hx
  · exact hy

theorem noFault_map {m : AccountM α} (f : α → β) (hm : NoFault m) : NoFault (f <$> m) := by
  rw [map_eq_pure_bind]
  exact noFault_bind hm fun x => noFault_pure (f x)

theorem noFault_get_bind {f : Account → AccountM β} (hf : ∀ a, NoFault (f a)) :
    NoFault (get >>= f) := by
  intro a
  rw [run_get_bind]
  exact hf a a

theorem noFault_modify (g : Account → Account) : NoFault (modify g) :=
  fun a => ⟨_, run_modify g a⟩

theorem noFault_set (a₀ : Account) : NoFault (set a₀ : AccountM PUnit) :=
  fun a => ⟨_, run_set a a₀⟩

theorem noFault_mapM {f : α → AccountM β} (hf : ∀ x, NoFault (f x)) :
    ∀ xs : List α, NoFault (xs.mapM f)
  | [] => noFault_pure []
  | x :: xs => by
    rw [List.mapM_cons]
    exact noFault_bind (hf x) fun y =>
      noFault_bind (noFault_mapM hf xs) fun ys => noFault_pure (y :: ys)

theorem NoFault.ne_error {m : AccountM α} (hm : NoFault m) {a : Account} {f : Fault}
    (h : m.run a = .error f) : False := by
  obtain ⟨r, hr⟩ := hm a
  rw [hr] at h
  cases h

theorem noFault_orThrow (e : LedgerError) (o : Option α) : NoFault (orThrow e o) := by
  cases o with
  | none => exact noFault_throw e
  | some x => exact noFault_pure x

/-! ## The account's own steps -/

theorem noFault_view (sid : SecurityId) : NoFault (view sid) :=
  noFault_get_bind fun a => noFault_orThrow _ (a.instrument? sid)

theorem noFault_indexOf (ref : OrderRef) : NoFault (indexOf ref) :=
  noFault_get_bind fun a => noFault_orThrow _ (a.orders.lookup ref)

theorem noFault_recordAt (i : Nat) : NoFault (recordAt i) :=
  noFault_get_bind fun a => noFault_orThrow _ (a.orders.get? i)

theorem noFault_emit (p : EventPayload) : NoFault (emit p) := noFault_modify _

theorem noFault_transition (i : Nat) (e : ExecutionType) (change : OrderRecord → OrderRecord) :
    NoFault (transition i e change) := by
  unfold transition
  refine noFault_bind (noFault_recordAt i) fun r => noFault_bind (noFault_view _) fun v => ?_
  refine noFault_bind (noFault_modify _) fun _ => noFault_bind (noFault_recordAt i) fun r' => ?_
  exact noFault_get_bind fun a => noFault_bind (noFault_emit _) fun _ => noFault_pure _

theorem noFault_claimVenueId (i : Nat) (v : VenueOrderId) : NoFault (claimVenueId i v) := by
  unfold claimVenueId
  refine noFault_get_bind fun a => ?_
  split
  · exact noFault_throw _
  · exact noFault_modify _

end AccountM

namespace Account

/-- A fill of `quantity` through `ref` that passes the checks before settlement: it reaches the
record `r` in slot `i`, of the instrument `ins`, and takes `n` raw lots, at least one and no
more than the record has open. -/
structure FillReaches (a : Account) (ref : OrderRef) (quantity : Decimal) (i : Nat)
    (r : OrderRecord) (ins : Instrument) (n : Int64) : Prop where
  lookup : a.orders.lookup ref = some i
  record : a.orders.get? i = some r
  instrument : a.instrument? r.order.securityId = some ins
  raw : ins.lot.toRaw? quantity = some n
  pos : 0 < n.toInt
  le_leaves : n.toInt ≤ r.rawLeaves.toInt

/-- The unchecked operations of a command that overflow on an account. -/
inductive Overflows (a : Account) : Command → Prop
  /-- A spot fill credits a balance beyond the decimal range. -/
  | spotCredit {ref : OrderRef} {t : TradeId} {price quantity : Decimal} {taker : Bool} {i : Nat}
      {r : OrderRecord} {ins : Instrument} {n : Int64} {e : Fault} :
      a.FillReaches ref quantity i r ins n → ins.isMargined = false →
      a.balances.settleSpot r.order.side ins.security.underlying ins.security.quoteCurrency price
        (ins.lot.fromRaw n) (ins.feeRate taker) = .error e →
      Overflows a (.confirmFill ref t price quantity taker)
  /-- A buy closes against a short position of the least size, whose magnitude is no word. -/
  | leastShort {ref : OrderRef} {t : TradeId} {price quantity : Decimal} {taker : Bool} {i : Nat}
      {r : OrderRecord} {ins : Instrument} {n : Int64} {p : Position} :
      a.FillReaches ref quantity i r ins n → ins.isMargined = true →
      a.positions.get? r.order.securityId = some p → p.rawSize.toInt = -9223372036854775808 →
      r.order.side = .buy → Overflows a (.confirmFill ref t price quantity taker)
  /-- A fill takes the filled count of its order past the largest word. -/
  | cumPastMax {ref : OrderRef} {t : TradeId} {price quantity : Decimal} {taker : Bool} {i : Nat}
      {r : OrderRecord} {ins : Instrument} {n : Int64} :
      a.FillReaches ref quantity i r ins n → 9223372036854775807 < r.rawCum.toInt + n.toInt →
      Overflows a (.confirmFill ref t price quantity taker)
  /-- A confirmed amendment's total, less a filled count below it, passes the largest word. -/
  | leavesPastMax {ref : OrderRef} {v : Option VenueOrderId} {i : Nat} {r : OrderRecord}
      {q : Int64} :
      a.orders.lookup ref = some i → a.orders.get? i = some r → r.status = .pendingReplace →
      (r.amendment.getD ⟨none, none⟩).rawQuantity = some q → r.rawCum.toInt < q.toInt →
      9223372036854775807 < q.toInt - r.rawCum.toInt → Overflows a (.confirmReplaceOrder ref v)

end Account

namespace AccountM

variable {a : Account} {f : Fault}

/-! ## Settling a fill -/

/-- A spot settlement faults only when a balance credit leaves the decimal range. -/
theorem settleSpot_fault {sid : SecurityId} {side : Side} {price quantity : Decimal}
    {taker : Bool} (h : (settleSpot sid side price quantity taker).run a = .error f) :
    ∃ ins e, a.instrument? sid = some ins ∧
      a.balances.settleSpot side ins.security.underlying ins.security.quoteCurrency price quantity
        (ins.feeRate taker) = .error e := by
  simp only [settleSpot, run_view_bind, run_get_bind, run_ofFault_bind, run_orThrow_bind] at h
  cases hins : a.instrument? sid with
  | none => simp [hins] at h
  | some ins =>
    simp only [hins] at h
    cases hs : a.balances.settleSpot side ins.security.underlying ins.security.quoteCurrency price
      quantity (ins.feeRate taker) with
    | error e => exact ⟨ins, e, rfl, hs⟩
    | ok s =>
      simp only [hs] at h
      split at h
      · simp [run_modify_bind, run_emit_bind] at h
      · cases h

/-- A margined settlement faults only when a buy closes against a short position of the least
size. -/
theorem settleMargined_fault {sid : SecurityId} {side : Side} {t : TradeId}
    {price quantity : Decimal} {rawFill : Int64} {taker : Bool}
    (h : (settleMargined sid side t price quantity rawFill taker).run a = .error f) :
    ∃ p, a.positions.get? sid = some p ∧ p.rawSize.toInt = -9223372036854775808 ∧
      side = .buy := by
  simp only [settleMargined, run_view_bind, run_get_bind, run_orThrow_bind,
    run_ofChecked_bind] at h
  split at h
  · split at h
    · split at h
      · split at h
        · split at h
          · simp [run_modify_bind, run_emit_bind] at h
          · cases h
        · cases h
      · cases h
      · rename_i e hfault
        obtain ⟨hmin, hside⟩ := applyFill_fault e hfault
        cases hp : a.positions.get? sid with
        | none => simp [hp, Position.create] at hmin
        | some p =>
          rw [hp, Option.getD_some] at hmin
          exact ⟨p, rfl, hmin, hside⟩
    · cases h
  · cases h

/-- A settlement faults at a spot credit or at the magnitude of the least short position. -/
theorem settleFill_fault {sid : SecurityId} {side : Side} {t : TradeId} {price quantity : Decimal}
    {rawFill : Int64} {taker : Bool}
    (h : (settleFill sid side t price quantity rawFill taker).run a = .error f) :
    ∃ ins, a.instrument? sid = some ins ∧
      ((ins.isMargined = false ∧ ∃ e, a.balances.settleSpot side ins.security.underlying
          ins.security.quoteCurrency price quantity (ins.feeRate taker) = .error e) ∨
        (ins.isMargined = true ∧ ∃ p, a.positions.get? sid = some p ∧
          p.rawSize.toInt = -9223372036854775808 ∧ side = .buy)) := by
  simp only [settleFill, run_view_bind] at h
  cases hins : a.instrument? sid with
  | none => simp [hins] at h
  | some ins =>
    simp only [hins, run_ite] at h
    refine ⟨ins, rfl, ?_⟩
    split at h
    · exact .inr ⟨‹_›, settleMargined_fault h⟩
    · rename_i hm
      obtain ⟨ins', e, hins', he⟩ := settleSpot_fault h
      rw [hins] at hins'
      cases hins'
      exact .inl ⟨by simpa using hm, e, he⟩

/-! ## The two commands that may fault -/

theorem confirmFill_fault {ref : OrderRef} {t : TradeId} {price quantity : Decimal} {taker : Bool}
    (h : (confirmFill ref t price quantity taker).run a = .error f) :
    a.Overflows (.confirmFill ref t price quantity taker) := by
  simp only [confirmFill] at h
  rcases run_found_cases h with h | ⟨i, r, hl, hr, h⟩
  · cases h
  simp only [run_ite, run_throw_bind, run_view_bind, run_get_bind, run_orThrow_bind] at h
  split at h
  · cases h
  split at h
  · cases h
  cases hins : a.instrument? r.order.securityId with
  | none => simp [hins] at h
  | some ins =>
    simp only [hins] at h
    split at h
    · cases h
    cases hraw : ins.lot.toRaw? quantity with
    | none => simp [hraw] at h
    | some n =>
      simp only [hraw] at h
      split at h
      · cases h
      split at h
      · cases h
      have reach : a.FillReaches ref quantity i r ins n :=
        ⟨hl, hr, hins, hraw, by omega, by omega⟩
      rw [run_bind] at h
      cases hset : (settleFill r.order.securityId r.order.side t price
        (ins.lot.fromRaw n) n taker).run a with
      | error f =>
        obtain ⟨ins', hins', hspot | hmarg⟩ := settleFill_fault hset
        all_goals rw [hins] at hins'; cases hins'
        · obtain ⟨hm, e, he⟩ := hspot
          exact .spotCredit reach hm he
        · obtain ⟨hm, p, hp, hmin, hside⟩ := hmarg
          exact .leastShort reach hm hp hmin hside
      | ok p =>
        obtain ⟨sres, a₁⟩ := p
        have hsettle := settleFill_settles hset
        cases sres with
        | error e =>
          simp only [hset] at h
          cases h
        | ok u =>
          have hr₁ : a₁.orders.get? i = some r := by rw [hsettle.orders, hr]
          simp only [hset, run_recordAt_bind, hr₁, run_ofFault_bind] at h
          cases hcum : Word.add? r.rawCum n with
          | none =>
            have hout := Word.ofInt?_eq_none hcum
            have hlo := Int64.le_toInt r.rawCum
            exact .cumPastMax reach (by omega)
          | some cum =>
            simp only [hcum] at h
            obtain ⟨res, hres⟩ := noFault_bind (noFault_transition i .trade
              (OrderRecord.fill t (Int64.ofInt (r.rawLeaves.toInt - n.toInt)) cum))
              (fun report => noFault_bind (noFault_emit _) fun _ => noFault_pure
                (some (report.withFill t price (ins.lot.fromRaw n)))) a₁
            rw [hres] at h
            cases h

theorem confirmReplaceOrder_fault {ref : OrderRef} {nv : Option VenueOrderId}
    (h : (confirmReplaceOrder ref nv).run a = .error f) :
    a.Overflows (.confirmReplaceOrder ref nv) := by
  simp only [confirmReplaceOrder] at h
  rcases run_found_cases h with h | ⟨i, r, hl, hr, h⟩
  · cases h
  simp only [run_ite, run_throw_bind] at h
  split at h
  · cases h
  split at h
  · cases h
  have hs : r.status = .pendingReplace := not_not.mp ‹_›
  have claim : ∀ v, NoFault (claimVenueId i v) := noFault_claimVenueId i
  cases hq : (r.amendment.getD ⟨none, none⟩).rawQuantity with
  | none =>
    simp only [hq] at h
    cases nv with
    | none =>
      exact (NoFault.ne_error (noFault_bind (noFault_pure none) fun _ =>
        noFault_map _ (noFault_transition _ _ _)) h).elim
    | some v =>
      exact (NoFault.ne_error (noFault_bind (claim v) fun _ => noFault_bind (noFault_pure none)
        fun _ => noFault_map _ (noFault_transition _ _ _)) h).elim
  | some q =>
    by_cases hle : q.toInt ≤ r.rawCum.toInt
    · simp only [hq, hle, if_true] at h
      exact (NoFault.ne_error (noFault_bind (noFault_transition _ _ _) fun _ =>
        noFault_throw _) h).elim
    · simp only [hq, hle, if_false] at h
      cases hsub : Word.sub? q r.rawCum with
      | none =>
        have hout := Word.ofInt?_eq_none hsub
        have hlo := Int64.le_toInt r.rawCum
        have hhi := Int64.toInt_lt q
        exact .leavesPastMax hl hr hs hq (by omega) (by omega)
      | some l =>
        simp only [hsub] at h
        have leaves : NoFault (some <$> ofFault (.ok l : Except Fault Int64)) :=
          noFault_map _ fun _ => ⟨_, rfl⟩
        cases nv with
        | none =>
          exact (NoFault.ne_error (noFault_bind leaves fun _ =>
            noFault_map _ (noFault_transition _ _ _)) h).elim
        | some v =>
          exact (NoFault.ne_error (noFault_bind (claim v) fun _ => noFault_bind leaves
            fun _ => noFault_map _ (noFault_transition _ _ _)) h).elim

end AccountM

namespace Account

variable {a : Account} {f : Fault}

theorem answer_fault {α : Type} {m : AccountM α} {wrap : α → Response}
    (h : a.answer m wrap = .error f) : m.run a = .error f := by
  unfold answer at h
  split at h
  · rename_i f' hrun
    cases h
    exact hrun
  all_goals cases h

open AccountM in
/-- A command faults only where one of its unchecked operations overflows: a fill at a spot
credit, at the least short position or at its filled count, a confirmed amendment at its
leaves. Every other command answers from every account. -/
theorem handle_fault_overflows {c : Command} (h : a.handle c = .error f) : a.Overflows c := by
  cases c with
  | setTime t => cases h
  | confirmFill ref t price quantity taker => exact confirmFill_fault (answer_fault h)
  | confirmReplaceOrder ref v => exact confirmReplaceOrder_fault (answer_fault h)
  | sync x =>
    refine (NoFault.ne_error ?_ (answer_fault h)).elim
    unfold sync
    refine noFault_get_bind fun a => ?_
    dsimp only
    split
    · exact noFault_throw _
    · exact noFault_bind (noFault_set _) fun _ => noFault_emit _
  | _ =>
    simp only [handle] at h
    refine (NoFault.ne_error ?_ (answer_fault h)).elim
    -- Every other command reads, refuses, moves records and logs: walk its `do` block.
    (first
      | unfold newOrder | unfold confirmNewOrder | unfold rejectNewOrder | unfold cancelOrder
      | unfold confirmCancelOrder | unfold rejectCancelOrder | unfold replaceOrder
      | unfold rejectReplaceOrder | unfold pendingFilled | unfold confirmExpiredOrder
      | unfold checkExpiration | unfold pruneClosed)
    try dsimp only
    repeat' (first
      | with_reducible intro _
      | with_reducible exact noFault_pure _
      | with_reducible exact noFault_throw _
      | with_reducible exact noFault_orThrow _ _
      | with_reducible exact noFault_indexOf _
      | with_reducible exact noFault_recordAt _
      | with_reducible exact noFault_view _
      | with_reducible exact noFault_emit _
      | with_reducible exact noFault_transition _ _ _
      | with_reducible exact noFault_claimVenueId _ _
      | with_reducible exact noFault_mapM (fun _ => noFault_transition _ _ _) _
      | with_reducible exact noFault_modify _
      | with_reducible exact noFault_set _
      | with_reducible apply noFault_get_bind
      | with_reducible apply noFault_bind
      | with_reducible apply noFault_map
      | with_reducible apply noFault_ite
      | split)

/-! ## Queries -/

/-- The mark value of the position `p` at `mark` is the least word, which has no magnitude. -/
def MarkValueLeast (a : Account) (p : Position) (mark : Decimal) : Prop :=
  ∃ ins price v, a.instrument? p.securityId = some ins ∧ ins.settlementPrice? mark = some price ∧
    (a.terms ins).marginValue? p.rawSize price = some v ∧ v.toInt = -9223372036854775808

/-- The unchecked operations of a query that overflow on an account. -/
inductive QueryOverflows (a : Account) : Query → Prop
  /-- The valued position's mark value is the least word. -/
  | unrealizedPnl {sid : SecurityId} {mark : Decimal} {p : Position} :
      a.positions.get? sid = some p → a.MarkValueLeast p mark →
      QueryOverflows a (.unrealizedPnl sid mark)
  /-- An open position's mark value is the least word. -/
  | leverage {marks : List (SecurityId × Decimal)} {p : Position} {mark : Decimal} :
      p ∈ a.openPositions → markOf? marks p.securityId = some mark → a.MarkValueLeast p mark →
      QueryOverflows a (.leverage marks)
  /-- The exposure and the equity that the fold over the open positions sums to, the one not zero
  and the other positive, have no decimal quotient. -/
  | leverageRatio {marks : List (SecurityId × Decimal)} {exposure equity : Int64} :
      (a.openPositions.foldlM (a.leverageStep marks) ((0 : Int64), a.margin)).run =
        .ok (.ok (exposure, equity)) →
      (a.marginGrid.fromRaw exposure).isZero = false → ¬ a.marginGrid.fromRaw equity ≤ Decimal.zero →
      (a.marginGrid.fromRaw exposure).div? (a.marginGrid.fromRaw equity) = none →
      QueryOverflows a (.leverage marks)
  /-- An open position's mark value is the least word. -/
  | availableMargin {marks : List (SecurityId × Decimal)} {leverage : Decimal} {p : Position}
      {mark : Decimal} :
      p ∈ a.openPositions → markOf? marks p.securityId = some mark → a.MarkValueLeast p mark →
      QueryOverflows a (.availableMargin marks leverage)

theorem leverageRatio_fault {exposure equity : Decimal} {f : Fault}
    (h : Margin.leverageRatio exposure equity = .error f) :
    exposure.isZero = false ∧ ¬ equity ≤ Decimal.zero ∧ exposure.div? equity = none := by
  simp only [Margin.leverageRatio] at h
  split at h
  · cases h
  rename_i hzero
  split at h
  · cases h
  rename_i hpos
  split at h
  · cases h
  · exact ⟨Bool.eq_false_iff.mpr hzero, hpos, ‹_›⟩

theorem valuation_fault {p : Position} {mark : Decimal} :
    Checked.FaultsOnly (a.MarkValueLeast p mark) (a.valuation p mark) := by
  intro f h
  simp only [valuation, ExceptT.run_bind] at h
  cases hins : a.instrument? p.securityId with
  | none =>
    simp [hins, Checked.orError] at h
    cases h
  | some ins =>
    cases hprice : ins.settlementPrice? mark with
    | none =>
      simp [hins, hprice, Checked.orError] at h
      cases h
    | some price =>
      cases hu : Margin.unrealizedPnl? p price (a.terms ins) with
      | none =>
        simp [hins, hprice, hu, Checked.orError] at h
        cases h
      | some u =>
        cases hv : (a.terms ins).marginValue? p.rawSize price with
        | none =>
          simp [hins, hprice, hu, hv, Checked.orError, Margin.exposure?] at h
          cases h
        | some v =>
          cases habs : Word.abs? v with
          | some w =>
            simp [hins, hprice, hu, hv, habs, Checked.orError, Margin.exposure?] at h
            cases h
          | none => exact ⟨ins, price, v, hins, hprice, hv, Word.abs?_eq_none habs⟩

open Checked in
/-- Valuing each open position at its mark faults only at a mark value that is the least word;
the sums around it are checked. -/
theorem marked_valuations_fault {Q : Prop} {marks : List (SecurityId × Decimal)} {β : Type}
    {k : β → Position → Valuation → Checked β}
    (hk : ∀ acc p v, FaultsOnly Q (k acc p v))
    (hQ : ∀ p mark, p ∈ a.openPositions → markOf? marks p.securityId = some mark →
      a.MarkValueLeast p mark → Q) (init : β) :
    FaultsOnly Q (a.openPositions.foldlM (fun acc p => do
      let mark ← orError (.noMarkPrice p.securityId) (markOf? marks p.securityId)
      let v ← a.valuation p mark
      k acc p v) init) :=
  faultsOnly_foldlM _ (fun p hp acc =>
    faultsOnly_bind_of (faultsOnly_orError _ _) fun mark hmark =>
      faultsOnly_bind (valuation_fault.mono (hQ p mark hp (orError_run_ok hmark)))
        fun v => hk acc p v) init

theorem answerChecked_fault {c : Checked Decimal} (h : answerChecked c = .error f) :
    c.run = .error f := by
  unfold answerChecked at h
  split at h
  · rename_i f' hrun
    cases h
    exact hrun
  all_goals cases h

open Checked in
/-- A query faults only where one of its unchecked operations overflows: a position whose mark
value is the least word, or the exposure and equity the leverage sums to, whose quotient does not
fit. -/
theorem query_fault_overflows {q : Query} (h : a.query q = .error f) : a.QueryOverflows q := by
  cases q with
  | unrealizedPnl sid mark =>
    have hrun := answerChecked_fault h
    simp only [unrealizedPnl] at hrun
    cases hp : a.positions.get? sid with
    | none => simp [hp] at hrun; cases hrun
    | some p =>
      simp only [hp] at hrun
      exact faultsOnly_bind (valuation_fault.mono (QueryOverflows.unrealizedPnl hp))
        (fun _ => faultsOnly_pure _) f hrun
  | leverage marks =>
    refine faultsOnly_bind_of (marked_valuations_fault (fun _ _ _ => ?_) (fun p mark hp hmark hv =>
      .leverage hp hmark hv) _) (fun acc hacc => ?_) f (answerChecked_fault h)
    · exact faultsOnly_bind (faultsOnly_orError _ _) fun _ =>
        faultsOnly_bind (faultsOnly_orError _ _) fun _ => faultsOnly_pure _
    · obtain ⟨exposure, equity⟩ := acc
      refine faultsOnly_lift fun f' hf => ?_
      obtain ⟨hzero, hpos, hdiv⟩ := leverageRatio_fault hf
      exact .leverageRatio hacc hzero hpos hdiv
  | availableMargin marks lev =>
    have hrun := answerChecked_fault h
    simp only [availableMargin] at hrun
    split at hrun
    · cases hrun
    refine faultsOnly_bind (marked_valuations_fault (fun _ _ _ => ?_) (fun p mark hp hmark hv =>
      .availableMargin hp hmark hv) _) (fun _ => faultsOnly_pure _) f hrun
    exact faultsOnly_bind (faultsOnly_orError _ _) fun _ => faultsOnly_orError _ _
  | _ => cases h

/-- Faults come only from the unchecked operations: a command faults only where it overflows
one of them, and so does a query. -/
theorem faults_only_at_unchecked_overflows (a : Account) :
    (∀ c f, a.handle c = .error f → a.Overflows c) ∧
      (∀ q f, a.query q = .error f → a.QueryOverflows q) :=
  ⟨fun _ _ h => handle_fault_overflows h, fun _ _ h => query_fault_overflows h⟩

def leastShortSnapshot : Command :=
  .sync ⟨[Security.btcusdPerp], [],
    [⟨⟨"binance", "main"⟩, 1, Decimal.ofParts true 9223372036854775808 0, Decimal.zero, false⟩],
    [], none, none⟩

/-- After that snapshot and the order "a" to buy ten lots, a fill of one lot of "a" faults: it
closes against the short, whose magnitude is no word. -/
theorem least_short_fill_faults :
    ∃ a, Sample.session [leastShortSnapshot, .newOrder Sample.buyTen] = some a ∧ a.Reachable ∧
      a.handle (Sample.fillA 1) = .error .arithmeticOverflow := by
  have hs : Sample.session [leastShortSnapshot, .newOrder Sample.buyTen] = some _ := rfl
  exact ⟨_, hs, .of_session hs, rfl⟩

/-- The same fill, seen through where faults come from: it overflows an unchecked operation. -/
theorem least_short_fill_overflows :
    ∃ a, Sample.session [leastShortSnapshot, .newOrder Sample.buyTen] = some a ∧
      a.handle (Sample.fillA 1) = .error .arithmeticOverflow ∧ a.Overflows (Sample.fillA 1) := by
  have hs : Sample.session [leastShortSnapshot, .newOrder Sample.buyTen] = some _ := rfl
  exact ⟨_, hs, rfl, (faults_only_at_unchecked_overflows _).1 _ _ rfl⟩

end Account

end TradeLedger
