import TradeLedger.Proofs.Run

/-!
# Properties that every step keeps

`Keeps P m`: every run of `m` from an account satisfying `P` that does not fault leaves an
account satisfying `P`, after an answer or a refusal alike. The property is built up along the
monad's operations, so that a command keeps `P` as soon as each primitive it calls does.

Most commands only read the account, move records and log events. A property blind to the order
book, the balances and the clock, and kept when an event is logged, is therefore kept by every
command once it is kept by the two steps that touch anything else: settling a margined fill,
which changes a position and the margin, and taking a snapshot (`keeps_handle`).
-/

namespace TradeLedger

namespace AccountM

variable {α β : Type}

/-! ## Relations that every run keeps

`Relates R m`: every run of `m` that does not fault relates the account it starts from to the one
it leaves by `R`. For a reflexive, transitive `R` the monad's operations are proved once here;
`Keeps` below and the traces of the event log are two such relations. -/

/-- Every run of `m` that ends, with an answer or a refusal, relates the account it starts from
to the one it leaves by `R`. -/
def Relates (R : Account → Account → Prop) (m : AccountM α) : Prop :=
  ∀ a x a', m.run a = .ok (x, a') → R a a'

section Relates

variable {R : Account → Account → Prop} (refl : ∀ a, R a a)
  (trans : ∀ a b c, R a b → R b c → R a c)

include refl

theorem relates_pure (x : α) : Relates R (pure x) := by
  intro a y a' h
  rw [run_pure] at h
  cases h
  exact refl a

theorem relates_throw (e : LedgerError) : Relates R (throw e : AccountM α) := by
  intro a y a' h
  rw [run_throw] at h
  cases h
  exact refl a

theorem relates_throw_bind (e : LedgerError) (f : α → AccountM β) : Relates R (throw e >>= f) := by
  intro a y a' h
  rw [run_throw_bind] at h
  cases h
  exact refl a

theorem relates_orThrow (e : LedgerError) (o : Option α) : Relates R (orThrow e o) := by
  cases o with
  | none => exact relates_throw refl e
  | some x => exact relates_pure refl x

theorem relates_ofFault (x : Except Fault α) : Relates R (ofFault x) := by
  intro a y a' h
  cases x with
  | error f => cases h
  | ok v => exact relates_pure refl v a y a' h

omit refl in
theorem relates_get_bind {f : Account → AccountM β} (hf : ∀ a, Relates R (f a)) :
    Relates R (get >>= f) := by
  intro a y a' h
  rw [run_get_bind] at h
  exact hf a a y a' h

theorem relates_view (sid : SecurityId) : Relates R (view sid) :=
  relates_get_bind fun a => relates_orThrow refl _ (a.instrument? sid)

theorem relates_indexOf (ref : OrderRef) : Relates R (indexOf ref) :=
  relates_get_bind fun a => relates_orThrow refl _ (a.orders.lookup ref)

theorem relates_recordAt (i : Nat) : Relates R (recordAt i) :=
  relates_get_bind fun a => relates_orThrow refl _ (a.orders.get? i)

omit refl in
include trans in
theorem relates_bind {m : AccountM α} {f : α → AccountM β} (hm : Relates R m)
    (hf : ∀ x, Relates R (f x)) : Relates R (m >>= f) := by
  intro a y a' h
  rw [run_bind] at h
  cases hrun : m.run a with
  | error f => rw [hrun] at h; cases h
  | ok r =>
    obtain ⟨r, a₁⟩ := r
    have h₁ := hm a r a₁ hrun
    rw [hrun] at h
    cases r with
    | ok x => exact trans a a₁ a' h₁ (hf x a₁ y a' h)
    | error e =>
      cases h
      exact h₁

include trans in
theorem relates_map {m : AccountM α} (f : α → β) (hm : Relates R m) : Relates R (f <$> m) := by
  rw [map_eq_pure_bind]
  exact relates_bind trans hm fun x => relates_pure refl (f x)

include trans in
theorem relates_mapM {f : α → AccountM β} (hf : ∀ x, Relates R (f x)) :
    ∀ xs : List α, Relates R (xs.mapM f)
  | [] => relates_pure refl []
  | x :: xs => by
    rw [List.mapM_cons]
    exact relates_bind trans (hf x) fun y =>
      relates_bind trans (relates_mapM hf xs) fun ys => relates_pure refl (y :: ys)

end Relates

variable {P : Account → Prop}

/-- Every run of `m` from an account satisfying `P` that ends leaves one satisfying `P`. -/
def Keeps (P : Account → Prop) (m : AccountM α) : Prop :=
  ∀ a x a', P a → m.run a = .ok (x, a') → P a'

theorem keeps_iff_relates {m : AccountM α} : Keeps P m ↔ Relates (fun a a' => P a → P a') m :=
  ⟨fun h a x a' hrun ha => h a x a' ha hrun, fun h a x a' ha hrun => h a x a' hrun ha⟩

/-! ## The monad -/

theorem keeps_pure (x : α) : Keeps P (pure x) :=
  keeps_iff_relates.2 (relates_pure (fun _ => id) x)

theorem keeps_throw (e : LedgerError) : Keeps P (throw e : AccountM α) :=
  keeps_iff_relates.2 (relates_throw (fun _ => id) e)

theorem keeps_bind {m : AccountM α} {f : α → AccountM β} (hm : Keeps P m)
    (hf : ∀ x, Keeps P (f x)) : Keeps P (m >>= f) :=
  keeps_iff_relates.2 (relates_bind (fun _ _ _ hab hbc ha => hbc (hab ha)) (keeps_iff_relates.1 hm)
    fun x => keeps_iff_relates.1 (hf x))

theorem keeps_throw_bind (e : LedgerError) (f : α → AccountM β) : Keeps P (throw e >>= f) :=
  keeps_iff_relates.2 (relates_throw_bind (fun _ => id) e f)

theorem keeps_ite {c : Prop} [Decidable c] {x y : AccountM α} (hx : Keeps P x) (hy : Keeps P y) :
    Keeps P (if c then x else y) := by
  split
  · exact hx
  · exact hy

theorem keeps_map {m : AccountM α} (f : α → β) (hm : Keeps P m) : Keeps P (f <$> m) :=
  keeps_iff_relates.2 (relates_map (fun _ => id) (fun _ _ _ hab hbc ha => hbc (hab ha)) f
    (keeps_iff_relates.1 hm))

theorem keeps_get_bind {f : Account → AccountM β} (hf : ∀ a, P a → Keeps P (f a)) :
    Keeps P (get >>= f) := by
  intro a y a' ha h
  rw [run_get_bind] at h
  exact hf a ha a y a' ha h

theorem keeps_modify {g : Account → Account} (hg : ∀ a, P a → P (g a)) : Keeps P (modify g) := by
  intro a y a' ha h
  rw [run_modify] at h
  cases h
  exact hg a ha

theorem keeps_set {a₀ : Account} (h₀ : P a₀) : Keeps P (set a₀ : AccountM PUnit) := by
  intro a y a' _ h
  rw [run_set] at h
  cases h
  exact h₀

theorem keeps_mapM {f : α → AccountM β} (hf : ∀ x, Keeps P (f x)) (xs : List α) :
    Keeps P (xs.mapM f) :=
  keeps_iff_relates.2 (relates_mapM (fun _ => id) (fun _ _ _ hab hbc ha => hbc (hab ha))
    (fun x => keeps_iff_relates.1 (hf x)) xs)

theorem keeps_orThrow (e : LedgerError) (o : Option α) : Keeps P (orThrow e o) :=
  keeps_iff_relates.2 (relates_orThrow (fun _ => id) e o)

theorem keeps_ofFault (x : Except Fault α) : Keeps P (ofFault x) :=
  keeps_iff_relates.2 (relates_ofFault (fun _ => id) x)

theorem keeps_ofChecked_bind {c : Checked α} {f : α → AccountM β}
    (hf : ∀ v, c.run = .ok (.ok v) → Keeps P (f v)) : Keeps P (ofChecked c >>= f) := by
  intro a y a' ha h
  rw [run_ofChecked_bind] at h
  split at h
  · rename_i v hv
    exact hf v hv a y a' ha h
  · cases h
    exact ha
  · cases h

/-! ## Reading the account -/

theorem keeps_view (sid : SecurityId) : Keeps P (view sid) :=
  keeps_iff_relates.2 (relates_view (fun _ => id) sid)

theorem keeps_indexOf (ref : OrderRef) : Keeps P (indexOf ref) :=
  keeps_iff_relates.2 (relates_indexOf (fun _ => id) ref)

theorem keeps_recordAt (i : Nat) : Keeps P (recordAt i) :=
  keeps_iff_relates.2 (relates_recordAt (fun _ => id) i)

/-! ## Steps that move records and log events -/

/-- A fill's settlement keeps what both settlements, spot and margined, keep. -/
theorem keeps_settleFill_of
    (hspot : ∀ sid side price quantity taker, Keeps P (settleSpot sid side price quantity taker))
    (hmargined : ∀ sid side t price quantity rawFill taker,
      Keeps P (settleMargined sid side t price quantity rawFill taker))
    (sid : SecurityId) (side : Side) (t : TradeId) (price quantity : Decimal) (rawFill : Int64)
    (taker : Bool) : Keeps P (settleFill sid side t price quantity rawFill taker) := by
  unfold settleFill
  refine keeps_bind (keeps_view sid) fun i => ?_
  split
  · exact hmargined _ _ _ _ _ _ _
  · exact hspot _ _ _ _ _

section Blind

variable (hord : ∀ a (o : OrderBook), P a → P { a with orders := o })
  (hev : ∀ a (p : EventPayload), P a → P { a with events := a.events.record a.time p })
  (hbal : ∀ a (b : Balances), P a → P { a with balances := b })

include hev in
theorem keeps_emit (p : EventPayload) : Keeps P (emit p) :=
  keeps_modify fun a ha => hev a _ ha

include hord hev in
theorem keeps_transition (i : Nat) (e : ExecutionType) (change : OrderRecord → OrderRecord) :
    Keeps P (transition i e change) := by
  unfold transition
  refine keeps_bind (keeps_recordAt i) fun r => keeps_bind (keeps_view _) fun v => ?_
  refine keeps_bind (keeps_modify fun a ha => hord a _ ha) fun _ => ?_
  refine keeps_bind (keeps_recordAt i) fun r' => keeps_get_bind fun a _ => ?_
  exact keeps_bind (keeps_emit hev _) fun _ => keeps_pure _

include hord in
theorem keeps_claimVenueId (i : Nat) (v : VenueOrderId) : Keeps P (claimVenueId i v) := by
  unfold claimVenueId
  refine keeps_get_bind fun a _ => ?_
  split
  · exact keeps_throw _
  · exact keeps_modify fun a ha => hord a _ ha

include hev hbal in
theorem keeps_settleSpot (sid : SecurityId) (side : Side) (price quantity : Decimal)
    (taker : Bool) : Keeps P (settleSpot sid side price quantity taker) := by
  unfold settleSpot
  refine keeps_bind (keeps_view sid) fun i => keeps_get_bind fun a _ => ?_
  refine keeps_bind (keeps_ofFault _) fun settled => keeps_bind (keeps_orThrow _ _) fun sb => ?_
  refine keeps_bind (keeps_modify fun a ha => hbal a _ ha) fun _ => ?_
  exact keeps_bind (keeps_emit hev _) fun _ => keeps_emit hev _

end Blind

end AccountM

namespace Account

variable {α : Type} {P : Account → Prop} {a a' : Account}

theorem keeps_answer {m : AccountM α} {wrap : α → Response} {resp : Response}
    (hm : AccountM.Keeps P m) (ha : P a) (h : a.answer m wrap = .ok (a', resp)) : P a' := by
  unfold answer at h
  cases hrun : m.run a with
  | error f => rw [hrun] at h; cases h
  | ok r =>
    obtain ⟨r, a₁⟩ := r
    rw [hrun] at h
    cases r <;> cases h <;> exact hm a _ a' ha hrun

open AccountM in
theorem keeps_handle_of (htime : ∀ a (t : Timestamp), P a → P { a with time := t })
    (hord : ∀ a (o : OrderBook), P a → P { a with orders := o })
    (hev : ∀ a (p : EventPayload), P a → P { a with events := a.events.record a.time p })
    (hspot : ∀ sid side price quantity taker, Keeps P (settleSpot sid side price quantity taker))
    (hmargined : ∀ sid side t price quantity rawFill taker,
      Keeps P (settleMargined sid side t price quantity rawFill taker))
    (hsync : ∀ x, Keeps P (sync x)) {c : Command} {resp : Response} (ha : P a)
    (h : a.handle c = .ok (a', resp)) : P a' := by
  cases c with
  | setTime t =>
    cases h
    exact htime a t ha
  | sync x => exact keeps_answer (hsync x) ha h
  | _ =>
    simp only [handle] at h
    refine keeps_answer ?_ ha h
    -- Every other command is built from reads, refusals, moves of records, events and
    -- settlements; walk its `do` block primitive by primitive, its join points inlined.
    (first
      | unfold newOrder | unfold confirmNewOrder | unfold rejectNewOrder | unfold cancelOrder
      | unfold confirmCancelOrder | unfold rejectCancelOrder | unfold replaceOrder
      | unfold confirmReplaceOrder | unfold rejectReplaceOrder | unfold pendingFilled
      | unfold confirmFill | unfold confirmExpiredOrder | unfold checkExpiration
      | unfold pruneClosed)
    try dsimp only
    repeat' (first
      | with_reducible intro _
      | with_reducible exact keeps_pure _
      | with_reducible exact keeps_throw _
      | with_reducible exact keeps_throw_bind _ _
      | with_reducible exact keeps_orThrow _ _
      | with_reducible exact keeps_ofFault _
      | with_reducible exact keeps_indexOf _
      | with_reducible exact keeps_recordAt _
      | with_reducible exact keeps_view _
      | with_reducible exact keeps_emit hev _
      | with_reducible exact keeps_transition hord hev _ _ _
      | with_reducible exact keeps_claimVenueId hord _ _
      | with_reducible exact keeps_settleFill_of hspot hmargined _ _ _ _ _ _ _
      | with_reducible exact keeps_mapM (fun _ => keeps_transition hord hev _ _ _) _
      | with_reducible exact keeps_modify fun a ha => hord a _ ha
      | with_reducible exact keeps_set (hord _ _ ‹_›)
      | with_reducible apply keeps_get_bind
      | with_reducible apply keeps_bind
      | with_reducible apply keeps_map
      | with_reducible apply keeps_ite
      | split)

open AccountM in
/-- A property blind to the order book, the balances and the clock, kept when an event is logged,
and kept by the settlement of margined fills and by snapshots, holds after every command. -/
theorem keeps_handle (htime : ∀ a (t : Timestamp), P a → P { a with time := t })
    (hord : ∀ a (o : OrderBook), P a → P { a with orders := o })
    (hev : ∀ a (p : EventPayload), P a → P { a with events := a.events.record a.time p })
    (hbal : ∀ a (b : Balances), P a → P { a with balances := b })
    (hmargined : ∀ sid side t price quantity rawFill taker,
      Keeps P (settleMargined sid side t price quantity rawFill taker))
    (hsync : ∀ x, Keeps P (sync x)) {c : Command} {resp : Response} (ha : P a)
    (h : a.handle c = .ok (a', resp)) : P a' :=
  keeps_handle_of htime hord hev (fun _ _ _ _ _ => keeps_settleSpot hev hbal _ _ _ _ _) hmargined
    hsync ha h

end Account

end TradeLedger
