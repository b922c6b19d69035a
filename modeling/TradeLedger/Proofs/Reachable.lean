import TradeLedger.Proofs.Commands

/-!
# Reachable accounts

An account is reachable when a run of commands from a fresh account ends in it. A run may be
restricted to the commands that a predicate `allowed` admits in the account they are handled
in; `Account.Reachable` admits every command. Invariants are proved by induction over runs,
one `Effect` at a time.

Three facts hold of every reachable account, whatever the commands and the snapshots
(`Account.WellFormed`): the free stack lists exactly the empty slots, every live record's
instrument is known, and a record waiting on a cancel or a replace falls back to a resting
status or to its own.
-/

namespace TradeLedger

theorem foldlM_ok_induction {α β ε : Type} {F : β → α → Except ε β} {P : β → Prop} :
    ∀ (xs : List α) (b b' : β), (∀ b x b', x ∈ xs → P b → F b x = .ok b' → P b') → P b →
      xs.foldlM F b = .ok b' → P b'
  | [], b, b', _, hb, h => by
    simp only [List.foldlM_nil] at h
    cases h
    exact hb
  | x :: xs, b, b', hstep, hb, h => by
    rw [List.foldlM_cons] at h
    cases hx : F b x with
    | error e => simp [hx, bind, Except.bind] at h
    | ok b₁ =>
      simp only [hx, bind, Except.bind] at h
      exact foldlM_ok_induction xs b₁ b' (fun b y b' hy => hstep b y b' (by simp [hy]))
        (hstep b x b₁ (by simp) hb hx) h

namespace Account

/-- The accounts that runs from a fresh account reach, each command being one that `allowed`
admits in the account it is handled in. -/
inductive ReachableUnder (allowed : Account → Command → Prop) : Account → Prop
  | create {id : AccountId} {config : Config} {a : Account} :
      Account.create id config = .ok a → ReachableUnder allowed a
  | step {a a' : Account} {c : Command} {resp : Response} : ReachableUnder allowed a →
      allowed a c → a.handle c = .ok (a', resp) → ReachableUnder allowed a'

/-- The accounts that any run from a fresh account reaches. -/
def Reachable (a : Account) : Prop := a.ReachableUnder fun _ _ => True

/-- The account that a session of commands leaves, whatever each command answers; `none` once
one of them faults. -/
def replay (a : Account) : List Command → Option Account
  | [] => some a
  | c :: cs =>
    match a.handle c with
    | .ok (a', _) => a'.replay cs
    | .error _ => none

/-- `allowed` admits each command of a session in the account that the session has reached
when the command is handled. -/
def Admits (allowed : Account → Command → Prop) : Account → List Command → Prop
  | _, [] => True
  | a, c :: cs => allowed a c ∧ ∀ a' resp, a.handle c = .ok (a', resp) → Admits allowed a' cs

theorem admits_of_forall {allowed : Account → Command → Prop} {cs : List Command}
    (hall : ∀ c ∈ cs, ∀ b, allowed b c) (a : Account) : Admits allowed a cs := by
  induction cs generalizing a with
  | nil => trivial
  | cons c cs ih =>
    exact ⟨hall c (by simp) a, fun a' _ _ => ih (fun c' hc' => hall c' (by simp [hc'])) a'⟩

theorem ReachableUnder.replay {allowed : Account → Command → Prop} {a a' : Account}
    {cs : List Command} (h : a.ReachableUnder allowed) (hadm : Admits allowed a cs)
    (hr : a.replay cs = some a') : a'.ReachableUnder allowed := by
  induction cs generalizing a with
  | nil =>
    cases hr
    exact h
  | cons c cs ih =>
    simp only [Account.replay] at hr
    split at hr
    · rename_i a₁ _ hc
      exact ih (.step h hadm.1 hc) (hadm.2 _ _ hc) hr
    · cases hr

/-- The account that a session of commands leaves on a fresh account. -/
def session (id : AccountId) (config : Config) (cs : List Command) : Option Account :=
  match Account.create id config with
  | .ok a => a.replay cs
  | .error _ => none

theorem ReachableUnder.of_session {allowed : Account → Command → Prop} {id : AccountId}
    {config : Config} {cs : List Command} {a : Account}
    (hadm : ∀ a₀, Account.create id config = .ok a₀ → Admits allowed a₀ cs)
    (h : Account.session id config cs = some a) : a.ReachableUnder allowed := by
  unfold Account.session at h
  split at h
  · exact ReachableUnder.replay (.create ‹_›) (hadm _ ‹_›) h
  · cases h

theorem Reachable.of_session {id : AccountId} {config : Config} {cs : List Command}
    {a : Account} (h : Account.session id config cs = some a) : a.Reachable :=
  ReachableUnder.of_session (fun a₀ _ => admits_of_forall (fun _ _ _ => trivial) a₀) h

theorem create_orders {id : AccountId} {config : Config} {a : Account}
    (h : Account.create id config = .ok a) : a.orders = .empty ∧ a.instruments = .empty := by
  unfold Account.create at h
  split at h
  · cases h
  · split at h
    · cases h
    · cases h
      exact ⟨rfl, rfl⟩

/-- A book rebuilt from a snapshot has every property that the empty book has and that storing
a reported order keeps, once the order passed the rebuild's checks. -/
theorem rebuildOrders_induction {views : KeyMap SecurityId Instrument} {os : List Order}
    {b' : OrderBook} (Q : OrderBook → Prop) (h0 : Q .empty)
    (hstep : ∀ b o ins q l c, o ∈ os → Q b → b.containsClient o.clientOrderId = false →
      (∀ v, o.venueOrderId = some v → b.venueOwner v none = none) →
      views.get? o.securityId = some ins → ins.lot.toRaw? o.quantity = some q →
      ins.lot.toRaw? o.leavesQuantity = some l → ins.lot.toRaw? o.cumQuantity = some c →
      Q (b.insert ((OrderRecord.create o q l c).refresh ins.lot)).2)
    (h : rebuildOrders views os = .ok b') : Q b' := by
  unfold rebuildOrders at h
  refine foldlM_ok_induction os _ _ (fun b o b' hmem hb hF => ?_) h0 h
  have hthrow : ∀ {γ : Type} (e : LedgerError), (throw e : Except LedgerError γ) = .error e :=
    fun _ => rfl
  cases hc : b.containsClient o.clientOrderId with
  | true => simp [hc, hthrow, bind, Except.bind] at hF
  | false =>
  have hown : ∀ v, o.venueOrderId = some v → b.venueOwner v none = none := by
    intro v hv
    cases hw : b.venueOwner v none with
    | none => rfl
    | some w => simp [hc, hv, hw, hthrow, bind, Except.bind] at hF
  obtain ⟨ins, hins⟩ : ∃ ins, views.get? o.securityId = some ins := by
    cases hins : views.get? o.securityId with
    | some ins => exact ⟨ins, rfl⟩
    | none => cases hv : o.venueOrderId <;> simp [hc, hv, hown, hins, hthrow, bind, Except.bind] at hF
  obtain ⟨q, hq⟩ : ∃ q, ins.lot.toRaw? o.quantity = some q := by
    cases hq : ins.lot.toRaw? o.quantity with
    | some q => exact ⟨q, rfl⟩
    | none =>
      cases hv : o.venueOrderId <;>
        simp [hc, hv, hown, hins, hq, hthrow, bind, Except.bind, pure, Except.pure] at hF
  obtain ⟨l, hl⟩ : ∃ l, ins.lot.toRaw? o.leavesQuantity = some l := by
    cases hl : ins.lot.toRaw? o.leavesQuantity with
    | some l => exact ⟨l, rfl⟩
    | none =>
      cases hv : o.venueOrderId <;>
        simp [hc, hv, hown, hins, hq, hl, hthrow, bind, Except.bind, pure, Except.pure] at hF
  obtain ⟨c, hcum⟩ : ∃ c, ins.lot.toRaw? o.cumQuantity = some c := by
    cases hcum : ins.lot.toRaw? o.cumQuantity with
    | some c => exact ⟨c, rfl⟩
    | none =>
      cases hv : o.venueOrderId <;>
        simp [hc, hv, hown, hins, hq, hl, hcum, hthrow, bind, Except.bind, pure, Except.pure] at hF
  have hb' : (b.insert ((OrderRecord.create o q l c).refresh ins.lot)).2 = b' := by
    cases hv : o.venueOrderId <;>
      simpa [hc, hv, hown, hins, hq, hl, hcum, bind, Except.bind, pure, Except.pure] using hF
  exact hb' ▸ hstep b o ins q l c hmem hb hc hown hins hq hl hcum

/-- A rebuilt book keeps its free stack right, and each of its records is a reported order of
a known instrument, with its quantities on that instrument's lot grid. -/
theorem rebuildOrders_records {views : KeyMap SecurityId Instrument} {os : List Order}
    {b : OrderBook} (h : rebuildOrders views os = .ok b) :
    b.FreeSlots ∧ ∀ i r, b.get? i = some r → ∃ o ∈ os, ∃ ins q l c,
      views.get? o.securityId = some ins ∧ ins.lot.toRaw? o.quantity = some q ∧
      ins.lot.toRaw? o.leavesQuantity = some l ∧ ins.lot.toRaw? o.cumQuantity = some c ∧
      r = (OrderRecord.create o q l c).refresh ins.lot := by
  refine rebuildOrders_induction (fun b => b.FreeSlots ∧ ∀ i r, b.get? i = some r → ∃ o ∈ os,
      ∃ ins q l c, views.get? o.securityId = some ins ∧ ins.lot.toRaw? o.quantity = some q ∧
        ins.lot.toRaw? o.leavesQuantity = some l ∧ ins.lot.toRaw? o.cumQuantity = some c ∧
        r = (OrderRecord.create o q l c).refresh ins.lot)
    ⟨OrderBook.FreeSlots.empty, fun i r hr => by simp at hr⟩ ?_ h
  rintro b o ins q l c hmem ⟨hfree, hrecs⟩ - - hins hq hl hc
  refine ⟨hfree.insert _, fun j s hs => ?_⟩
  rw [hfree.get?_insert, Function.update_apply] at hs
  split at hs
  · cases hs
    exact ⟨o, hmem, ins, q, l, c, hins, hq, hl, hc, rfl⟩
  · exact hrecs j s hs

/-- Every live record satisfies `P` under the account's instruments. -/
def EveryRecord (P : KeyMap SecurityId Instrument → OrderRecord → Prop) (a : Account) : Prop :=
  ∀ i r, a.orders.get? i = some r → P a.instruments r

end Account

/-- A property of records that every guarded move and every new venue id keep. -/
structure RecordInvariant (P : KeyMap SecurityId Instrument → OrderRecord → Prop) : Prop where
  move : ∀ ins r f inst, ins.get? r.order.securityId = some inst → RecordMove f r → P ins r →
    P ins ((f r).refresh inst.lot)
  claim : ∀ ins r v, P ins r → P ins { r with order := { r.order with venueOrderId := some v } }

theorem MoveRun.preserves {ins : KeyMap SecurityId Instrument} (Q : OrderBook → Prop)
    (hQ : ∀ b i r f inst, Q b → b.get? i = some r → ins.get? r.order.securityId = some inst →
      RecordMove f r → Q (b.modify i fun r => (f r).refresh inst.lot))
    {slots : List Nat} {b b' : OrderBook} (h : MoveRun ins slots b b') (hb : Q b) : Q b' := by
  induction h with
  | nil => exact hb
  | cons hr hinst hf _ ih => exact ih (hQ _ _ _ _ _ hb hr hinst hf)

section Invariants

variable {P : KeyMap SecurityId Instrument → OrderRecord → Prop} {a a' : Account} {c : Command}

theorem RecordInvariant.moves (hP : RecordInvariant P) {ins : KeyMap SecurityId Instrument}
    {slots : List Nat} {b b' : OrderBook} (h : MoveRun ins slots b b')
    (hb : ∀ j s, b.get? j = some s → P ins s) : ∀ j s, b'.get? j = some s → P ins s := by
  refine MoveRun.preserves (fun b => ∀ j s, b.get? j = some s → P ins s)
    (fun b i r f inst hb hr hinst hf j s hs => ?_) h hb
  rw [OrderBook.get?_modify] at hs
  split at hs
  · subst j
    simp only [hr, Option.map_some, Option.some.injEq] at hs
    exact hs ▸ hP.move ins r f inst hinst hf (hb i r hr)
  · exact hb j s hs

/-- A record property that moves and venue ids keep holds after every effect, given that it
holds of a record after the fill that the command makes, of a newly placed order and of every
record rebuilt from a snapshot. -/
theorem RecordInvariant.effect (hP : RecordInvariant P) (hfree : a.orders.FreeSlots)
    (h : a.EveryRecord P) (he : Effect a c a')
    (hfill : ∀ ref t price quantity taker i r ins n cum,
      c = .confirmFill ref t price quantity taker → a.orders.lookup ref = some i →
      a.orders.get? i = some r → a.instrument? r.order.securityId = some ins → 0 < n.toInt →
      n.toInt ≤ r.rawLeaves.toInt → Word.add? r.rawCum n = some cum →
      P a.instruments ((r.fill t (Int64.ofInt (r.rawLeaves.toInt - n.toInt)) cum).refresh ins.lot))
    (hplace : ∀ o ins raw p, c = .newOrder o → o.status = .pendingNew →
      a.instrument? o.securityId = some ins → ins.lot.toRaw? o.leavesQuantity = some raw →
      P a.instruments ((OrderRecord.create { o with price := p } raw raw 0).refresh ins.lot))
    (hsync : ∀ x views orders, c = .sync x → a.rebuildInstruments x = .ok views →
      Account.rebuildOrders views x.orders = .ok orders → ∀ i r, orders.get? i = some r → P views r) :
    a'.EveryRecord P := by
  cases he with
  | moves hi _ hrun =>
    intro j s hs
    rw [hi]
    exact hP.moves hrun h j s hs
  | claim hi hr _ _ hrun =>
    intro j s hs
    rw [hi]
    refine hP.moves hrun (fun k t ht => ?_) j s hs
    rw [OrderBook.get?_assignVenueId] at ht
    split at ht
    · subst k
      simp only [hr, Option.map_some, Option.some.injEq] at ht
      exact ht ▸ hP.claim _ _ _ (h _ _ hr)
    · exact h k t ht
  | fill hi hl hr hins hpos hle hcum ho =>
    intro j s hj
    rw [hi]
    rw [ho, OrderBook.get?_modify] at hj
    split at hj
    · subst j
      simp only [hr, Option.map_some, Option.some.injEq] at hj
      exact hj ▸ hfill _ _ _ _ _ _ _ _ _ _ rfl hl hr hins hpos hle hcum
    · exact h j s hj
  | place hi _ hs hins hraw ho =>
    intro j s hj
    rw [hi]
    rw [ho, hfree.get?_insert, Function.update_apply] at hj
    split at hj
    · cases hj
      exact hplace _ _ _ _ rfl hs hins hraw
    · exact h j s hj
  | reject hi _ _ _ ho =>
    intro j s hj
    rw [hi]
    rw [ho, OrderBook.get?_discard_eq, Function.update_apply] at hj
    split at hj
    · cases hj
    · rw [OrderBook.get?_modify, if_neg ‹_›] at hj
      exact h j s hj
  | prune hi ho =>
    intro j s hj
    rw [hi]
    rw [ho, OrderBook.get?_foldl_discard] at hj
    split at hj
    · cases hj
    · exact h j s hj
  | sync hv hb hi ho =>
    intro j s hj
    rw [hi]
    rw [ho] at hj
    exact hsync _ _ _ rfl hv hb j s hj

theorem Effect.freeSlots (he : Effect a c a') (h : a.orders.FreeSlots) : a'.orders.FreeSlots := by
  cases he with
  | moves _ _ hrun =>
    exact MoveRun.preserves _ (fun b i _ f _ hb _ _ _ => hb.modify i _) hrun h
  | claim _ _ _ _ hrun =>
    exact MoveRun.preserves _ (fun b i _ f _ hb _ _ _ => hb.modify i _) hrun (h.assignVenueId _ _)
  | fill _ _ _ _ _ _ _ ho => exact ho ▸ h.modify _ _
  | place _ _ _ _ _ ho => exact ho ▸ h.insert _
  | reject _ _ _ _ ho => exact ho ▸ (h.modify _ _).discard _
  | prune _ ho => exact ho ▸ h.foldl_discard _
  | sync _ hb _ ho => exact ho ▸ (Account.rebuildOrders_records hb).1

end Invariants

/-! ## Well-formed accounts -/

namespace OrderRecord

/-- A record waiting on a cancel or a replace falls back, when the venue refuses, to a resting
status or to the status it waits in. -/
def FallbackSound (r : OrderRecord) : Prop :=
  r.status = .pendingCancel ∨ r.status = .pendingReplace →
    r.previousStatus = .new ∨ r.previousStatus = .partiallyFilled ∨ r.previousStatus = r.status

theorem fallbackSound_create (o : Order) (q l c : Int64) : (create o q l c).FallbackSound :=
  fun _ => .inr (.inr rfl)

end OrderRecord

theorem AccountM.refusalOf_eq_none {s : OrderStatus} :
    AccountM.refusalOf s = none ↔ s = .new ∨ s = .partiallyFilled := by
  cases s <;> simp [AccountM.refusalOf]

theorem fallbackSound_invariant : RecordInvariant fun _ r => r.FallbackSound where
  move := by
    intro _ r f _ _ hf hr
    cases hf with
    | requestCancel hs =>
      intro _
      have hrest := AccountM.refusalOf_eq_none.mp hs
      simp only [OrderRecord.refresh, OrderRecord.beginPending, OrderRecord.status] at hrest ⊢
      tauto
    | requestAmend hs _ =>
      intro _
      have hrest := AccountM.refusalOf_eq_none.mp hs
      simp only [OrderRecord.refresh, OrderRecord.requestAmend, OrderRecord.beginPending,
        OrderRecord.status] at hrest ⊢
      tauto
    | restore _ =>
      intro _
      simp [OrderRecord.refresh, OrderRecord.restorePrevious, OrderRecord.status]
    | amend =>
      simp only [OrderRecord.FallbackSound, OrderRecord.refresh, OrderRecord.amend]
      split <;> split <;> simp [OrderRecord.status]
    | _ => simp [OrderRecord.FallbackSound, OrderRecord.refresh, OrderRecord.acknowledge,
        OrderRecord.reject, OrderRecord.cancel, OrderRecord.expire, OrderRecord.status]
  claim := fun _ _ _ hr => hr

theorem OrderRecord.fallbackSound_fill (r : OrderRecord) (t : TradeId) (leaves cum : Int64)
    (lot : Precision) : ((r.fill t leaves cum).refresh lot).FallbackSound := by
  simp only [OrderRecord.FallbackSound, OrderRecord.refresh, OrderRecord.fill,
    OrderRecord.noteTrade, OrderRecord.status]
  split_ifs <;> simp_all

theorem instrumentKnown_invariant :
    RecordInvariant fun ins r => ∃ inst, ins.get? r.order.securityId = some inst where
  move := fun _ r _ _ _ hf hr => by rw [(hf.keys _).2.2]; exact hr
  claim := fun _ _ _ hr => hr

namespace Account

/-- What every reachable account satisfies, whatever the commands and the snapshots. -/
structure WellFormed (a : Account) : Prop where
  free : a.orders.FreeSlots
  known : a.InstrumentsKnown
  fallback : a.EveryRecord fun _ r => r.FallbackSound

variable {a a' : Account} {c : Command}

theorem WellFormed.of_create {id : AccountId} {config : Config}
    (h : Account.create id config = .ok a) : a.WellFormed := by
  obtain ⟨ho, -⟩ := create_orders h
  refine ⟨ho ▸ OrderBook.FreeSlots.empty, fun i r hr => ?_, fun i r hr => ?_⟩ <;>
    simp [ho] at hr

theorem WellFormed.effect (h : a.WellFormed) (he : Effect a c a') : a'.WellFormed where
  free := he.freeSlots h.free
  known := instrumentKnown_invariant.effect h.free h.known he
    (fun _ _ _ _ _ _ r _ _ _ _ _ _ hins _ _ _ => by
      rw [(r.fill_keys _ _ _ _).2.2]
      exact ⟨_, hins⟩)
    (fun _ _ _ _ _ _ hins _ => ⟨_, hins⟩)
    (fun _ _ _ _ _ hb i r hr => by
      obtain ⟨_, _, ins, _, _, _, hins, _, _, _, rfl⟩ := (rebuildOrders_records hb).2 i r hr
      exact ⟨ins, hins⟩)
  fallback := fallbackSound_invariant.effect h.free h.fallback he
    (fun _ _ _ _ _ _ r _ _ _ _ _ _ _ _ _ _ => r.fallbackSound_fill _ _ _ _)
    (fun _ _ _ _ _ _ _ _ => OrderRecord.fallbackSound_create _ _ _ _)
    (fun _ _ _ _ _ hb i r hr => by
      obtain ⟨_, _, _, _, _, _, _, _, _, _, rfl⟩ := (rebuildOrders_records hb).2 i r hr
      exact OrderRecord.fallbackSound_create _ _ _ _)

theorem ReachableUnder.wellFormed {allowed : Account → Command → Prop}
    (h : a.ReachableUnder allowed) : a.WellFormed := by
  induction h with
  | create hc => exact .of_create hc
  | step _ _ hstep ih => exact ih.effect (handle_handled ih.known hstep).effect

end Account

/-! ## Sample sessions

A few commands on the BTC perpetual, for sessions from a fresh account with the default
settings that the concrete statements of later modules start from. -/

namespace Sample

/-- A session from a fresh account with the default settings. -/
def session (cs : List Command) : Option Account :=
  Account.session ⟨"binance", "main"⟩ Config.default cs

def listBtcPerp : Command := .sync ⟨[Security.btcusdPerp], [], [], [], none, none⟩

def buyTen : Order :=
  Order.limit "a" 1 .buy (Decimal.ofParts false 10 0) (Decimal.ofParts false 100 0) .gtc 0

def fillA (lots : Nat) : Command :=
  .confirmFill (.client "a") "t" (Decimal.ofParts false 100 0) (Decimal.ofParts false lots 0) false

end Sample

end TradeLedger
