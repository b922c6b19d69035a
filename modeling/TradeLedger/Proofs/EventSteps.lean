import TradeLedger.Proofs.EventReplay
import TradeLedger.Proofs.Coherence
import TradeLedger.Proofs.BookConsistency

/-!
# Every command logs what it does

`AccountM.Traces m`: every run of `m` that does not fault, from an account that a view shows,
leaves an account that the view shows once it has read the events the run logged, after an
answer or a refusal alike. The property is built up along the monad's operations, as
`AccountM.Keeps` is; the steps that write the account and log its change together are proved
whole: a status change (`transition`), a new order, a spot and a margined settlement.

It needs two facts of the account it starts from (`Account.Traceable`). A status change names
the order by its client id, so each client id must belong to one live order; and a spot fill
logs each leg's balance after both legs are credited, so the two legs must be different assets.
-/

namespace TradeLedger

namespace OrderBook

variable {b : OrderBook} {i j : Nat} {r s : OrderRecord}

theorem ClientConsistent.clientOrderId_ne (h : b.ClientConsistent) {c : ClientOrderId}
    (hc : b.containsClient c = false) (hj : b.get? j = some s) : s.order.clientOrderId ≠ c := by
  rintro rfl
  have hk := (h.client s.order.clientOrderId j).mpr (by simp [hj, clientKey])
  simp [containsClient, KeyMap.contains, hk] at hc

theorem ClientConsistent.foldl_discard (h : b.ClientConsistent) (slots : List Nat) :
    (slots.foldl OrderBook.discard b).ClientConsistent := by
  induction slots generalizing b with
  | nil => exact h
  | cons i rest ih => exact ih (h.discard i)

end OrderBook

namespace OrderRecord

@[simp] theorem amend_clientOrderId (am : Amendment) (leaves? : Option Int64) (r : OrderRecord) :
    (r.amend am leaves?).order.clientOrderId = r.order.clientOrderId := by
  unfold amend
  split <;> split <;> rfl

@[simp] theorem fill_clientOrderId (t : TradeId) (leaves cum : Int64) (r : OrderRecord) :
    (r.fill t leaves cum).order.clientOrderId = r.order.clientOrderId := by
  simp only [fill, noteTrade]
  split_ifs <;> rfl

end OrderRecord

namespace Balances

@[simp] theorem get_set (b : Balances) (asset : String) (q : Decimal) (x : String) :
    (b.set asset q).get x = if x = asset then q else b.get x := by
  unfold get set
  rw [KeyMap.get?_insert]
  split <;> rfl

/-- A spot settlement credits its base leg, then its quote leg to the balances the first credit
left. -/
theorem settleSpot_credits {b b' : Balances} {side : Side} {base quote : String}
    {price quantity rate : Decimal} {s : SpotSettlement}
    (h : b.settleSpot side base quote price quantity rate = .ok (some (s, b'))) :
    ∃ x y, (b.get base).add? s.baseDelta = some x ∧
      ((b.set base x).get quote).add? s.quoteDelta = some y ∧ b' = (b.set base x).set quote y := by
  unfold settleSpot at h
  split at h
  · simp at h
  split at h
  · simp at h
  split at h
  split at h
  · simp at h
  rename_i bd _ _ _ qd _
  cases hx : (b.get base).add? bd with
  | none => simp [credit, hx, bind, Except.bind] at h
  | some x =>
    cases hy : ((b.set base x).get quote).add? qd with
    | none => simp only [credit, hx, hy, bind, Except.bind, reduceCtorEq] at h
    | some y =>
      simp only [credit, hx, hy, bind, Except.bind, pure, Except.pure, Except.ok.injEq,
        Option.some.injEq, Prod.mk.injEq] at h
      obtain ⟨rfl, rfl⟩ := h
      exact ⟨x, y, hx, hy, rfl⟩

end Balances

theorem Word.toInt_of_add?_sub? {x y z w : Int64} (h : (Word.add? x y >>= (Word.sub? · z)) = some w) :
    w.toInt = x.toInt + y.toInt - z.toInt := by
  cases hxy : Word.add? x y with
  | none => simp [hxy] at h
  | some u =>
    rw [hxy, Option.bind_eq_bind, Option.bind_some] at h
    rw [Word.toInt_of_ofInt? h, Word.toInt_of_ofInt? hxy]

open Checked in
theorem applyFill_sizes (p : Position) (side : Side) (rawFill : Int64) (price : Decimal)
    (t : ContractTerms) :
    Returns (fun r => r.2.oldRawSize = p.rawSize ∧ r.2.newRawSize = r.1.rawSize)
      (applyFill p side rawFill price t) := by
  unfold applyFill
  simp only [pure_bind]
  repeat' (first
    | exact returns_pure ⟨Int64.ofInt_toInt _, rfl⟩
    | refine returns_bind (returns_any _) fun _ _ => ?_
    | split)

namespace Account

variable {a a' a₁ : Account} {v w : LedgerView}

/-- Every spot instrument settles its two legs in two different assets. -/
def SpotLegsApart (a : Account) : Prop :=
  ∀ ins ∈ a.instruments.values, ins.isMargined = false →
    ins.security.underlying ≠ ins.security.quoteCurrency

instance (a : Account) : Decidable a.SpotLegsApart :=
  inferInstanceAs (Decidable (∀ ins ∈ a.instruments.values, ins.isMargined = false →
    ins.security.underlying ≠ ins.security.quoteCurrency))

theorem SpotLegsApart.of_instrument (h : a.SpotLegsApart) {sid : SecurityId} {ins : Instrument}
    (hi : a.instrument? sid = some ins) (hm : ins.isMargined = false) :
    ins.security.underlying ≠ ins.security.quoteCurrency :=
  h ins (List.mem_map.mpr ⟨_, KeyMap.mem_of_get? hi, rfl⟩) hm

/-- An account whose log can be followed: each client id belongs to one live order, and no spot
instrument settles both legs in one asset. -/
structure Traceable (a : Account) : Prop where
  book : a.orders.ClientConsistent
  legs : a.SpotLegsApart

/-- From `a`, which the view `v` shows, the log records events whose replay from `v` shows
`a'`. -/
def Replays (a : Account) (v : LedgerView) (a' : Account) : Prop :=
  ∃ ps w, EventLog.Logged a.events ps a'.events ∧ v.replay ps = some w ∧ a'.Shows w

theorem Shows.of_eq (h : a.Shows v) (hm : a'.margin = a.margin) (hp : a'.positions = a.positions)
    (hb : a'.balances = a.balances) (ho : a'.orders = a.orders) : a'.Shows v :=
  ⟨hm ▸ h.margin, hp ▸ h.positions, hb ▸ h.balances, ho ▸ h.statuses⟩

theorem Traceable.of_eq (h : a.Traceable) (hi : a'.instruments = a.instruments)
    (ho : a'.orders = a.orders) : a'.Traceable :=
  ⟨ho ▸ h.book, fun ins hins => h.legs ins (hi ▸ hins)⟩

theorem Replays.quiet (he : a'.events = a.events) (hs : a'.Shows v) : a.Replays v a' :=
  ⟨[], v, he ▸ .nil, rfl, hs⟩

theorem Replays.single {t : Timestamp} {p : EventPayload}
    (he : a'.events = a.events.record t p) (hf : v.follow p = some w) (hs : a'.Shows w) :
    a.Replays v a' :=
  ⟨[p], w, he ▸ .single t p, by rw [LedgerView.replay_single, hf], hs⟩

theorem Replays.pair {t t' : Timestamp} {p q : EventPayload} {u : LedgerView}
    (he : a'.events = (a.events.record t p).record t' q) (hf : v.follow p = some u)
    (hg : u.follow q = some w) (hs : a'.Shows w) : a.Replays v a' :=
  ⟨[p, q], w, he ▸ .record t' q (.single t p), by simp [LedgerView.replay_cons, hf, hg], hs⟩

theorem Replays.trans (h₁ : a.Replays v a₁) (h₂ : ∀ w, a₁.Shows w → a₁.Replays w a') :
    a.Replays v a' := by
  obtain ⟨ps, w, hlog, hw, hs⟩ := h₁
  obtain ⟨qs, u, hlog', hu, hs'⟩ := h₂ w hs
  exact ⟨ps ++ qs, u, hlog.trans hlog', by rw [LedgerView.replay_append, hw, Option.bind_some, hu],
    hs'⟩

/-- From `a` to `a'` along the log: whenever `a` is traceable and a view shows it, `a'` is
traceable and the view shows it once it has read the events logged in between. -/
def TracedTo (a a' : Account) : Prop :=
  ∀ v, a.Traceable → a.Shows v → a'.Traceable ∧ a.Replays v a'

theorem TracedTo.refl (a : Account) : a.TracedTo a := fun _ ha hv => ⟨ha, .quiet rfl hv⟩

theorem TracedTo.trans (h₁ : a.TracedTo a₁) (h₂ : a₁.TracedTo a') : a.TracedTo a' := by
  intro v ha hv
  obtain ⟨ha₁, hrep⟩ := h₁ v ha hv
  refine ⟨?_, hrep.trans fun w hw => (h₂ w ha₁ hw).2⟩
  obtain ⟨_, w, _, _, hw⟩ := hrep
  exact (h₂ w ha₁ hw).1

/-! ## The steps that write and log together -/

theorem replays_moved {i : Nat} {lot : Precision} {e : ExecutionType}
    {change : OrderRecord → OrderRecord} {r : OrderRecord} (ha : a.Traceable) (hv : a.Shows v)
    (hr : a.orders.get? i = some r) (hc : (change r).order.clientOrderId = r.order.clientOrderId) :
    a.Replays v (a.moved i lot e change r) := by
  have hc' : ((change r).refresh lot).order.clientOrderId = r.order.clientOrderId := hc
  refine .single (w := v.withStatus r.order.clientOrderId (change r).status) rfl
    (by simp [LedgerView.follow, hc', hv.statuses i r hr])
    ⟨hv.margin, hv.positions, hv.balances, fun j s hs => ?_⟩
  rw [moved_orders, OrderBook.get?_modify] at hs
  split at hs
  · subst j
    rw [hr] at hs
    cases hs
    simp [LedgerView.withStatus, hc']
  · have hne : s.order.clientOrderId ≠ r.order.clientOrderId := fun he =>
      ‹¬j = i› (ha.book.eq_of_clientOrderId hs hr he)
    simp only [LedgerView.withStatus, Function.update_of_ne hne]
    exact hv.statuses j s hs

theorem replays_claimed {i : Nat} {vid : VenueOrderId} (hv : a.Shows v) :
    a.Replays v (a.claimed i vid) := by
  refine .quiet rfl ⟨hv.margin, hv.positions, hv.balances, fun j s hs => ?_⟩
  rw [claimed_orders, OrderBook.get?_assignVenueId] at hs
  split at hs
  · subst j
    cases hr : a.orders.get? i with
    | none => simp [hr] at hs
    | some r =>
      simp only [hr, Option.map_some, Option.some.injEq] at hs
      subst hs
      exact hv.statuses i r hr
  · exact hv.statuses j s hs

def placed (a : Account) (r : OrderRecord) (p : EventPayload) : Account :=
  { a with orders := (a.orders.insert r).2, events := a.events.record a.time p }

@[simp] theorem placed_orders (a : Account) (r : OrderRecord) (p : EventPayload) :
    (a.placed r p).orders = (a.orders.insert r).2 := rfl

theorem replays_placed {r : OrderRecord} {p : EventPayload} (ha : a.Traceable) (hv : a.Shows v)
    (hc : a.orders.containsClient r.order.clientOrderId = false) (hs : r.status = .pendingNew)
    (hp : v.follow p = some (v.withStatus r.order.clientOrderId .pendingNew)) :
    a.Replays v (a.placed r p) := by
  refine .single rfl hp ⟨hv.margin, hv.positions, hv.balances, fun j s hj => ?_⟩
  rw [placed_orders, ha.book.free.get?_insert, Function.update_apply] at hj
  split at hj
  · cases hj
    simp [LedgerView.withStatus, hs]
  · have hne := ha.book.clientOrderId_ne hc hj
    simp only [LedgerView.withStatus, Function.update_of_ne hne]
    exact hv.statuses j s hj

theorem shows_of_get? {o : OrderBook} (hv : a.Shows v)
    (ho : ∀ j s, o.get? j = some s → a.orders.get? j = some s) : { a with orders := o }.Shows v :=
  ⟨hv.margin, hv.positions, hv.balances, fun j s hs => hv.statuses j s (ho j s hs)⟩

end Account

namespace AccountM

variable {α β : Type} {a a' : Account} {v : LedgerView}

open Account

/-- Every run of `m` that does not fault, from a traceable account that `v` shows, leaves a
traceable account, which the view shows once it has read the events the run logged. -/
def Traces (m : AccountM α) : Prop :=
  ∀ a x a' v, a.Traceable → a.Shows v → m.run a = .ok (x, a') → a'.Traceable ∧ a.Replays v a'

theorem traces_iff_relates {m : AccountM α} : Traces m ↔ Relates TracedTo m :=
  ⟨fun h a x a' hrun v ha hv => h a x a' v ha hv hrun,
    fun h a x a' v ha hv hrun => h a x a' hrun v ha hv⟩

/-! ## The monad -/

theorem traces_pure (x : α) : Traces (pure x) :=
  traces_iff_relates.2 (relates_pure TracedTo.refl x)

theorem traces_throw (e : LedgerError) : Traces (throw e : AccountM α) :=
  traces_iff_relates.2 (relates_throw TracedTo.refl e)

theorem traces_bind {m : AccountM α} {f : α → AccountM β} (hm : Traces m)
    (hf : ∀ x, Traces (f x)) : Traces (m >>= f) :=
  traces_iff_relates.2 (relates_bind (R := TracedTo) (fun _ _ _ => TracedTo.trans) (traces_iff_relates.1 hm)
    fun x => traces_iff_relates.1 (hf x))

theorem traces_throw_bind (e : LedgerError) (f : α → AccountM β) : Traces (throw e >>= f) :=
  traces_iff_relates.2 (relates_throw_bind TracedTo.refl e f)

theorem traces_ite {c : Prop} [Decidable c] {x y : AccountM α} (hx : Traces x) (hy : Traces y) :
    Traces (if c then x else y) := by
  split
  · exact hx
  · exact hy

theorem traces_map {m : AccountM α} (f : α → β) (hm : Traces m) : Traces (f <$> m) :=
  traces_iff_relates.2 (relates_map (R := TracedTo) TracedTo.refl (fun _ _ _ => TracedTo.trans) f
    (traces_iff_relates.1 hm))

theorem traces_get_bind {f : Account → AccountM β} (hf : ∀ a, Traces (f a)) :
    Traces (get >>= f) :=
  traces_iff_relates.2 (relates_get_bind fun a => traces_iff_relates.1 (hf a))

theorem traces_mapM {f : α → AccountM β} (hf : ∀ x, Traces (f x)) (xs : List α) :
    Traces (xs.mapM f) :=
  traces_iff_relates.2 (relates_mapM (R := TracedTo) TracedTo.refl (fun _ _ _ => TracedTo.trans)
    (fun x => traces_iff_relates.1 (hf x)) xs)

theorem traces_orThrow (e : LedgerError) (o : Option α) : Traces (orThrow e o) :=
  traces_iff_relates.2 (relates_orThrow TracedTo.refl e o)

theorem traces_ofFault (x : Except Fault α) : Traces (ofFault x) :=
  traces_iff_relates.2 (relates_ofFault TracedTo.refl x)

theorem traces_view (sid : SecurityId) : Traces (view sid) :=
  traces_iff_relates.2 (relates_view TracedTo.refl sid)

theorem traces_indexOf (ref : OrderRef) : Traces (indexOf ref) :=
  traces_iff_relates.2 (relates_indexOf TracedTo.refl ref)

theorem traces_recordAt (i : Nat) : Traces (recordAt i) :=
  traces_iff_relates.2 (relates_recordAt TracedTo.refl i)

/-! ## Steps that move records -/

theorem traces_transition (i : Nat) (e : ExecutionType) {change : OrderRecord → OrderRecord}
    (hc : ∀ r, (change r).order.clientOrderId = r.order.clientOrderId) :
    Traces (transition i e change) := by
  intro a x a' v ha hv h
  rw [run_transition] at h
  cases hr : a.orders.get? i with
  | none =>
    simp only [hr] at h
    cases h
    exact ⟨ha, .quiet rfl hv⟩
  | some r =>
    cases hins : a.instrument? r.order.securityId with
    | none =>
      simp only [hr, hins] at h
      cases h
      exact ⟨ha, .quiet rfl hv⟩
    | some ins =>
      simp only [hr, hins] at h
      cases h
      exact ⟨⟨ha.book.modify hr (hc r), ha.legs⟩, replays_moved ha hv hr (hc r)⟩

theorem traces_claimVenueId (i : Nat) (vid : VenueOrderId) : Traces (claimVenueId i vid) := by
  intro a x a' v ha hv h
  rw [run_claimVenueId] at h
  split at h
  · cases h
    exact ⟨ha, .quiet rfl hv⟩
  · cases h
    exact ⟨⟨ha.book.assignVenueId i vid, ha.legs⟩, replays_claimed hv⟩

theorem traces_discard (i : Nat) :
    Traces (modify fun a => { a with orders := a.orders.discard i } : AccountM PUnit) := by
  intro a x a' v ha hv h
  rw [run_modify] at h
  cases h
  refine ⟨⟨ha.book.discard i, ha.legs⟩, .quiet rfl (shows_of_get? hv fun j s hs => ?_)⟩
  rw [OrderBook.get?_discard_eq, Function.update_apply] at hs
  split at hs
  · cases hs
  · exact hs

theorem traces_emit_fill (c : ClientOrderId) (sid : SecurityId) (t : TradeId) (side : Side)
    (price quantity : Decimal) (taker : Bool) :
    Traces (emit (.fill c sid t side price quantity taker)) := by
  intro a x a' v ha hv h
  rw [run_emit] at h
  cases h
  exact ⟨ha.of_eq rfl rfl, .single (w := v) rfl rfl (hv.of_eq rfl rfl rfl rfl)⟩

/-! ## Settlements -/

/-- A spot fill logs each leg's new balance; with two different assets, each is the balance
before plus the leg's delta. -/
theorem settleSpot_traces {sid : SecurityId} {side : Side} {price quantity : Decimal}
    {taker : Bool} {x : Except LedgerError PUnit} (ha : a.Traceable) (hv : a.Shows v)
    (hspot : ∀ ins, a.instrument? sid = some ins → ins.isMargined = false)
    (h : (settleSpot sid side price quantity taker).run a = .ok (x, a')) :
    a'.Traceable ∧ a.Replays v a' := by
  rcases settleSpot_cases h with ⟨-, -, rfl⟩ | ⟨ins, s, b', hins, hsettled, -, rfl⟩
  · exact ⟨ha, .quiet rfl hv⟩
  have hne := ha.legs.of_instrument hins (hspot ins hins)
  obtain ⟨y, z, hy, hz, rfl⟩ := Balances.settleSpot_credits hsettled
  set base := ins.security.underlying
  set quote := ins.security.quoteCurrency
  have hbase : ((a.balances.set base y).set quote z).get base = y := by simp [hne]
  have hquote : ((a.balances.set base y).set quote z).get quote = z := by simp
  have hqv : (v.withBalance base y).balances quote = (a.balances.set base y).get quote := by
    simp [LedgerView.withBalance, hv.balances, Ne.symm hne]
  refine ⟨ha.of_eq rfl rfl, .pair (u := v.withBalance base y)
    (w := (v.withBalance base y).withBalance quote z) rfl ?_ ?_ ?_⟩
  · simp [LedgerView.follow, hv.balances, hy, hbase]
  · simp only [LedgerView.follow, hqv, hz, hquote, if_true]
  · refine ⟨hv.margin, hv.positions, fun asset => ?_, hv.statuses⟩
    by_cases hq : asset = quote
    · subst hq
      simp [LedgerView.withBalance]
    · by_cases hb : asset = base
      · subst hb
        simp [LedgerView.withBalance, hq]
      · simp [LedgerView.withBalance, hv.balances, hq, hb]

/-- A margined fill logs the position's change, from the size it had, and the fee; the margin
moves by the realized profit less the fee. -/
theorem settleMargined_traces {sid : SecurityId} {side : Side} {t : TradeId}
    {price quantity : Decimal} {rawFill : Int64} {taker : Bool} {x : Except LedgerError PUnit}
    (ha : a.Traceable) (hv : a.Shows v)
    (h : (settleMargined sid side t price quantity rawFill taker).run a = .ok (x, a')) :
    a'.Traceable ∧ a.Replays v a' := by
  rcases settleMargined_cases h with ⟨-, -, rfl⟩ |
    ⟨ins, sp, p', u, fee, margin, -, -, happly, -, hmargin, -, rfl⟩
  · exact ⟨ha, .quiet rfl hv⟩
  obtain ⟨hold, hnew⟩ : u.oldRawSize = _ ∧ u.newRawSize = p'.rawSize :=
    applyFill_sizes _ _ _ _ _ _ happly
  have hm := Word.toInt_of_add?_sub? hmargin
  have hsize : ((v.positions sid).map (·.1)).getD 0 = u.oldRawSize := by
    rw [hv.positions, hold]
    cases a.positions.get? sid <;> rfl
  refine ⟨ha.of_eq rfl rfl, .pair (u := v.withPosition sid u.newRawSize p'.cost
    u.realizedPnl.toInt) rfl (by simp [LedgerView.follow, hsize]) rfl ⟨?_, ?_, hv.balances,
    hv.statuses⟩⟩
  · simp only [LedgerView.withPosition]
    rw [hm, hv.margin]
  · intro sid'
    by_cases hs : sid' = sid
    · subst hs
      simp [LedgerView.withPosition, KeyMap.get?_insert, hnew]
    · simp [LedgerView.withPosition, KeyMap.get?_insert, hs, hv.positions]

theorem traces_settleFill (sid : SecurityId) (side : Side) (t : TradeId) (price quantity : Decimal)
    (rawFill : Int64) (taker : Bool) : Traces (settleFill sid side t price quantity rawFill taker) := by
  intro a x a' v ha hv h
  simp only [settleFill, run_view_bind] at h
  split at h
  · rename_i ins hins
    rw [run_ite] at h
    split at h
    · exact settleMargined_traces ha hv h
    · refine settleSpot_traces ha hv (fun ins' hins' => ?_) h
      rw [hins] at hins'
      cases hins'
      simpa using ‹¬ins.isMargined = true›
  · cases h
    exact ⟨ha, .quiet rfl hv⟩

/-! ## New orders -/

theorem traces_newOrder (o : Order) : Traces (newOrder o) := by
  intro a x a' v ha hv h
  rcases newOrder_cases h with ⟨-, -, rfl⟩ | ⟨ins, raw, p, r, hc, hs, -, -, rfl, -, rfl⟩
  · exact ⟨ha, .quiet rfl hv⟩
  · refine ⟨⟨ha.book.insert hc, ha.legs⟩, replays_placed ha hv hc hs ?_⟩
    simp [LedgerView.follow, OrderRecord.refresh, OrderRecord.create]

end AccountM

namespace Account

variable {α : Type} {a a' : Account} {v : LedgerView} {resp : Response}

open AccountM

theorem traces_answer {m : AccountM α} {wrap : α → Response} (hm : Traces m) (ha : a.Traceable)
    (hv : a.Shows v) (h : a.answer m wrap = .ok (a', resp)) : a'.Traceable ∧ a.Replays v a' := by
  unfold answer at h
  cases hrun : m.run a with
  | error f => rw [hrun] at h; cases h
  | ok r =>
    obtain ⟨r, a₁⟩ := r
    rw [hrun] at h
    cases r <;> cases h <;> exact hm a _ a' v ha hv hrun

/-- Every command but a snapshot, from a traceable account that `v` shows, leaves a traceable
account that `v` shows once it has read the events the command logged. -/
theorem handle_traces {c : Command} (hc : ∀ x, c ≠ .sync x) (ha : a.Traceable) (hv : a.Shows v)
    (h : a.handle c = .ok (a', resp)) : a'.Traceable ∧ a.Replays v a' := by
  cases c with
  | setTime t =>
    cases h
    exact ⟨ha.of_eq rfl rfl, .quiet rfl (hv.of_eq rfl rfl rfl rfl)⟩
  | sync x => exact absurd rfl (hc x)
  | newOrder o => exact traces_answer (traces_newOrder o) ha hv h
  | pruneClosed =>
    rw [handle_pruneClosed] at h
    cases h
    refine ⟨⟨ha.book.foldl_discard _, ha.legs⟩, .quiet rfl (shows_of_get? hv fun j s hs => ?_)⟩
    rw [get?_pruned] at hs
    split at hs
    · cases hs
    · exact hs
  | _ =>
    simp only [handle] at h
    refine traces_answer ?_ ha hv h
    -- The other commands read, refuse, move records, claim venue ids and settle fills; walk
    -- the `do` block step by step, each status change keeping the client id it names.
    (first
      | unfold confirmNewOrder | unfold rejectNewOrder | unfold cancelOrder
      | unfold confirmCancelOrder | unfold rejectCancelOrder | unfold replaceOrder
      | unfold confirmReplaceOrder | unfold rejectReplaceOrder | unfold pendingFilled
      | unfold confirmFill | unfold confirmExpiredOrder | unfold checkExpiration)
    try dsimp only
    repeat' (first
      | with_reducible intro _
      | with_reducible exact traces_pure _
      | with_reducible exact traces_throw _
      | with_reducible exact traces_throw_bind _ _
      | with_reducible exact traces_orThrow _ _
      | with_reducible exact traces_ofFault _
      | with_reducible exact traces_indexOf _
      | with_reducible exact traces_recordAt _
      | with_reducible exact traces_view _
      | with_reducible exact traces_emit_fill _ _ _ _ _ _ _
      | with_reducible exact traces_claimVenueId _ _
      | with_reducible exact traces_settleFill _ _ _ _ _ _ _
      | with_reducible exact traces_discard _
      | with_reducible apply traces_transition
      | with_reducible apply traces_mapM
      | with_reducible apply traces_get_bind
      | with_reducible apply traces_bind
      | with_reducible apply traces_map
      | with_reducible apply traces_ite
      | rfl
      | exact OrderRecord.amend_clientOrderId _ _ _
      | exact OrderRecord.fill_clientOrderId _ _ _ _
      | split)

end Account

end TradeLedger
