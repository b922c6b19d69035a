import TradeLedger.Proofs.Fallback

/-!
# Reconciliation

A snapshot is merged into the account in three folds, over the reported securities, positions
and balances. Each step of a fold first checks its item, which reads only the item and settings
that a snapshot never changes, and then inserts it under its key. So a fold succeeds or fails
on the items alone, and what it leaves is the merge of the checked items (`KeyMap.upsertAll`)
into what the account had.

Merging the same items again changes nothing, since the last item of each key decides its value
whatever the value before (`KeyMap.upsertAll_remerge`). Hence a snapshot handled twice leaves
the account as the first handling left it, with one more `synced` event.
-/

namespace TradeLedger

/-- A fold whose step checks its item, independently of the state, and then applies it: it
succeeds exactly when every check does, and applies the checked items in order. -/
theorem foldlM_check_step {ε σ α β : Type} (f : α → Except ε β) (step : σ → α × β → σ) :
    ∀ (ps : List α) (s : σ), ps.foldlM (fun s p => f p >>= fun v => pure (step s (p, v))) s =
      (fun qs => qs.foldl step s) <$> ps.mapM fun p => (p, ·) <$> f p
  | [], _ => rfl
  | p :: ps, s => by
    rw [List.foldlM_cons, List.mapM_cons]
    cases hp : f p with
    | error e => rfl
    | ok v =>
      show ps.foldlM _ (step s (p, v)) = _
      rw [foldlM_check_step f step ps (step s (p, v))]
      cases ps.mapM (fun p => (p, ·) <$> f p) <;> rfl

theorem foldlM_check_step_of {ε σ α β : Type} {g : σ → α → Except ε σ} (f : α → Except ε β)
    (step : σ → α × β → σ) (hg : ∀ s p, g s p = f p >>= fun v => pure (step s (p, v)))
    (ps : List α) (s : σ) :
    ps.foldlM g s = (fun qs => qs.foldl step s) <$> ps.mapM fun p => (p, ·) <$> f p := by
  have hfun : g = fun s p => f p >>= fun v => pure (step s (p, v)) := funext fun s => funext (hg s)
  rw [hfun]
  exact foldlM_check_step f step ps s

/-! ## Security views -/

namespace SyncInput

/-- The snapshot's fee rates, where it has them, on an instrument. -/
def withFees (x : SyncInput) (i : Instrument) : Instrument :=
  let s := i.security
  let s := match x.makerFee with | some f => { s with makerFee := f } | none => s
  let s := match x.takerFee with | some f => { s with takerFee := f } | none => s
  { i with security := s }

theorem withFees_withFees (x : SyncInput) (i : Instrument) :
    x.withFees (x.withFees i) = x.withFees i := by
  unfold withFees
  cases x.makerFee <;> cases x.takerFee <;> rfl

def instruments (x : SyncInput) : Except LedgerError (List (Security × Instrument)) :=
  x.securities.mapM fun s => (s, ·) <$> Instrument.ofSecurity s

end SyncInput

namespace Account

variable {a b : Account} {x : SyncInput}

theorem rebuildInstruments_eq (a : Account) (x : SyncInput) :
    a.rebuildInstruments x = (fun qs => (KeyMap.upsertAll (·.1.securityId) (fun q _ => q.2)
      a.instruments qs).mapValues x.withFees) <$> x.instruments := by
  unfold rebuildInstruments
  rw [foldlM_check_step Instrument.ofSecurity
    fun (m : KeyMap SecurityId Instrument) (q : Security × Instrument) => m.insert q.1.securityId q.2]
  unfold SyncInput.instruments
  cases x.securities.mapM fun s => (s, ·) <$> Instrument.ofSecurity s <;> rfl

theorem rebuildInstruments_again {views : KeyMap SecurityId Instrument}
    (h : a.rebuildInstruments x = .ok views) (hb : b.instruments = views) :
    b.rebuildInstruments x = .ok views := by
  rw [rebuildInstruments_eq] at h ⊢
  cases hx : x.instruments with
  | error e => simp [hx] at h
  | ok qs =>
    simp only [hx, Functor.map, Except.map, Except.ok.injEq] at h ⊢
    subst h
    rw [hb, KeyMap.mapValues_upsertAll, KeyMap.mapValues_upsertAll]
    have hfees : ∀ e ∈ (a.instruments.mapValues x.withFees).entries, x.withFees e.2 = e.2 := by
      intro e he
      obtain ⟨e', -, rfl⟩ := List.mem_map.mp he
      exact x.withFees_withFees _
    exact KeyMap.upsertAll_remerge (KeyMap.absorbs_const _) (fun _ _ => rfl) hfees qs

/-! ## Positions -/

/-- A reported position, checked: its raw size on its instrument's lot grid, and its raw cost
on the margin grid, a flat one at cost 0. -/
def reportedPosition (a : Account) (views : KeyMap SecurityId Instrument) (p : VenuePosition) :
    Except LedgerError (Int64 × Int64) := do
  a.checkAccount p.account
  let i ← match views.get? p.securityId with
    | some i => pure i
    | none => throw (.unknownSecurity p.securityId)
  let rawSize ← match i.lot.toRaw? p.quantity with
    | some r => pure r
    | none => throw .overflow
  let cost ← if rawSize.toInt = 0 then pure 0 else match a.marginGrid.toRaw? p.cost with
    | some c => pure c
    | none => throw .overflow
  pure (rawSize, cost)

/-- A position report that passes its checks names the account and a known instrument, and gives
its size on the instrument's lot grid and, unless it is flat, its cost on the margin grid. -/
theorem reportedPosition_ok {views : KeyMap SecurityId Instrument} {p : VenuePosition}
    {size cost : Int64} (h : a.reportedPosition views p = .ok (size, cost)) :
    a.checkAccount p.account = .ok () ∧ ∃ i, views.get? p.securityId = some i ∧
      i.lot.toRaw? p.quantity = some size ∧
      if size.toInt = 0 then cost = 0 else a.marginGrid.toRaw? p.cost = some cost := by
  unfold reportedPosition at h
  cases hc : a.checkAccount p.account with
  | error e => simp [hc, bind, Except.bind] at h
  | ok u =>
    cases hv : views.get? p.securityId with
    | none => simp [hc, hv, bind, Except.bind, throw, throwThe, MonadExceptOf.throw] at h
    | some i =>
      cases hr : i.lot.toRaw? p.quantity with
      | none =>
        simp [hc, hv, hr, bind, Except.bind, pure, Except.pure, throw, throwThe,
          MonadExceptOf.throw] at h
      | some s =>
        by_cases hs : s.toInt = 0
        · simp [hc, hv, hr, hs, bind, Except.bind, pure, Except.pure] at h
          obtain ⟨rfl, rfl⟩ := h
          exact ⟨rfl, i, rfl, hr, by simp [hs]⟩
        · cases hm : a.marginGrid.toRaw? p.cost <;>
            simp [hc, hv, hr, hs, hm, bind, Except.bind, pure, Except.pure, throw, throwThe,
              MonadExceptOf.throw] at h
          obtain ⟨rfl, rfl⟩ := h
          exact ⟨rfl, i, rfl, hr, by simp [hs]⟩

end Account

/-- A checked reported position over the position it replaces: the reported size, cost and
margin mode, under the security id of the position replaced. -/
def Position.merge (q : VenuePosition × Int64 × Int64) (old : Option Position) : Position :=
  { old.getD (Position.create q.1.securityId q.1.cross) with
    rawSize := q.2.1, cost := q.2.2, cross := q.1.cross }

theorem Position.merge_absorbs : KeyMap.Absorbs (·.1.securityId) Position.merge := by
  intro p q o hpq
  cases o with
  | none => simp [merge, create, hpq]
  | some x => rfl

namespace Account

variable {a b : Account} {x : SyncInput}

/-- The positions after a snapshot: all flat, with the reported ones merged in. -/
theorem rebuildPositions_eq (a : Account) (views : KeyMap SecurityId Instrument)
    (ps : List VenuePosition) :
    a.rebuildPositions views ps = (fun qs => KeyMap.upsertAll (·.1.securityId) Position.merge
      (a.positions.mapValues Position.reset) qs) <$>
      ps.mapM fun p => (p, ·) <$> a.reportedPosition views p := by
  unfold rebuildPositions
  rw [foldlM_check_step_of (a.reportedPosition views)
    fun (m : KeyMap SecurityId Position) (q : VenuePosition × Int64 × Int64) =>
      m.insert q.1.securityId (Position.merge q (m.get? q.1.securityId))]
  · rfl
  · intro m p
    simp only [reportedPosition, bind_assoc]
    refine congrArg (a.checkAccount p.account >>= ·) (funext fun _ => ?_)
    cases views.get? p.securityId with
    | none => rfl
    | some i =>
      simp only [pure_bind]
      cases i.lot.toRaw? p.quantity with
      | none => rfl
      | some r =>
        simp only
        split
        · simp only [pure_bind]
          rfl
        · cases a.marginGrid.toRaw? p.cost with
          | none => rfl
          | some c =>
            simp only [pure_bind]
            rfl

/-- Rebuilt positions are the account's, each reset, with every reported position merged in once
checked. -/
theorem rebuildPositions_ok {views : KeyMap SecurityId Instrument} {ps : List VenuePosition}
    {positions : KeyMap SecurityId Position} (h : a.rebuildPositions views ps = .ok positions) :
    ∃ qs, ps.mapM (fun p => (p, ·) <$> a.reportedPosition views p) = .ok qs ∧
      positions = KeyMap.upsertAll (·.1.securityId) Position.merge
        (a.positions.mapValues Position.reset) qs := by
  rw [rebuildPositions_eq] at h
  cases hx : ps.mapM fun p => (p, ·) <$> a.reportedPosition views p with
  | error e => simp [hx] at h
  | ok qs =>
    rw [hx] at h
    simp only [Functor.map, Except.map, Except.ok.injEq] at h
    exact ⟨qs, rfl, h.symm⟩

theorem reportedPosition_agree {va vb : KeyMap SecurityId Instrument} {p : VenuePosition}
    (hid : a.id = b.id) (hgrid : a.marginGrid = b.marginGrid)
    (hv : va.get? p.securityId = vb.get? p.securityId) :
    a.reportedPosition va p = b.reportedPosition vb p := by
  simp only [reportedPosition, checkAccount, hid, hgrid, hv]

theorem rebuildPositions_again {views : KeyMap SecurityId Instrument} {ps : List VenuePosition}
    {positions : KeyMap SecurityId Position} (h : a.rebuildPositions views ps = .ok positions)
    (hpos : b.positions = positions) (hid : b.id = a.id) (hgrid : b.marginGrid = a.marginGrid) :
    b.rebuildPositions views ps = .ok positions := by
  obtain ⟨qs, hx, rfl⟩ := rebuildPositions_ok h
  rw [rebuildPositions_eq]
  simp only [reportedPosition_agree hid hgrid rfl]
  rw [hx]
  simp only [Functor.map, Except.map, Except.ok.injEq]
  rw [hpos]
  have hflat : ∀ e ∈ (a.positions.mapValues Position.reset).entries,
      Position.reset e.2 = e.2 := by
    intro e he
    obtain ⟨e', -, rfl⟩ := List.mem_map.mp he
    rfl
  exact KeyMap.upsertAll_remerge Position.merge_absorbs (R := Position.reset) (fun _ _ => rfl) hflat qs

/-! ## Balances and margin -/

/-- A reported balance, checked: its quantity on the margin grid when it is of the margin
currency. -/
def reportedMargin (a : Account) (r : VenueBalance) : Except LedgerError (Option Int64) := do
  a.checkAccount r.account
  if r.asset = a.config.marginCurrency then
    match a.marginGrid.toRaw? r.quantity with
    | some m => pure (some m)
    | none => throw .overflow
  else pure none

/-- Setting checked balances one by one sets the last reported quantity of each asset, and the
margin from the last report in the margin currency, if any. -/
theorem foldl_setBalance : ∀ (qs : List (VenueBalance × Option Int64)) (b : Balances) (m : Int64),
    qs.foldl (fun bm q => (bm.1.set q.1.asset q.1.quantity, q.2.getD bm.2)) (b, m) =
      (⟨KeyMap.upsertAll (·.1.asset) (fun q _ => q.1.quantity) b.entries qs⟩,
        (qs.reverse.findSome? (·.2)).getD m)
  | [], _, _ => rfl
  | q :: qs, b, m => by
    rw [List.foldl_cons, foldl_setBalance qs, List.reverse_cons, List.findSome?_append,
      List.findSome?_singleton]
    cases qs.reverse.findSome? (·.2) <;> rfl

/-- The balances after a snapshot: the reported quantities set over the old ones, and the
margin from the last report in the margin currency. -/
theorem rebuildBalances_eq (a : Account) (bs : List VenueBalance) :
    a.rebuildBalances bs = (fun qs =>
      ((⟨KeyMap.upsertAll (·.1.asset) (fun q _ => q.1.quantity) a.balances.entries qs⟩ : Balances),
        (qs.reverse.findSome? (·.2)).getD a.margin)) <$>
      bs.mapM fun r => (r, ·) <$> a.reportedMargin r := by
  unfold rebuildBalances
  rw [foldlM_check_step_of a.reportedMargin
    fun (bm : Balances × Int64) (q : VenueBalance × Option Int64) =>
      (bm.1.set q.1.asset q.1.quantity, q.2.getD bm.2)]
  · cases bs.mapM fun r => (r, ·) <$> a.reportedMargin r with
    | error e => rfl
    | ok qs => exact congrArg Except.ok (foldl_setBalance qs a.balances a.margin)
  · intro bm r
    obtain ⟨b, margin⟩ := bm
    simp only [reportedMargin, bind_assoc]
    refine congrArg (a.checkAccount r.account >>= ·) (funext fun _ => ?_)
    split
    · cases a.marginGrid.toRaw? r.quantity with
      | none => rfl
      | some m => rfl
    · rfl

/-- Rebuilt balances are the account's with every reported balance set once checked; the margin
is the last one a report gives, or the account's. -/
theorem rebuildBalances_ok {bs : List VenueBalance} {balances : Balances} {margin : Int64}
    (h : a.rebuildBalances bs = .ok (balances, margin)) :
    ∃ qs, bs.mapM (fun r => (r, ·) <$> a.reportedMargin r) = .ok qs ∧
      balances = ⟨KeyMap.upsertAll (·.1.asset) (fun q _ => q.1.quantity) a.balances.entries qs⟩ ∧
      margin = (qs.reverse.findSome? (·.2)).getD a.margin := by
  rw [rebuildBalances_eq] at h
  cases hx : bs.mapM fun r => (r, ·) <$> a.reportedMargin r with
  | error e => simp [hx] at h
  | ok qs =>
    rw [hx] at h
    simp only [Functor.map, Except.map, Except.ok.injEq, Prod.mk.injEq] at h
    exact ⟨qs, rfl, h.1.symm, h.2.symm⟩

/-- A balance report that passes its checks names the account; it gives a margin exactly when it is
in the margin currency, its quantity on the margin grid. -/
theorem reportedMargin_ok {r : VenueBalance} {v : Option Int64} (h : a.reportedMargin r = .ok v) :
    a.checkAccount r.account = .ok () ∧
      if r.asset = a.config.marginCurrency then
        ∃ m, a.marginGrid.toRaw? r.quantity = some m ∧ v = some m
      else v = none := by
  unfold reportedMargin at h
  cases hc : a.checkAccount r.account with
  | error e =>
    rw [hc] at h
    cases h
  | ok u =>
    rw [hc] at h
    refine ⟨rfl, ?_⟩
    split
    · rename_i hcur
      simp only [if_pos hcur] at h
      cases hm : a.marginGrid.toRaw? r.quantity with
      | none =>
        rw [hm] at h
        cases h
      | some m =>
        rw [hm] at h
        cases h
        exact ⟨m, rfl, rfl⟩
    · rename_i hcur
      simp only [if_neg hcur] at h
      cases h
      rfl

theorem reportedMargin_congr (hid : b.id = a.id)
    (hcur : b.config.marginCurrency = a.config.marginCurrency)
    (hgrid : b.marginGrid = a.marginGrid) (r : VenueBalance) :
    b.reportedMargin r = a.reportedMargin r := by
  simp only [reportedMargin, checkAccount, hid, hcur, hgrid]

/-- A snapshot's balances and margin, rebuilt from those it left, are the same. -/
theorem rebuildBalances_again {bs : List VenueBalance} {balances : Balances} {margin : Int64}
    (h : a.rebuildBalances bs = .ok (balances, margin)) (hbal : b.balances = balances)
    (hmargin : b.margin = margin) (hid : b.id = a.id)
    (hcur : b.config.marginCurrency = a.config.marginCurrency)
    (hgrid : b.marginGrid = a.marginGrid) :
    b.rebuildBalances bs = .ok (balances, margin) := by
  obtain ⟨qs, hx, rfl, rfl⟩ := rebuildBalances_ok h
  rw [rebuildBalances_eq]
  simp only [reportedMargin_congr hid hcur hgrid]
  rw [hx]
  simp only [Functor.map, Except.map, Except.ok.injEq, Prod.mk.injEq]
  rw [hbal, hmargin]
  constructor
  · rw [KeyMap.upsertAll_upsertAll (KeyMap.absorbs_const _)]
  · cases qs.reverse.findSome? (·.2) <;> rfl

/-! ## The parts a snapshot rebuilds -/

/-- What a snapshot rebuilds of an account. -/
structure Rebuilt where
  views : KeyMap SecurityId Instrument
  orders : OrderBook
  positions : KeyMap SecurityId Position
  balances : Balances
  margin : Int64

/-- The parts a snapshot rebuilds, or its first refusal. -/
def rebuilt (a : Account) (x : SyncInput) : Except LedgerError Rebuilt := do
  let views ← a.rebuildInstruments x
  let orders ← rebuildOrders views x.orders
  let positions ← a.rebuildPositions views x.positions
  let (balances, margin) ← a.rebuildBalances x.balances
  pure ⟨views, orders, positions, balances, margin⟩

/-- The account with rebuilt parts, and the `synced` event that sums them up. -/
def withRebuilt (a : Account) (r : Rebuilt) : Account :=
  { a with
    instruments := r.views, orders := r.orders, positions := r.positions, balances := r.balances,
    margin := r.margin, events := a.events.record a.time (.synced r.views.size r.orders.size
      (r.positions.values.filter (!·.isFlat)).length r.balances.size r.margin) }

@[simp] theorem withRebuilt_marginGrid (a : Account) (r : Rebuilt) :
    (a.withRebuilt r).marginGrid = a.marginGrid := rfl

theorem run_sync_eq (a : Account) (x : SyncInput) :
    (AccountM.sync x).run a = match a.rebuilt x with
      | .error e => .ok (.error e, a)
      | .ok r => .ok (.ok ⟨⟩, a.withRebuilt r) := by
  simp only [AccountM.sync, AccountM.run_get_bind, rebuilt]
  cases a.rebuildInstruments x with
  | error e => rfl
  | ok views =>
    simp only [bind, Except.bind]
    cases rebuildOrders views x.orders with
    | error e => rfl
    | ok orders =>
      cases a.rebuildPositions views x.positions with
      | error e => rfl
      | ok positions =>
        cases a.rebuildBalances x.balances with
        | error e => rfl
        | ok bm => rfl

theorem handle_sync_eq (a : Account) (x : SyncInput) :
    a.handle (.sync x) = match a.rebuilt x with
      | .error e => .ok (a, .error e.toApi)
      | .ok r => .ok (a.withRebuilt r, .done) := by
  simp only [handle, answer, run_sync_eq]
  cases a.rebuilt x <;> rfl

/-- A snapshot is rebuilt in full when each of its parts is. -/
theorem rebuilt_eq_ok {r : Rebuilt} :
    a.rebuilt x = .ok r ↔ a.rebuildInstruments x = .ok r.views ∧
      rebuildOrders r.views x.orders = .ok r.orders ∧
      a.rebuildPositions r.views x.positions = .ok r.positions ∧
      a.rebuildBalances x.balances = .ok (r.balances, r.margin) := by
  constructor
  · intro h
    unfold rebuilt at h
    cases hv : a.rebuildInstruments x with
    | error e => simp [hv, bind, Except.bind] at h
    | ok views =>
      cases ho : rebuildOrders views x.orders with
      | error e => simp [hv, ho, bind, Except.bind] at h
      | ok orders =>
        cases hp : a.rebuildPositions views x.positions with
        | error e => simp [hv, ho, hp, bind, Except.bind] at h
        | ok positions =>
          cases hb : a.rebuildBalances x.balances with
          | error e => simp [hv, ho, hp, hb, bind, Except.bind] at h
          | ok bm =>
            obtain ⟨balances, margin⟩ := bm
            simp only [hv, ho, hp, hb, bind, Except.bind, pure, Except.pure, Except.ok.injEq] at h
            subst h
            exact ⟨rfl, ho, hp, rfl⟩
  · rintro ⟨hv, ho, hp, hb⟩
    have hv' : a.rebuildInstruments x = pure r.views := hv
    have ho' : rebuildOrders r.views x.orders = pure r.orders := ho
    have hp' : a.rebuildPositions r.views x.positions = pure r.positions := hp
    have hb' : a.rebuildBalances x.balances = pure (r.balances, r.margin) := hb
    simp only [rebuilt, hv', ho', hp', hb', pure_bind]
    rfl

/-! ## A snapshot handled twice -/

/-- A snapshot handled a second time succeeds and changes nothing but the event log, to which
it adds the same `synced` event as the first time. -/
theorem handle_sync_idempotent {a₁ : Account} (h : a.handle (.sync x) = .ok (a₁, .done)) :
    ∃ nv no np nb m, a₁.events = a.events.record a.time (.synced nv no np nb m) ∧
      a₁.handle (.sync x) =
        .ok ({ a₁ with events := a₁.events.record a₁.time (.synced nv no np nb m) }, .done) := by
  rw [handle_sync_eq] at h
  split at h
  · cases h
  · rename_i r hr
    cases h
    refine ⟨_, _, _, _, _, rfl, ?_⟩
    obtain ⟨hv, ho, hp, hb⟩ := rebuilt_eq_ok.mp hr
    have hagain : (a.withRebuilt r).rebuilt x = .ok r :=
      rebuilt_eq_ok.mpr ⟨rebuildInstruments_again hv rfl, ho, rebuildPositions_again hp rfl rfl rfl,
        rebuildBalances_again hb rfl rfl rfl rfl rfl⟩
    rw [handle_sync_eq, hagain]
    rfl

/-- A snapshot of order "a" waiting on a cancel, handled twice from a fresh account. -/
theorem waiting_cancel_snapshot_idempotent :
    ∃ a a₁, Sample.session [] = some a ∧ a.handle Sample.reportWaitingCancel = .ok (a₁, .done) ∧
      ∃ nv no np nb m, a₁.events = a.events.record a.time (.synced nv no np nb m) ∧
        a₁.handle Sample.reportWaitingCancel =
          .ok ({ a₁ with events := a₁.events.record a₁.time (.synced nv no np nb m) }, .done) := by
  have hs : Sample.session [] = some _ := rfl
  exact ⟨_, _, hs, rfl, handle_sync_idempotent rfl⟩

end Account

end TradeLedger
