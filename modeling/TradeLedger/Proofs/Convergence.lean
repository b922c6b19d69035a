import TradeLedger.Proofs.Coherence

/-!
# Snapshots converge

Two coherent accounts of one venue account with the same settings, whatever happened to them
before, agree after the same snapshot on everything the snapshot reports: both take it, or both
refuse it with the same error, and then their orders, their open positions, the balances it
reports, the margin when it reports one in the margin currency, and the instruments of the
securities it lists are the same. What a snapshot keeps of the old account (instruments it does
not list, flat positions with their margin modes, balances it does not report) stays out of
these views, provided the reported orders and positions are of listed securities.
-/

namespace TradeLedger

/-- The reported orders and positions are of listed securities. -/
def SyncInput.Listed (x : SyncInput) : Prop :=
  (∀ o ∈ x.orders, ∃ s ∈ x.securities, s.securityId = o.securityId) ∧
  (∀ p ∈ x.positions, ∃ s ∈ x.securities, s.securityId = p.securityId)

instance (x : SyncInput) : Decidable x.Listed := inferInstanceAs (Decidable (_ ∧ _))

/-- Checked items paired with their results: the items in order, each with the result of its
check. -/
theorem mapM_pair_ok {ε α β : Type} {f : α → Except ε β} :
    ∀ {ps : List α} {qs : List (α × β)}, ps.mapM (fun p => (p, ·) <$> f p) = .ok qs →
      qs.map Prod.fst = ps ∧ ∀ q ∈ qs, f q.1 = .ok q.2
  | [], qs, h => by
    cases h
    exact ⟨rfl, fun _ hq => by cases hq⟩
  | p :: ps, qs, h => by
    rw [List.mapM_cons] at h
    cases hp : f p with
    | error e =>
      rw [hp] at h
      cases h
    | ok v =>
      cases hr : ps.mapM (fun p => (p, ·) <$> f p) with
      | error e =>
        rw [hp, hr] at h
        cases h
      | ok rs =>
        rw [hp, hr] at h
        cases h
        obtain ⟨hfst, hok⟩ := mapM_pair_ok hr
        refine ⟨by rw [List.map_cons, hfst], fun q hq => ?_⟩
        rcases List.mem_cons.mp hq with rfl | hq
        · exact hp
        · exact hok q hq

theorem mapM_congr_of_mem {m : Type → Type} [Monad m] [LawfulMonad m] {α β : Type} {f g : α → m β} :
    ∀ {ps : List α}, (∀ p ∈ ps, f p = g p) → ps.mapM f = ps.mapM g
  | [], _ => rfl
  | p :: ps, h => by
    rw [List.mapM_cons, List.mapM_cons, h p List.mem_cons_self,
      mapM_congr_of_mem fun q hq => h q (List.mem_cons_of_mem p hq)]

/-- Lists of positions with the same members, none twice and one per security id, sort to the
same list by security id. -/
theorem mergeSort_bySecurity_eq {l₁ l₂ : List Position} (h₁ : l₁.Nodup) (h₂ : l₂.Nodup)
    (hmem : ∀ p, p ∈ l₁ ↔ p ∈ l₂)
    (hid : ∀ p ∈ l₁, ∀ q ∈ l₂, p.securityId = q.securityId → p = q) :
    l₁.mergeSort (fun x y => decide (x.securityId ≤ y.securityId)) =
      l₂.mergeSort (fun x y => decide (x.securityId ≤ y.securityId)) := by
  have hle_trans : ∀ x y z : Position, decide (x.securityId ≤ y.securityId) = true →
      decide (y.securityId ≤ z.securityId) = true → decide (x.securityId ≤ z.securityId) = true := by
    intro x y z hxy hyz
    simp only [decide_eq_true_eq] at hxy hyz ⊢
    exact Nat.le_trans hxy hyz
  have hle_total : ∀ x y : Position,
      (decide (x.securityId ≤ y.securityId) || decide (y.securityId ≤ x.securityId)) = true := by
    intro x y
    simp only [Bool.or_eq_true, decide_eq_true_eq]
    exact Nat.le_total _ _
  refine List.Perm.eq_of_pairwise (fun p q hp hq hpq hqp => ?_)
    (List.pairwise_mergeSort hle_trans hle_total l₁) (List.pairwise_mergeSort hle_trans hle_total l₂) ?_
  · simp only [decide_eq_true_eq] at hpq hqp
    exact hid p (List.mem_mergeSort.mp hp) q (List.mem_mergeSort.mp hq) (Nat.le_antisymm hpq hqp)
  · exact (List.mergeSort_perm _ _).trans (((List.perm_ext_iff_of_nodup h₁ h₂).mpr hmem).trans
      (List.mergeSort_perm _ _).symm)

/-- Two results that fail with errors related by `E`, or succeed with values related by `R`. -/
inductive ExceptRel {ε α β : Type} (E : ε → ε → Prop) (R : α → β → Prop) :
    Except ε α → Except ε β → Prop
  | error {e₁ e₂ : ε} : E e₁ e₂ → ExceptRel E R (.error e₁) (.error e₂)
  | ok {x : α} {y : β} : R x y → ExceptRel E R (.ok x) (.ok y)

namespace ExceptRel

variable {ε α β γ δ : Type} {E : ε → ε → Prop} {R : α → β → Prop} {S : γ → δ → Prop}

theorem bind {m₁ : Except ε α} {m₂ : Except ε β} {f : α → Except ε γ} {g : β → Except ε δ}
    (h : ExceptRel E R m₁ m₂)
    (hf : ∀ x y, m₁ = .ok x → m₂ = .ok y → R x y → ExceptRel E S (f x) (g y)) :
    ExceptRel E S (m₁ >>= f) (m₂ >>= g) := by
  cases h with
  | error he => exact .error he
  | ok hxy => exact hf _ _ rfl rfl hxy

theorem map {m₁ : Except ε α} {m₂ : Except ε β} {f : α → γ} {g : β → δ}
    (h : ExceptRel E R m₁ m₂) (hf : ∀ x y, m₁ = .ok x → m₂ = .ok y → R x y → S (f x) (g y)) :
    ExceptRel E S (f <$> m₁) (g <$> m₂) := by
  cases h with
  | error he => exact .error he
  | ok hxy => exact .ok (hf _ _ rfl rfl hxy)

theorem refl (hE : ∀ e, E e e) (e : Except ε α) : ExceptRel E (α := α) (β := α) Eq e e := by
  cases e with
  | error e => exact .error (hE e)
  | ok v => exact .ok rfl

theorem map_same (hE : ∀ e, E e e) {e : Except ε α} {f : α → γ} {g : α → δ}
    (h : ∀ v, e = .ok v → S (f v) (g v)) : ExceptRel E S (f <$> e) (g <$> e) :=
  (refl hE e).map fun x _ hx _ hxy => hxy ▸ h x hx

end ExceptRel

namespace Account

variable {m : KeyMap SecurityId Position}

theorem PositionsFiled.values_nodup (h : PositionsFiled m) : m.values.Nodup := by
  have hentries : m.entries.Nodup := List.Nodup.of_map Prod.fst h.1
  refine hentries.map_on fun e he e' he' hval => ?_
  -- A position carries the key it is filed under, so equal positions are equal entries.
  have hkey : e.1 = e'.1 := by rw [← h.2 e he, ← h.2 e' he', hval]
  exact Prod.ext hkey hval

theorem merge_of_filed (h : PositionsFiled m) (q : VenuePosition × Int64 × Int64) :
    Position.merge q ((m.mapValues Position.reset).get? q.1.securityId) = Position.merge q none := by
  rw [KeyMap.get?_mapValues]
  cases hg : m.get? q.1.securityId with
  | none => rfl
  | some o =>
    have ho : o.securityId = q.1.securityId := h.get? hg
    simp [Position.merge, Position.reset, Position.create, ho]

/-- The open positions after merging reports into reset positions: one per reported security,
the last report's, when it is open. -/
theorem mem_open_merged (h : PositionsFiled m) (qs : List (VenuePosition × Int64 × Int64))
    (p : Position) :
    p ∈ (KeyMap.upsertAll (·.1.securityId) Position.merge (m.mapValues Position.reset) qs).values.filter
        (!·.isFlat) ↔
      p.isFlat = false ∧ ∃ q, KeyMap.lastOf (·.1.securityId) p.securityId qs = some q ∧
        Position.merge q none = p := by
  have habs := Position.merge_absorbs
  simp only [List.mem_filter, Bool.not_eq_eq_eq_not, Bool.not_true, KeyMap.values, List.mem_map]
  constructor
  · rintro ⟨⟨e, he, rfl⟩, hopen⟩
    refine ⟨hopen, ?_⟩
    cases hl : KeyMap.lastOf (·.1.securityId) e.1 qs with
    | none =>
      obtain ⟨e', -, rfl⟩ := List.mem_map.mp (KeyMap.mem_of_mem_upsertAll he hl)
      simp [Position.reset, Position.isFlat] at hopen
    | some q =>
      have hq : q.1.securityId = e.1 := (KeyMap.lastOf_key hl :)
      have hval : e.2 = Position.merge q none := by
        rw [KeyMap.snd_of_mem_upsertAll habs he hl, ← hq, merge_of_filed h q]
      refine ⟨q, ?_, hval.symm⟩
      rw [hval]
      show KeyMap.lastOf _ q.1.securityId qs = some q
      rw [hq]
      exact hl
  · rintro ⟨hopen, q, hl, rfl⟩
    refine ⟨?_, hopen⟩
    have hkey : q.1.securityId ∈ (KeyMap.upsertAll (·.1.securityId) Position.merge
        (m.mapValues Position.reset) qs).keys :=
      KeyMap.key_mem_upsertAll _ (KeyMap.lastOf_mem hl)
    obtain ⟨e, he, hk⟩ := List.mem_map.mp hkey
    have hl' : KeyMap.lastOf (·.1.securityId) e.1 qs = some q := by
      rw [hk]
      exact hl
    refine ⟨e, he, ?_⟩
    rw [KeyMap.snd_of_mem_upsertAll habs he hl', hk, merge_of_filed h q]

/-! ## Two accounts, one snapshot -/

section Agree

variable {a b : Account} {x : SyncInput}

theorem rebuildInstruments_agree (a b : Account) (x : SyncInput) :
    ExceptRel Eq (fun va vb : KeyMap SecurityId Instrument =>
        ∀ s ∈ x.securities, va.get? s.securityId = vb.get? s.securityId)
      (a.rebuildInstruments x) (b.rebuildInstruments x) := by
  rw [rebuildInstruments_eq, rebuildInstruments_eq]
  refine ExceptRel.map_same (fun _ => rfl) fun qs hqs s hs => ?_
  have hs' : s ∈ qs.map Prod.fst := by
    rw [(mapM_pair_ok hqs).1]
    exact hs
  obtain ⟨q₀, hq₀, rfl⟩ := List.mem_map.mp hs'
  have hkey : q₀.1.securityId ∈ qs.map (·.1.securityId) := List.mem_map_of_mem hq₀
  obtain ⟨q, hq⟩ := KeyMap.lastOf_of_mem hkey
  simp only [KeyMap.get?_mapValues, KeyMap.get?_upsertAll (KeyMap.absorbs_const _), hq]

theorem rebuildOrders_congr {v₁ v₂ : KeyMap SecurityId Instrument} {os : List Order}
    (h : ∀ o ∈ os, v₁.get? o.securityId = v₂.get? o.securityId) :
    rebuildOrders v₁ os = rebuildOrders v₂ os := by
  unfold rebuildOrders
  generalize OrderBook.empty = b₀
  induction os generalizing b₀ with
  | nil => rfl
  | cons o os ih =>
    simp only [List.foldlM_cons]
    rw [h o List.mem_cons_self]
    congr 1
    funext b
    exact ih (fun o' ho' => h o' (List.mem_cons_of_mem o ho')) b

/-- Both accounts merge the same checked reports into their reset positions. -/
theorem rebuildPositions_agree {va vb : KeyMap SecurityId Instrument} (hid : a.id = b.id)
    (hgrid : a.marginGrid = b.marginGrid)
    (hv : ∀ p ∈ x.positions, va.get? p.securityId = vb.get? p.securityId) :
    ExceptRel Eq (fun Pa Pb => ∃ qs : List (VenuePosition × Int64 × Int64),
        Pa = KeyMap.upsertAll (·.1.securityId) Position.merge (a.positions.mapValues Position.reset) qs ∧
        Pb = KeyMap.upsertAll (·.1.securityId) Position.merge (b.positions.mapValues Position.reset) qs ∧
        qs.map Prod.fst = x.positions)
      (a.rebuildPositions va x.positions) (b.rebuildPositions vb x.positions) := by
  rw [rebuildPositions_eq, rebuildPositions_eq,
    mapM_congr_of_mem fun p hp => by rw [reportedPosition_agree hid hgrid (hv p hp)]]
  exact ExceptRel.map_same (fun _ => rfl) fun qs hqs => ⟨qs, rfl, rfl, (mapM_pair_ok hqs).1⟩

theorem reportedMargin_isSome {r : VenueBalance} {v : Option Int64} (h : a.reportedMargin r = .ok v)
    (hr : r.asset = a.config.marginCurrency) : v.isSome := by
  have hv := (reportedMargin_ok h).2
  rw [if_pos hr] at hv
  obtain ⟨m, -, rfl⟩ := hv
  rfl

/-- Both accounts set the reported balances alike, and the margin alike when one of them is in
the margin currency. -/
theorem rebuildBalances_agree (hid : a.id = b.id) (hconf : a.config = b.config)
    (hgrid : a.marginGrid = b.marginGrid) :
    ExceptRel Eq (fun (ra rb : Balances × Int64) =>
        (∀ r ∈ x.balances, ra.1.get r.asset = rb.1.get r.asset) ∧
        ((∃ r ∈ x.balances, r.asset = a.config.marginCurrency) → ra.2 = rb.2))
      (a.rebuildBalances x.balances) (b.rebuildBalances x.balances) := by
  rw [rebuildBalances_eq, rebuildBalances_eq]
  simp only [reportedMargin_congr hid.symm (congrArg Config.marginCurrency hconf).symm hgrid.symm]
  refine ExceptRel.map_same (fun _ => rfl) fun qs hqs => ⟨fun r hr => ?_, fun ⟨r, hr, hcur⟩ => ?_⟩
  · have hr' : r ∈ qs.map Prod.fst := by
      rw [(mapM_pair_ok hqs).1]
      exact hr
    obtain ⟨q₀, hq₀, rfl⟩ := List.mem_map.mp hr'
    have hkey : q₀.1.asset ∈ qs.map (·.1.asset) := List.mem_map_of_mem hq₀
    obtain ⟨q, hq⟩ := KeyMap.lastOf_of_mem hkey
    simp only [Balances.get, KeyMap.get?_upsertAll (KeyMap.absorbs_const _), hq]
  · obtain ⟨q, hq, rfl⟩ := List.mem_map.mp ((mapM_pair_ok hqs).1 ▸ hr)
    have hsome : (qs.reverse.findSome? (·.2)).isSome := List.findSome?_isSome_iff.mpr
      ⟨q, List.mem_reverse.mpr hq, reportedMargin_isSome ((mapM_pair_ok hqs).2 q hq) hcur⟩
    obtain ⟨v, hv⟩ := Option.isSome_iff_exists.mp hsome
    simp only [hv, Option.getD_some]

/-- Both accounts rebuild a snapshot alike, as far as the snapshot reports. -/
structure RebuiltAgree (a b : Account) (x : SyncInput) (ra rb : Rebuilt) : Prop where
  views : ∀ s ∈ x.securities, ra.views.get? s.securityId = rb.views.get? s.securityId
  orders : ra.orders = rb.orders
  positions : ∃ qs : List (VenuePosition × Int64 × Int64),
    ra.positions = KeyMap.upsertAll (·.1.securityId) Position.merge
      (a.positions.mapValues Position.reset) qs ∧
    rb.positions = KeyMap.upsertAll (·.1.securityId) Position.merge
      (b.positions.mapValues Position.reset) qs ∧
    qs.map Prod.fst = x.positions
  balances : ∀ r ∈ x.balances, ra.balances.get r.asset = rb.balances.get r.asset
  margin : (∃ r ∈ x.balances, r.asset = a.config.marginCurrency) → ra.margin = rb.margin

theorem rebuilt_agree (hid : a.id = b.id) (hconf : a.config = b.config)
    (hgrid : a.marginGrid = b.marginGrid) (hx : x.Listed) :
    ExceptRel Eq (RebuiltAgree a b x) (a.rebuilt x) (b.rebuilt x) := by
  unfold rebuilt
  refine (rebuildInstruments_agree a b x).bind fun va vb _ _ hv => ?_
  have hlisted : ∀ sid, (∃ s ∈ x.securities, s.securityId = sid) → va.get? sid = vb.get? sid := by
    rintro sid ⟨s, hs, rfl⟩
    exact hv s hs
  rw [rebuildOrders_congr fun o ho => hlisted _ (hx.1 o ho)]
  cases rebuildOrders vb x.orders with
  | error e => exact .error rfl
  | ok orders =>
    refine (rebuildPositions_agree hid hgrid fun p hp => hlisted _ (hx.2 p hp)).bind
      fun Pa Pb _ _ hP => ?_
    refine (rebuildBalances_agree hid hconf hgrid).bind fun ra rb _ _ hB => ?_
    exact .ok ⟨hv, rfl, hP, hB.1, hB.2⟩

theorem positionViews_agree {ra rb : Rebuilt} (ha : a.Coherent) (hb : b.Coherent)
    (hgrid : a.marginGrid = b.marginGrid) (hx : x.Listed) (h : RebuiltAgree a b x ra rb) :
    (a.withRebuilt ra).positionViews = (b.withRebuilt rb).positionViews := by
  obtain ⟨qs, hPa, hPb, hfst⟩ := h.positions
  have hopen : (a.withRebuilt ra).openPositions = (b.withRebuilt rb).openPositions := by
    show (ra.positions.values.filter _).mergeSort _ = (rb.positions.values.filter _).mergeSort _
    rw [hPa, hPb]
    apply mergeSort_bySecurity_eq
    · exact (ha.filed.reset.upsertAll qs).values_nodup.filter _
    · exact (hb.filed.reset.upsertAll qs).values_nodup.filter _
    · intro p
      rw [mem_open_merged ha.filed, mem_open_merged hb.filed]
    · intro p hp q hq hpq
      obtain ⟨-, q₁, hl₁, rfl⟩ := (mem_open_merged ha.filed qs p).mp hp
      obtain ⟨-, q₂, hl₂, rfl⟩ := (mem_open_merged hb.filed qs q).mp hq
      rw [hpq, hl₂, Option.some.injEq] at hl₁
      rw [hl₁]
  unfold positionViews
  rw [hopen]
  refine List.filterMap_congr fun p hp => ?_
  have hp' : p ∈ rb.positions.values.filter (!·.isFlat) := List.mem_mergeSort.mp hp
  rw [hPb] at hp'
  obtain ⟨-, q, hl, rfl⟩ := (mem_open_merged hb.filed qs p).mp hp'
  have hrep : q.1 ∈ x.positions := hfst ▸ List.mem_map_of_mem (KeyMap.lastOf_mem hl)
  obtain ⟨s, hs, hsid⟩ := hx.2 q.1 hrep
  have hview : ra.views.get? q.1.securityId = rb.views.get? q.1.securityId := hsid ▸ h.views s hs
  show (ra.views.get? q.1.securityId).map _ = (rb.views.get? q.1.securityId).map _
  rw [hview, withRebuilt_marginGrid, withRebuilt_marginGrid, hgrid]

end Agree

/-- What two accounts agree on after the same snapshot: everything it reports, as the queries
show it. -/
structure AgreeOn (x : SyncInput) (marginCurrency : String) (a₁ b₁ : Account) : Prop where
  orders : ∀ f, a₁.query (.orders f) = b₁.query (.orders f)
  order : ∀ ref, a₁.query (.order ref) = b₁.query (.order ref)
  positions : a₁.query .positions = b₁.query .positions
  balances : ∀ r ∈ x.balances, a₁.balances.get r.asset = b₁.balances.get r.asset
  margin : (∃ r ∈ x.balances, r.asset = marginCurrency) → a₁.query .margin = b₁.query .margin
  instruments : ∀ s ∈ x.securities, a₁.instrument? s.securityId = b₁.instrument? s.securityId

theorem agreeOn_withRebuilt {a b : Account} {x : SyncInput} {ra rb : Rebuilt} (ha : a.Coherent)
    (hb : b.Coherent) (hgrid : a.marginGrid = b.marginGrid) (hx : x.Listed)
    (h : RebuiltAgree a b x ra rb) :
    AgreeOn x a.config.marginCurrency (a.withRebuilt ra) (b.withRebuilt rb) := by
  have hbook : (a.withRebuilt ra).orders = (b.withRebuilt rb).orders := h.orders
  refine ⟨fun f => ?_, fun ref => ?_, ?_, h.balances, fun hm => ?_, h.views⟩
  · simp only [query, ordersMatching, hbook]
  · simp only [query, order?, hbook]
  · simp only [query, positionViews_agree ha hb hgrid hx h]
  · show Except.ok (Response.value (a.marginGrid.fromRaw ra.margin)) =
      Except.ok (Response.value (b.marginGrid.fromRaw rb.margin))
    rw [hgrid, h.margin hm]

theorem Coherent.converge_on_snapshot {a b : Account} {x : SyncInput} (ha : a.Coherent)
    (hb : b.Coherent) (hid : a.id = b.id) (hconf : a.config = b.config) (hx : x.Listed) :
    ∃ a₁ b₁ resp, a.handle (.sync x) = .ok (a₁, resp) ∧ b.handle (.sync x) = .ok (b₁, resp) ∧
      (resp = .done → AgreeOn x a.config.marginCurrency a₁ b₁) := by
  have hgrid : a.marginGrid = b.marginGrid := by
    have hg := ha.grid
    rw [hconf, hb.grid, Option.some.injEq] at hg
    exact hg.symm
  rw [handle_sync_eq, handle_sync_eq]
  have hrel := rebuilt_agree hid hconf hgrid hx
  generalize a.rebuilt x = ra at hrel ⊢
  generalize b.rebuilt x = rb at hrel ⊢
  cases hrel with
  | error he =>
    subst he
    exact ⟨a, b, _, rfl, rfl, fun h => by cases h⟩
  | ok h => exact ⟨_, _, _, rfl, rfl, fun _ => agreeOn_withRebuilt ha hb hgrid hx h⟩

/-- Two reachable accounts with one id and one configuration, whatever happened to them before,
take a snapshot whose orders and positions are of listed securities alike: both with the same
answer, and then agreeing on its orders, open positions, reported balances, margin when it
reports one in the margin currency, and the instruments it lists. -/
theorem Reachable.snapshot_converges {a b : Account} {x : SyncInput} (ha : a.Reachable)
    (hb : b.Reachable) (hid : a.id = b.id) (hconf : a.config = b.config) (hx : x.Listed) :
    ∃ a₁ b₁ resp, a.handle (.sync x) = .ok (a₁, resp) ∧ b.handle (.sync x) = .ok (b₁, resp) ∧
      (resp = .done → AgreeOn x a.config.marginCurrency a₁ b₁) :=
  Coherent.converge_on_snapshot ha.coherent hb.coherent hid hconf hx

end Account

namespace Sample

def fullSnapshot : SyncInput :=
  ⟨[Security.btcusdPerp], [{ buyTen with venueOrderId := some "v", status := .new }],
    [⟨⟨"binance", "main"⟩, 1, Decimal.ofParts false 3 0, Decimal.ofParts false 2 2, false⟩],
    [⟨⟨"binance", "main"⟩, "BTC", Decimal.ofParts false 5 0⟩], none, none⟩

end Sample

namespace Account

/-- An account where order "a" was filled in part and a fresh account agree after the same
snapshot. -/
theorem filled_and_fresh_converge :
    ∃ a b, Sample.session [Sample.listBtcPerp, .newOrder Sample.buyTen,
        .confirmNewOrder "a" "v", Sample.fillA 4] = some a ∧ Sample.session [] = some b ∧
      a.Reachable ∧ b.Reachable ∧ a.id = b.id ∧ a.config = b.config ∧ Sample.fullSnapshot.Listed ∧
      ∃ a₁ b₁ resp, a.handle (.sync Sample.fullSnapshot) = .ok (a₁, resp) ∧
        b.handle (.sync Sample.fullSnapshot) = .ok (b₁, resp) ∧
        (resp = .done → AgreeOn Sample.fullSnapshot a.config.marginCurrency a₁ b₁) := by
  have hs₁ : Sample.session [Sample.listBtcPerp, .newOrder Sample.buyTen,
      .confirmNewOrder "a" "v", Sample.fillA 4] = some _ := rfl
  have hs₂ : Sample.session [] = some _ := rfl
  exact ⟨_, _, hs₁, hs₂, .of_session hs₁, .of_session hs₂, rfl, rfl, by decide,
    Reachable.snapshot_converges (.of_session hs₁) (.of_session hs₂) rfl rfl (by decide)⟩

end Account

end TradeLedger
