import TradeLedger.Proofs.Convergence
import TradeLedger.Proofs.EventSteps

/-!
# A snapshot read in another order

A snapshot lists securities, orders, positions and balances. Each list is checked item by item
and then merged, and the checks read only the item and what the snapshot does not change; so a
snapshot with its lists in another order is taken or refused alike. Taken, it leaves the same
instruments, orders, positions, balances and margin, provided the lists that are merged key by
key name each key once: the merges keep the last item of a key, which another order of the list
changes. Orders are the exception that needs no proviso: the book refuses a second order of a
client id or a venue id, and it holds the same records in any order of the list, which the
queries read sorted or by id.
-/

namespace TradeLedger

/-! ## Results that fail together -/

namespace ExceptRel

variable {ε α β : Type} {R : α → β → Prop}

theorem trans {E : ε → ε → Prop} {T : α → α → Prop} (hE : ∀ e₁ e₂ e₃, E e₁ e₂ → E e₂ e₃ → E e₁ e₃)
    (hT : ∀ x y z, T x y → T y z → T x z) {m₁ m₂ m₃ : Except ε α} (h₁ : ExceptRel E T m₁ m₂)
    (h₂ : ExceptRel E T m₂ m₃) : ExceptRel E T m₁ m₃ := by
  cases h₁ with
  | error he₁ =>
    cases h₂ with
    | error he₂ => exact .error (hE _ _ _ he₁ he₂)
  | ok hxy =>
    cases h₂ with
    | ok hyz => exact .ok (hT _ _ _ hxy hyz)

theorem of_iff {m₁ : Except ε α} {m₂ : Except ε β} (hiff : (∃ x, m₁ = .ok x) ↔ ∃ y, m₂ = .ok y)
    (hR : ∀ x y, m₁ = .ok x → m₂ = .ok y → R x y) : ExceptRel (fun _ _ => True) R m₁ m₂ := by
  cases h₁ : m₁ with
  | error e₁ =>
    cases h₂ : m₂ with
    | error e₂ => exact .error trivial
    | ok y =>
      obtain ⟨x, hx⟩ := hiff.mpr ⟨y, h₂⟩
      rw [h₁] at hx
      cases hx
  | ok x =>
    obtain ⟨y, hy⟩ := hiff.mp ⟨x, h₁⟩
    rw [hy]
    exact .ok (hR x y h₁ hy)

end ExceptRel

theorem mapM_perm {ε α β : Type} {f : α → Except ε β} {ps ps' : List α} (hp : ps.Perm ps') :
    ExceptRel (fun _ _ => True) List.Perm (ps.mapM f) (ps'.mapM f) := by
  induction hp with
  | nil => exact .ok .nil
  | cons p _ ih =>
    rw [List.mapM_cons, List.mapM_cons]
    exact (ExceptRel.refl (fun _ => trivial) (f p)).bind fun v v' _ _ hv => hv ▸
      ih.bind fun vs vs' _ _ hvs => .ok (hvs.cons v)
  | swap p q l =>
    simp only [List.mapM_cons]
    cases f p with
    | error e => cases f q <;> exact .error trivial
    | ok v =>
      cases f q with
      | error e => exact .error trivial
      | ok w =>
        cases l.mapM f with
        | error e => exact .error trivial
        | ok vs => exact .ok (.swap v w vs)
  | trans _ _ ih₁ ih₂ =>
    exact ih₁.trans (fun _ _ _ _ _ => trivial) (fun _ _ _ hxy hyz => hxy.trans hyz) ih₂

theorem findSome?_perm_of_subsingleton {α β : Type} {f : α → Option β} {l l' : List α}
    (hp : l.Perm l') (hone : ∀ x ∈ l, ∀ y ∈ l, (f x).isSome → (f y).isSome → x = y) :
    l.findSome? f = l'.findSome? f := by
  cases h : l.findSome? f with
  | none =>
    cases h' : l'.findSome? f with
    | none => rfl
    | some w =>
      obtain ⟨y, hy, hfy⟩ := List.exists_of_findSome?_eq_some h'
      rw [List.findSome?_eq_none_iff.mp h y (hp.mem_iff.mpr hy)] at hfy
      cases hfy
  | some v =>
    obtain ⟨x, hx, hfx⟩ := List.exists_of_findSome?_eq_some h
    cases h' : l'.findSome? f with
    | none =>
      rw [List.findSome?_eq_none_iff.mp h' x (hp.mem_iff.mp hx)] at hfx
      cases hfx
    | some w =>
      obtain ⟨y, hy, hfy⟩ := List.exists_of_findSome?_eq_some h'
      have hxy : x = y := hone x hx y (hp.mem_iff.mpr hy) (by simp [hfx]) (by simp [hfy])
      rw [← hxy, hfx] at hfy
      exact hfy

namespace KeyMap

variable {κ α : Type} [DecidableEq κ] {key : α → κ}

theorem lastOf_eq_none {k : κ} {ps : List α} (h : k ∉ ps.map key) : lastOf key k ps = none := by
  cases hl : lastOf key k ps with
  | none => rfl
  | some p => exact absurd (List.mem_map.mpr ⟨p, lastOf_mem hl, lastOf_key hl⟩) h

/-- With one item per key, the last item of a key is its only item. -/
theorem lastOf_of_nodup : ∀ {ps : List α}, (ps.map key).Nodup → ∀ {p : α}, p ∈ ps →
    lastOf key (key p) ps = some p
  | [], _, _, hp => by cases hp
  | q :: ps, hnd, p, hp => by
    rw [List.map_cons, List.nodup_cons] at hnd
    rcases List.mem_cons.mp hp with rfl | hp
    · rw [lastOf, lastOf_eq_none hnd.1, Option.none_or, if_pos rfl]
    · rw [lastOf, lastOf_of_nodup hnd.2 hp, Option.some_or]

theorem lastOf_perm {ps ps' : List α} (hp : ps.Perm ps') (hnd : (ps.map key).Nodup) (k : κ) :
    lastOf key k ps = lastOf key k ps' := by
  have hnd' : (ps'.map key).Nodup := (hp.map key).nodup_iff.mp hnd
  cases hl : lastOf key k ps with
  | none =>
    refine (lastOf_eq_none fun hk => ?_).symm
    obtain ⟨p, hp', rfl⟩ := List.mem_map.mp hk
    rw [lastOf_of_nodup hnd (hp.mem_iff.mpr hp')] at hl
    cases hl
  | some p =>
    rw [← lastOf_key hl]
    exact (lastOf_of_nodup hnd' (hp.mem_iff.mp (lastOf_mem hl))).symm

end KeyMap

/-! ## The book of reported orders -/

namespace OrderBook

variable {b : OrderBook} {o : Order} {r : OrderRecord}

/-- A book admits an order when no record in it has the order's client id, nor its venue id. -/
def Admits (b : OrderBook) (o : Order) : Prop :=
  ∀ s ∈ b.records, s.order.clientOrderId ≠ o.clientOrderId ∧
    ∀ v, o.venueOrderId = some v → s.order.venueOrderId ≠ some v

theorem records_insert_of_free_nil (hfree : b.free = []) (r : OrderRecord) :
    (b.insert r).2.records = b.records ++ [r] := by
  simp [insert, hfree, records]

theorem Consistent.containsClient_eq_false_iff (h : b.Consistent) {c : ClientOrderId} :
    b.containsClient c = false ↔ ∀ s ∈ b.records, s.order.clientOrderId ≠ c := by
  rw [containsClient, Bool.eq_false_iff, ne_eq, KeyMap.contains_iff, ← KeyMap.get?_eq_none_iff]
  constructor
  · intro hnone s hs hc
    obtain ⟨i, hi⟩ := mem_records.mp hs
    have hidx := (h.client c i).mpr (by simp [hi, clientKey, hc])
    rw [hnone] at hidx
    cases hidx
  · intro hno
    cases hi : b.byClient.get? c with
    | none => rfl
    | some i =>
      obtain ⟨s, hs, hsc⟩ := Option.bind_eq_some_iff.mp ((h.client c i).mp hi)
      exact absurd (by simpa [clientKey] using hsc) (hno s (mem_records.mpr ⟨i, hs⟩))

theorem Consistent.venueOwner_eq_none_iff (h : b.Consistent) {v : VenueOrderId} :
    b.venueOwner v none = none ↔ ∀ s ∈ b.records, s.order.venueOrderId ≠ some v := by
  constructor
  · intro hown s hs hsv
    obtain ⟨i, hi⟩ := mem_records.mp hs
    have hidx := (h.venue v i).mpr (by simp [hi, venueKey, hsv])
    rcases h.venueOwner_eq_none hown with hnone | ⟨j, -, hj⟩
    · rw [hnone] at hidx
      cases hidx
    · cases hj
  · intro hno
    have hnone := h.byVenue_eq_none fun j s hs => hno s (mem_records.mpr ⟨j, hs⟩)
    simp [venueOwner, hnone]

theorem Consistent.admits_iff (h : b.Consistent) :
    b.Admits o ↔ b.containsClient o.clientOrderId = false ∧
      ∀ v, o.venueOrderId = some v → b.venueOwner v none = none := by
  simp only [h.containsClient_eq_false_iff, h.venueOwner_eq_none_iff]
  constructor
  · intro hadm
    exact ⟨fun s hs => (hadm s hs).1, fun v hv s hs => (hadm s hs).2 v hv⟩
  · rintro ⟨hc, hv⟩ s hs
    exact ⟨hc s hs, fun v hov => hv v hov s hs⟩

theorem Consistent.insert_of_admits (h : b.Consistent) (hadm : b.Admits o)
    (hc : r.order.clientOrderId = o.clientOrderId) (hv : r.order.venueOrderId = o.venueOrderId) :
    (b.insert r).2.Consistent := by
  obtain ⟨hcl, hown⟩ := h.admits_iff.mp hadm
  refine h.insert (hc ▸ hcl) fun v hrv => ?_
  rcases h.venueOwner_eq_none (hown v (hv ▸ hrv)) with hnone | ⟨_, _, hex⟩
  · exact hnone
  · cases hex

end OrderBook

open OrderBook

namespace Account

/-- The record of a reported order under the instrument views: its quantities on its
instrument's lot grid, shown on that grid. None when the instrument is unknown or a quantity
is off the grid. -/
def reportedRecord (views : KeyMap SecurityId Instrument) (o : Order) : Option OrderRecord := do
  let i ← views.get? o.securityId
  let q ← i.lot.toRaw? o.quantity
  let l ← i.lot.toRaw? o.leavesQuantity
  let c ← i.lot.toRaw? o.cumQuantity
  pure ((OrderRecord.create o q l c).refresh i.lot)

theorem reportedRecord_eq_some {views : KeyMap SecurityId Instrument} {o : Order}
    {r : OrderRecord} :
    reportedRecord views o = some r ↔ ∃ ins q l c, views.get? o.securityId = some ins ∧
      ins.lot.toRaw? o.quantity = some q ∧ ins.lot.toRaw? o.leavesQuantity = some l ∧
      ins.lot.toRaw? o.cumQuantity = some c ∧ r = (OrderRecord.create o q l c).refresh ins.lot := by
  simp only [reportedRecord, Option.bind_eq_bind, Option.bind_eq_some_iff, Option.pure_def,
    Option.some.injEq]
  constructor
  · rintro ⟨ins, hins, q, hq, l, hl, c, hc, rfl⟩
    exact ⟨ins, q, l, c, hins, hq, hl, hc, rfl⟩
  · rintro ⟨ins, q, l, c, hins, hq, hl, hc, rfl⟩
    exact ⟨ins, hins, q, hq, l, hl, c, hc, rfl⟩

theorem reportedRecord_ids {views : KeyMap SecurityId Instrument} {o : Order} {r : OrderRecord}
    (h : reportedRecord views o = some r) :
    r.order.clientOrderId = o.clientOrderId ∧ r.order.venueOrderId = o.venueOrderId := by
  obtain ⟨ins, q, l, c, -, -, -, -, rfl⟩ := reportedRecord_eq_some.mp h
  exact ⟨rfl, rfl⟩

/-- Reported orders that a book can take one after the other: each has a record and the book
admits it, and no two share a client id or a venue id. -/
structure Storable (views : KeyMap SecurityId Instrument) (b : OrderBook) (os : List Order) :
    Prop where
  record : ∀ o ∈ os, (reportedRecord views o).isSome
  admits : ∀ o ∈ os, b.Admits o
  clients : (os.map (·.clientOrderId)).Nodup
  venues : (os.filterMap (·.venueOrderId)).Nodup

theorem Storable.nil (views : KeyMap SecurityId Instrument) (b : OrderBook) :
    Storable views b [] :=
  ⟨fun _ h => (by cases h), fun _ h => (by cases h), List.nodup_nil, List.nodup_nil⟩

theorem Storable.perm {views : KeyMap SecurityId Instrument} {b : OrderBook} {os os' : List Order}
    (h : Storable views b os) (hp : os.Perm os') : Storable views b os' where
  record o ho := h.record o (hp.mem_iff.mpr ho)
  admits o ho := h.admits o (hp.mem_iff.mpr ho)
  clients := (hp.map _).nodup_iff.mp h.clients
  venues := (hp.filterMap _).nodup_iff.mp h.venues

theorem storable_cons {views : KeyMap SecurityId Instrument} {b : OrderBook} {o : Order}
    {os : List Order} {r : OrderRecord} (hr : reportedRecord views o = some r)
    (hfree : b.free = []) :
    Storable views b (o :: os) ↔ b.Admits o ∧ Storable views (b.insert r).2 os := by
  obtain ⟨hc, hv⟩ := reportedRecord_ids hr
  have hmem : ∀ s, s ∈ (b.insert r).2.records ↔ s ∈ b.records ∨ s = r := by
    simp [records_insert_of_free_nil hfree]
  constructor
  · intro hs
    have hcl := List.nodup_cons.mp hs.clients
    refine ⟨hs.admits o List.mem_cons_self,
      ⟨fun o' ho' => hs.record o' (List.mem_cons_of_mem o ho'), fun o' ho' s hs' => ?_, hcl.2,
        (List.Sublist.filterMap _ (List.sublist_cons_self o os)).nodup hs.venues⟩⟩
    rcases (hmem s).mp hs' with hs' | rfl
    · exact hs.admits o' (List.mem_cons_of_mem o ho') s hs'
    · refine ⟨fun hcid => hcl.1 (List.mem_map.mpr ⟨o', ho', by rw [← hcid, hc]⟩),
        fun v hv' hsv => ?_⟩
      rw [hv] at hsv
      have hvn := hs.venues
      rw [List.filterMap_cons_some hsv, List.nodup_cons] at hvn
      exact hvn.1 (List.mem_filterMap.mpr ⟨o', ho', hv'⟩)
  · rintro ⟨hadm, hs⟩
    have hr' : r ∈ (b.insert r).2.records := (hmem r).mpr (.inr rfl)
    refine ⟨fun o' ho' => ?_, fun o' ho' => ?_, ?_, ?_⟩
    · rcases List.mem_cons.mp ho' with rfl | ho'
      · simp [hr]
      · exact hs.record o' ho'
    · rcases List.mem_cons.mp ho' with rfl | ho'
      · exact hadm
      · exact fun s hs' => hs.admits o' ho' s ((hmem s).mpr (.inl hs'))
    · refine List.nodup_cons.mpr ⟨fun hm => ?_, hs.clients⟩
      obtain ⟨o', ho', hcid⟩ := List.mem_map.mp hm
      exact (hs.admits o' ho' r hr').1 (by rw [hc, hcid])
    · cases hvo : o.venueOrderId with
      | none =>
        rw [List.filterMap_cons_none hvo]
        exact hs.venues
      | some v =>
        rw [List.filterMap_cons_some hvo]
        refine List.nodup_cons.mpr ⟨fun hm => ?_, hs.venues⟩
        obtain ⟨o', ho', hv'⟩ := List.mem_filterMap.mp hm
        exact (hs.admits o' ho' r hr').2 v hv' (by rw [hv, hvo])

/-- What one step of rebuilding a book from reported orders does: on a consistent book it fails
unless the order has a record that the book admits, and then it stores that record. -/
structure StoresReported (views : KeyMap SecurityId Instrument)
    (f : OrderBook → Order → Except LedgerError OrderBook) : Prop where
  stores : ∀ b o b', b.Consistent → f b o = .ok b' →
    ∃ r, reportedRecord views o = some r ∧ b.Admits o ∧ b' = (b.insert r).2
  total : ∀ b o r, b.Consistent → reportedRecord views o = some r → b.Admits o →
    f b o = .ok (b.insert r).2

/-- Storing reported orders one after the other into a consistent book with no free slot
succeeds exactly when they are storable, and appends their records in their order. -/
theorem foldlM_storesReported {views : KeyMap SecurityId Instrument}
    {f : OrderBook → Order → Except LedgerError OrderBook} (hf : StoresReported views f) :
    ∀ (os : List Order) (b : OrderBook), b.Consistent → b.free = [] →
      ((∃ b', os.foldlM f b = .ok b') ↔ Storable views b os) ∧
      ∀ b', os.foldlM f b = .ok b' → b'.records = b.records ++ os.filterMap (reportedRecord views)
  | [], b, _, _ => ⟨⟨fun _ => Storable.nil views b, fun _ => ⟨b, rfl⟩⟩, fun b' h => by
      cases h
      simp⟩
  | o :: os, b, hb, hfree => by
    rw [List.foldlM_cons]
    cases hr : reportedRecord views o with
    | none =>
      have hfail : ∀ b', f b o ≠ .ok b' := fun b' hstep => by
        obtain ⟨r, hr', -⟩ := hf.stores b o b' hb hstep
        rw [hr] at hr'
        cases hr'
      cases hstep : f b o with
      | ok b₁ => exact absurd hstep (hfail b₁)
      | error e =>
        refine ⟨⟨fun ⟨_, h⟩ => (by cases h), fun hs => ?_⟩, fun _ h => by cases h⟩
        have := hs.record o List.mem_cons_self
        rw [hr] at this
        cases this
    | some r =>
      obtain ⟨hc, hv⟩ := reportedRecord_ids hr
      by_cases hadm : b.Admits o
      · have hb₁ := hb.insert_of_admits hadm hc hv
        obtain ⟨ih₁, ih₂⟩ := foldlM_storesReported hf os (b.insert r).2 hb₁ (by simp [hfree])
        rw [hf.total b o r hb hr hadm]
        refine ⟨?_, fun b' h => ?_⟩
        · show (∃ b', os.foldlM f (b.insert r).2 = .ok b') ↔ _
          rw [ih₁, storable_cons hr hfree]
          exact ⟨fun h => ⟨hadm, h⟩, fun h => h.2⟩
        · rw [ih₂ b' h, records_insert_of_free_nil hfree, List.filterMap_cons_some hr,
            List.append_assoc, List.singleton_append]
      · have hfail : ∀ b', f b o ≠ .ok b' := fun b' hstep =>
          hadm (hf.stores b o b' hb hstep).choose_spec.2.1
        cases hstep : f b o with
        | ok b₁ => exact absurd hstep (hfail b₁)
        | error e =>
          refine ⟨⟨fun ⟨_, h⟩ => (by cases h), fun hs => absurd (hs.admits o List.mem_cons_self) hadm⟩,
            fun _ h => by cases h⟩

theorem rebuildOrders_storable (views : KeyMap SecurityId Instrument) (os : List Order) :
    ((∃ b, rebuildOrders views os = .ok b) ↔ Storable views .empty os) ∧
      ∀ b, rebuildOrders views os = .ok b →
        b.records = OrderBook.empty.records ++ os.filterMap (reportedRecord views) := by
  unfold rebuildOrders
  have hthrow : ∀ {γ : Type} (e : LedgerError), (throw e : Except LedgerError γ) = .error e :=
    fun _ => rfl
  refine foldlM_storesReported ⟨fun b o b' hb hF => ?_, fun b o r hb hr hadm => ?_⟩ os _
    Consistent.empty rfl
  · cases hc : b.containsClient o.clientOrderId with
    | true => simp [hc, hthrow, bind, Except.bind] at hF
    | false =>
    have hown : ∀ v, o.venueOrderId = some v → b.venueOwner v none = none := by
      intro v hv
      cases hw : b.venueOwner v none with
      | none => rfl
      | some w => simp [hc, hv, hw, hthrow, bind, Except.bind] at hF
    obtain ⟨ins, hins⟩ : ∃ ins, views.get? o.securityId = some ins := by
      cases hins : views.get? o.securityId with
      | some ins => exact ⟨ins, rfl⟩
      | none =>
        cases hv : o.venueOrderId <;> simp [hc, hv, hown, hins, hthrow, bind, Except.bind] at hF
    obtain ⟨q, hq⟩ : ∃ q, ins.lot.toRaw? o.quantity = some q := by
      cases hq : ins.lot.toRaw? o.quantity with
      | some q => exact ⟨q, rfl⟩
      | none =>
        cases hv : o.venueOrderId <;>
          simp [hc, hv, hown, hins, hq, hthrow, bind, Except.bind, pure, Except.pure] at hF
    obtain ⟨l, hl⟩ : ∃ l, ins.lot.toRaw? o.leavesQuantity = some l := by
      cases hl : ins.lot.toRaw? o.leavesQuantity with
      | some l => exact ⟨l, rfl⟩
      | none =>
        cases hv : o.venueOrderId <;>
          simp [hc, hv, hown, hins, hq, hl, hthrow, bind, Except.bind, pure, Except.pure] at hF
    obtain ⟨c, hcum⟩ : ∃ c, ins.lot.toRaw? o.cumQuantity = some c := by
      cases hcum : ins.lot.toRaw? o.cumQuantity with
      | some c => exact ⟨c, rfl⟩
      | none =>
        cases hv : o.venueOrderId <;>
          simp [hc, hv, hown, hins, hq, hl, hcum, hthrow, bind, Except.bind, pure, Except.pure] at hF
    refine ⟨_, reportedRecord_eq_some.mpr ⟨ins, q, l, c, hins, hq, hl, hcum, rfl⟩,
      hb.admits_iff.mpr ⟨hc, hown⟩, ?_⟩
    cases hv : o.venueOrderId <;>
      simp [hc, hv, hown, hins, hq, hl, hcum, bind, Except.bind, pure, Except.pure] at hF <;>
      exact hF.symm
  · obtain ⟨ins, q, l, c, hins, hq, hl, hcum, rfl⟩ := reportedRecord_eq_some.mp hr
    obtain ⟨hc, hown⟩ := hb.admits_iff.mp hadm
    cases hv : o.venueOrderId with
    | none => simp [hc, hins, hq, hl, hcum, bind, Except.bind, pure, Except.pure]
    | some v => simp [hc, hown v hv, hins, hq, hl, hcum, bind, Except.bind, pure, Except.pure]

end Account

/-! ## Each part of a snapshot, its list in another order -/

namespace SyncInput

/-- Two snapshots of the same securities, orders, positions and balances, each list perhaps in
another order, with the same fee rates. -/
structure Reordered (x x' : SyncInput) : Prop where
  securities : x.securities.Perm x'.securities
  orders : x.orders.Perm x'.orders
  positions : x.positions.Perm x'.positions
  balances : x.balances.Perm x'.balances
  makerFee : x.makerFee = x'.makerFee
  takerFee : x.takerFee = x'.takerFee

theorem Reordered.withFees_eq {x x' : SyncInput} (h : x.Reordered x') :
    x.withFees = x'.withFees := by
  funext i
  simp only [withFees, h.makerFee, h.takerFee]

def reversed (x : SyncInput) : SyncInput :=
  { x with securities := x.securities.reverse, orders := x.orders.reverse,
           positions := x.positions.reverse, balances := x.balances.reverse }

theorem reordered_reversed (x : SyncInput) : x.Reordered x.reversed :=
  ⟨(List.reverse_perm _).symm, (List.reverse_perm _).symm, (List.reverse_perm _).symm,
    (List.reverse_perm _).symm, rfl, rfl⟩

end SyncInput

namespace Account

variable {a : Account} {x x' : SyncInput}

theorem rebuildInstruments_reordered (a : Account) (hx : x.Reordered x')
    (hsec : (x.securities.map (·.securityId)).Nodup) :
    ExceptRel (fun _ _ => True) (fun v v' : KeyMap SecurityId Instrument => ∀ sid, v.get? sid = v'.get? sid)
      (a.rebuildInstruments x) (a.rebuildInstruments x') := by
  rw [rebuildInstruments_eq, rebuildInstruments_eq, hx.withFees_eq]
  unfold SyncInput.instruments
  refine (mapM_perm hx.securities).map fun qs qs' hqs _ hperm sid => ?_
  have hkeys : (qs.map (·.1.securityId)).Nodup := by
    rw [← (mapM_pair_ok hqs).1, List.map_map] at hsec
    exact hsec
  simp only [KeyMap.get?_mapValues, KeyMap.get?_upsertAll (KeyMap.absorbs_const _),
    KeyMap.lastOf_perm hperm hkeys sid]

theorem rebuildOrders_reordered {v v' : KeyMap SecurityId Instrument} {os os' : List Order}
    (hv : ∀ sid, v.get? sid = v'.get? sid) (hp : os.Perm os') :
    ExceptRel (fun _ _ => True) (fun b b' : OrderBook => b.records.Perm b'.records)
      (rebuildOrders v os) (rebuildOrders v' os') := by
  rw [rebuildOrders_congr fun o _ => hv o.securityId]
  obtain ⟨hok, hrec⟩ := rebuildOrders_storable v' os
  obtain ⟨hok', hrec'⟩ := rebuildOrders_storable v' os'
  refine ExceptRel.of_iff ⟨fun h => hok'.mpr ((hok.mp h).perm hp),
    fun h => hok.mpr ((hok'.mp h).perm hp.symm)⟩ fun b b' hb hb' => ?_
  rw [hrec b hb, hrec' b' hb']
  exact (hp.filterMap _).append_left _

/-- Reported positions in another order are checked alike, and merged from the same checked
reports in that other order. -/
theorem rebuildPositions_reordered (a : Account) {v v' : KeyMap SecurityId Instrument}
    (hv : ∀ sid, v.get? sid = v'.get? sid) {ps ps' : List VenuePosition} (hp : ps.Perm ps') :
    ExceptRel (fun _ _ => True) (fun P P' => ∃ qs qs' : List (VenuePosition × Int64 × Int64),
        P = KeyMap.upsertAll (·.1.securityId) Position.merge
          (a.positions.mapValues Position.reset) qs ∧
        P' = KeyMap.upsertAll (·.1.securityId) Position.merge
          (a.positions.mapValues Position.reset) qs' ∧
        qs.map Prod.fst = ps ∧ qs.Perm qs')
      (a.rebuildPositions v ps) (a.rebuildPositions v' ps') := by
  have hsame : ps'.mapM (fun p => (p, ·) <$> a.reportedPosition v' p) =
      ps'.mapM (fun p => (p, ·) <$> a.reportedPosition v p) :=
    mapM_congr_of_mem fun p _ => by
      rw [reportedPosition_agree (a := a) (b := a) rfl rfl (hv p.securityId)]
  rw [rebuildPositions_eq, rebuildPositions_eq, hsame]
  exact (mapM_perm hp).map fun qs qs' hqs _ hperm =>
    ⟨qs, qs', rfl, rfl, (mapM_pair_ok hqs).1, hperm⟩

theorem reportedMargin_asset {r : VenueBalance} {m : Int64}
    (h : a.reportedMargin r = .ok (some m)) : r.asset = a.config.marginCurrency := by
  have hv := (reportedMargin_ok h).2
  by_contra hne
  rw [if_neg hne] at hv
  cases hv

theorem rebuildBalances_reordered (a : Account) {bs bs' : List VenueBalance} (hp : bs.Perm bs') :
    ExceptRel (fun _ _ => True) (fun B B' : Balances × Int64 => (bs.map (·.asset)).Nodup →
        (∀ asset, B.1.get asset = B'.1.get asset) ∧ B.2 = B'.2)
      (a.rebuildBalances bs) (a.rebuildBalances bs') := by
  rw [rebuildBalances_eq, rebuildBalances_eq]
  refine (mapM_perm hp).map fun qs qs' hqs _ hperm hnd => ?_
  have hkeys : (qs.map (·.1.asset)).Nodup := by
    rw [← (mapM_pair_ok hqs).1, List.map_map] at hnd
    exact hnd
  refine ⟨fun asset => ?_, ?_⟩
  · simp only [Balances.get, KeyMap.get?_upsertAll (KeyMap.absorbs_const _),
      KeyMap.lastOf_perm hperm hkeys asset]
  · have hone : ∀ q ∈ qs.reverse, ∀ q' ∈ qs.reverse, q.2.isSome → q'.2.isSome → q = q' := by
      intro q hq q' hq' hs hs'
      rw [List.mem_reverse] at hq hq'
      obtain ⟨m, hm⟩ := Option.isSome_iff_exists.mp hs
      obtain ⟨m', hm'⟩ := Option.isSome_iff_exists.mp hs'
      have hcur : q.1.asset = a.config.marginCurrency :=
        reportedMargin_asset (hm ▸ (mapM_pair_ok hqs).2 q hq)
      have hcur' : q'.1.asset = a.config.marginCurrency :=
        reportedMargin_asset (hm' ▸ (mapM_pair_ok hqs).2 q' hq')
      exact List.inj_on_of_nodup_map hkeys hq hq' (hcur.trans hcur'.symm)
    show (qs.reverse.findSome? (·.2)).getD a.margin = (qs'.reverse.findSome? (·.2)).getD a.margin
    rw [findSome?_perm_of_subsingleton
      ((List.reverse_perm qs).trans (hperm.trans (List.reverse_perm qs').symm)) hone]

/-- What a snapshot and the same snapshot with its lists in another order rebuild alike. -/
structure RebuiltAlike (a : Account) (x : SyncInput) (r₁ r₂ : Rebuilt) : Prop where
  views : ∀ sid, r₁.views.get? sid = r₂.views.get? sid
  orders : r₁.orders.records.Perm r₂.orders.records
  consistent : r₁.orders.Consistent ∧ r₂.orders.Consistent
  positions : ∃ qs qs' : List (VenuePosition × Int64 × Int64),
    r₁.positions = KeyMap.upsertAll (·.1.securityId) Position.merge
      (a.positions.mapValues Position.reset) qs ∧
    r₂.positions = KeyMap.upsertAll (·.1.securityId) Position.merge
      (a.positions.mapValues Position.reset) qs' ∧
    qs.map Prod.fst = x.positions ∧ qs.Perm qs'
  balances : (x.balances.map (·.asset)).Nodup →
    (∀ asset, r₁.balances.get asset = r₂.balances.get asset) ∧ r₁.margin = r₂.margin

theorem rebuilt_reordered (a : Account) (hx : x.Reordered x')
    (hsec : (x.securities.map (·.securityId)).Nodup) :
    ExceptRel (fun _ _ => True) (RebuiltAlike a x) (a.rebuilt x) (a.rebuilt x') := by
  unfold rebuilt
  refine (rebuildInstruments_reordered a hx hsec).bind fun v v' _ _ hv => ?_
  refine (rebuildOrders_reordered hv hx.orders).bind fun b b' hb hb' hrec => ?_
  refine (rebuildPositions_reordered a hv hx.positions).bind fun P P' _ _ hP => ?_
  refine (rebuildBalances_reordered a hx.balances).bind fun B B' _ _ hB => ?_
  obtain ⟨B₁, B₂⟩ := B
  obtain ⟨B₁', B₂'⟩ := B'
  exact .ok ⟨hv, hrec, ⟨rebuildOrders_consistent hb, rebuildOrders_consistent hb'⟩, hP, hB⟩

end Account

/-! ## What the queries show -/

namespace OrderBook

theorem Consistent.find?_eq_of_perm {b₁ b₂ : OrderBook} (h₁ : b₁.Consistent) (h₂ : b₂.Consistent)
    (hp : b₁.records.Perm b₂.records) (ref : OrderRef) : b₁.find? ref = b₂.find? ref := by
  refine Option.ext fun r => ?_
  cases ref with
  | client c =>
    rw [h₁.find?_client, h₂.find?_client, hp.mem_iff]
  | venue v =>
    rw [h₁.find?_venue, h₂.find?_venue, exists_and_right, exists_and_right, ← mem_records,
      ← mem_records, hp.mem_iff]

end OrderBook

namespace Account

variable {a : Account} {x : SyncInput}

theorem ordersMatching_eq_of_perm {a₁ a₂ : Account} (h₁ : a₁.orders.ClientConsistent)
    (hp : (a₁.orders.records.map (·.order)).Perm (a₂.orders.records.map (·.order)))
    (f : Option OrderFilter) : a₁.ordersMatching f = a₂.ordersMatching f := by
  unfold ordersMatching
  have hle_trans : ∀ x y z : Order, decide (x.clientOrderId ≤ y.clientOrderId) = true →
      decide (y.clientOrderId ≤ z.clientOrderId) = true →
      decide (x.clientOrderId ≤ z.clientOrderId) = true := by
    intro x y z hxy hyz
    simp only [decide_eq_true_eq] at hxy hyz ⊢
    exact String.le_trans hxy hyz
  have hle_total : ∀ x y : Order,
      (decide (x.clientOrderId ≤ y.clientOrderId) || decide (y.clientOrderId ≤ x.clientOrderId)) =
        true := by
    intro x y
    simp only [Bool.or_eq_true, decide_eq_true_eq]
    exact String.le_total _ _
  refine List.Perm.eq_of_pairwise (fun o o' ho ho' hle hge => ?_)
    (List.pairwise_mergeSort hle_trans hle_total _) (List.pairwise_mergeSort hle_trans hle_total _)
    ((List.mergeSort_perm _ _).trans ((hp.filter _).trans (List.mergeSort_perm _ _).symm))
  simp only [decide_eq_true_eq] at hle hge
  obtain ⟨r, hr, rfl⟩ := List.mem_map.mp (List.mem_filter.mp (List.mem_mergeSort.mp ho)).1
  obtain ⟨s, hs, rfl⟩ := List.mem_map.mp
    (hp.mem_iff.mpr (List.mem_filter.mp (List.mem_mergeSort.mp ho')).1)
  obtain ⟨i, hi⟩ := OrderBook.mem_records.mp hr
  obtain ⟨j, hj⟩ := OrderBook.mem_records.mp hs
  obtain rfl := h₁.eq_of_clientOrderId hi hj (String.le_antisymm hle hge)
  rw [hi, Option.some.injEq] at hj
  rw [hj]

/-- The open positions merged from reports whose last report of each security is the same, in
an account whose positions are filed under their ids. -/
theorem openPositions_reordered (ha : a.Coherent) {r₁ r₂ : Rebuilt}
    {qs qs' : List (VenuePosition × Int64 × Int64)}
    (h₁ : r₁.positions = KeyMap.upsertAll (·.1.securityId) Position.merge
      (a.positions.mapValues Position.reset) qs)
    (h₂ : r₂.positions = KeyMap.upsertAll (·.1.securityId) Position.merge
      (a.positions.mapValues Position.reset) qs')
    (hlast : ∀ sid, KeyMap.lastOf (·.1.securityId) sid qs = KeyMap.lastOf (·.1.securityId) sid qs') :
    (a.withRebuilt r₁).openPositions = (a.withRebuilt r₂).openPositions := by
  show (r₁.positions.values.filter _).mergeSort _ = (r₂.positions.values.filter _).mergeSort _
  rw [h₁, h₂]
  apply mergeSort_bySecurity_eq
  · exact (ha.filed.reset.upsertAll qs).values_nodup.filter _
  · exact (ha.filed.reset.upsertAll qs').values_nodup.filter _
  · intro p
    rw [mem_open_merged ha.filed, mem_open_merged ha.filed, hlast]
  · intro p hp q hq hpq
    obtain ⟨-, q₁, hl₁, rfl⟩ := (mem_open_merged ha.filed qs p).mp hp
    obtain ⟨-, q₂, hl₂, rfl⟩ := (mem_open_merged ha.filed qs' q).mp hq
    rw [hpq, hlast, hl₂, Option.some.injEq] at hl₁
    rw [hl₁]

/-- What a snapshot and the same snapshot with its lists in another order leave alike, as the
queries show it: the instruments and the orders always; the positions, the balances and the
margin where the snapshot reports each security and each asset once. -/
structure ReorderedAlike (x : SyncInput) (a₁ a₂ : Account) : Prop where
  instruments : ∀ sid, a₁.instrument? sid = a₂.instrument? sid
  orders : ∀ f, a₁.query (.orders f) = a₂.query (.orders f)
  order : ∀ ref, a₁.query (.order ref) = a₂.query (.order ref)
  positions : (x.positions.map (·.securityId)).Nodup →
    (∀ sid, a₁.positions.get? sid = a₂.positions.get? sid) ∧
      a₁.query .positions = a₂.query .positions
  balances : (x.balances.map (·.asset)).Nodup →
    (∀ asset, a₁.balances.get asset = a₂.balances.get asset) ∧ a₁.query .margin = a₂.query .margin

theorem reorderedAlike_withRebuilt (ha : a.Coherent) {r₁ r₂ : Rebuilt}
    (h : RebuiltAlike a x r₁ r₂) : ReorderedAlike x (a.withRebuilt r₁) (a.withRebuilt r₂) where
  instruments := h.views
  orders f := by
    have hlist : (a.withRebuilt r₁).ordersMatching f = (a.withRebuilt r₂).ordersMatching f :=
      ordersMatching_eq_of_perm h.consistent.1.toClientConsistent (h.orders.map _) f
    simp only [query, hlist]
  order ref := by
    have hfind : (a.withRebuilt r₁).orders.find? ref = (a.withRebuilt r₂).orders.find? ref :=
      h.consistent.1.find?_eq_of_perm h.consistent.2 h.orders ref
    simp only [query, order?, hfind]
  positions hnd := by
    obtain ⟨qs, qs', h₁, h₂, hfst, hperm⟩ := h.positions
    have hkeys : (qs.map (·.1.securityId)).Nodup := by
      rw [← hfst, List.map_map] at hnd
      exact hnd
    have hlast := KeyMap.lastOf_perm hperm hkeys
    refine ⟨fun sid => ?_, ?_⟩
    · show r₁.positions.get? sid = r₂.positions.get? sid
      rw [h₁, h₂, KeyMap.get?_upsertAll Position.merge_absorbs,
        KeyMap.get?_upsertAll Position.merge_absorbs, hlast]
    · have hview : (a.withRebuilt r₁).positionView? = (a.withRebuilt r₂).positionView? := by
        funext p
        show (r₁.views.get? p.securityId).map _ = (r₂.views.get? p.securityId).map _
        rw [h.views p.securityId, withRebuilt_marginGrid, withRebuilt_marginGrid]
      simp only [query, positionViews, openPositions_reordered ha h₁ h₂ hlast, hview]
  balances hnd := by
    refine ⟨(h.balances hnd).1, ?_⟩
    show Except.ok (Response.value (a.marginGrid.fromRaw r₁.margin)) =
      Except.ok (Response.value (a.marginGrid.fromRaw r₂.margin))
    rw [(h.balances hnd).2]

/-- A snapshot with its lists in another order, of a snapshot that lists each security once, is
taken exactly when the snapshot is. Then it leaves the same instruments and the same orders as
the queries show them, and, where the snapshot reports each security's position and each asset's
balance once, the same positions, balances and margin. -/
theorem Reachable.sync_ignores_list_order {x' : SyncInput} (ha : a.Reachable)
    (hx : x.Reordered x') (hsec : (x.securities.map (·.securityId)).Nodup) :
    ∃ a₁ a₂ resp₁ resp₂, a.handle (.sync x) = .ok (a₁, resp₁) ∧
      a.handle (.sync x') = .ok (a₂, resp₂) ∧ (resp₁ = .done ↔ resp₂ = .done) ∧
      (resp₁ = .done → ReorderedAlike x a₁ a₂) := by
  rw [handle_sync_eq, handle_sync_eq]
  have hrel := rebuilt_reordered a hx hsec
  generalize a.rebuilt x = m₁ at hrel ⊢
  generalize a.rebuilt x' = m₂ at hrel ⊢
  cases hrel with
  | error _ =>
    exact ⟨a, a, _, _, rfl, rfl, iff_of_false (by simp) (by simp), fun h => by cases h⟩
  | ok h => exact ⟨_, _, _, _, rfl, rfl, Iff.rfl, fun _ => reorderedAlike_withRebuilt ha.coherent h⟩

end Account

namespace Sample

def sellHalfEth : Order :=
  Order.limit "b" 2 .sell (Decimal.ofParts false 5 1) (Decimal.ofParts false 2000 0) .gtc 0

def twoPerpetuals : SyncInput :=
  ⟨[Security.btcusdPerp, Security.ethusdtPerp],
    [{ buyTen with venueOrderId := some "v", status := .new }, sellHalfEth],
    [⟨⟨"binance", "main"⟩, 1, Decimal.ofParts false 3 0, Decimal.ofParts false 2 2, false⟩,
     ⟨⟨"binance", "main"⟩, 2, Decimal.ofParts true 5 1, Decimal.ofParts false 1 2, true⟩],
    [⟨⟨"binance", "main"⟩, "BTC", Decimal.ofParts false 5 0⟩,
     ⟨⟨"binance", "main"⟩, "USDT", Decimal.ofParts false 100 0⟩], none, none⟩

end Sample

/-- The snapshot of both perpetuals, taken by a fresh account, and the same snapshot with every
list reversed leave the same account as the queries show it. -/
theorem two_perpetuals_reversed_alike :
    ∃ a, Sample.session [] = some a ∧
      Sample.twoPerpetuals.Reordered Sample.twoPerpetuals.reversed ∧
      (Sample.twoPerpetuals.securities.map (·.securityId)).Nodup ∧
      (∃ a₁, a.handle (.sync Sample.twoPerpetuals) = .ok (a₁, .done)) ∧
      ∃ a₁ a₂ resp₁ resp₂, a.handle (.sync Sample.twoPerpetuals) = .ok (a₁, resp₁) ∧
        a.handle (.sync Sample.twoPerpetuals.reversed) = .ok (a₂, resp₂) ∧
        (resp₁ = .done ↔ resp₂ = .done) ∧
        (resp₁ = .done → Account.ReorderedAlike Sample.twoPerpetuals a₁ a₂) := by
  have hs : Sample.session [] = some _ := rfl
  exact ⟨_, hs, SyncInput.reordered_reversed _, by decide, ⟨_, rfl⟩,
    Account.Reachable.sync_ignores_list_order (.of_session hs) (SyncInput.reordered_reversed _)
      (by decide)⟩

namespace Sample

def btcusdAlt : Security := { Security.btcusdPerp with symbol := "BTCUSD_ALT" }

def twiceReported : SyncInput :=
  ⟨[Security.btcusdPerp, btcusdAlt], [],
    [⟨⟨"binance", "main"⟩, 1, Decimal.ofParts false 3 0, Decimal.ofParts false 2 2, false⟩,
     ⟨⟨"binance", "main"⟩, 1, Decimal.ofParts false 5 0, Decimal.ofParts false 3 2, false⟩],
    [⟨⟨"binance", "main"⟩, "BTC", Decimal.ofParts false 1 0⟩,
     ⟨⟨"binance", "main"⟩, "BTC", Decimal.ofParts false 2 0⟩], none, none⟩

end Sample

/-- A snapshot that names a security, a position and a balance twice is taken in either order of
its lists, and what it leaves depends on the order: the last listing, position report and balance
of each key win, so the margin, the position's size and the instrument's symbol all differ. -/
theorem twice_reported_snapshot_depends_on_order :
    ∃ a a₁ a₂, Sample.session [] = some a ∧
      Sample.twiceReported.Reordered Sample.twiceReported.reversed ∧
      a.handle (.sync Sample.twiceReported) = .ok (a₁, .done) ∧
      a.handle (.sync Sample.twiceReported.reversed) = .ok (a₂, .done) ∧
      a₁.margin = 200000000 ∧ a₂.margin = 100000000 ∧
      (a₁.positions.get? 1).map (·.rawSize) = some 5 ∧
      (a₂.positions.get? 1).map (·.rawSize) = some 3 ∧
      (a₁.instrument? 1).map (·.security.symbol) = some "BTCUSD_ALT" ∧
      (a₂.instrument? 1).map (·.security.symbol) = some "BTCUSD_PERP" :=
  ⟨_, _, _, rfl, SyncInput.reordered_reversed _, rfl, rfl, rfl, rfl, rfl, rfl, rfl, rfl⟩

end TradeLedger
