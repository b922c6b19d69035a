import TradeLedger.Proofs.SnapshotOrder
import TradeLedger.Proofs.FillShapes
import TradeLedger.Proofs.EventTrace
import TradeLedger.Snapshot

/-!
# Taking an account's own snapshot back

A snapshot of an account lists its orders, its open positions in decimal units and its balances.
Handed back to the account as a venue snapshot, with no securities and no fee rates, it is taken,
and it changes nothing that it reports: every order keeps its ids, status, side, price and raw
counts, every position its raw size, cost and margin mode, every asset its balance.

Three facts make it so. The decimal units round-trip exactly: a raw amount shown on a grid and
read back is the amount (`Precision.toRaw?_fromRaw`), and every record shows its raw counts on the
lot grid of its instrument. Each position is of a known instrument, so the snapshot lists every
open one, and a flat one carries no cost, so resetting it changes nothing. No asset has two
balances, so setting each listed balance gives it back. Two things can still make the snapshot
refused: two live orders that carry one venue id, which placing an order does not prevent, and a
balance in the margin currency beyond the margin grid's range, which a spot fill can reach.
-/

namespace TradeLedger

/-! ## Records shown on their lot grid -/

namespace OrderRecord

/-- A record shows its raw counts on the lot grid of its instrument. -/
def ShownOn (ins : KeyMap SecurityId Instrument) (r : OrderRecord) : Prop :=
  ∃ inst, ins.get? r.order.securityId = some inst ∧
    r.order.quantity = inst.lot.fromRaw r.rawQuantity ∧
    r.order.leavesQuantity = inst.lot.fromRaw r.rawLeaves ∧
    r.order.cumQuantity = inst.lot.fromRaw r.rawCum

theorem shownOn_refresh {ins : KeyMap SecurityId Instrument} {r : OrderRecord} {inst : Instrument}
    (h : ins.get? r.order.securityId = some inst) : (r.refresh inst.lot).ShownOn ins :=
  ⟨inst, h, rfl, rfl, rfl⟩

end OrderRecord

theorem shownOn_invariant : RecordInvariant OrderRecord.ShownOn where
  move ins r f inst hinst hf _ := OrderRecord.shownOn_refresh (r := f r) (by
    rw [show (f r).order.securityId = r.order.securityId from (hf.keys inst.lot).2.2]
    exact hinst)
  claim _ _ _ := fun ⟨inst, h, hq, hl, hc⟩ => ⟨inst, h, hq, hl, hc⟩

namespace Account

variable {a a' : Account} {allowed : Account → Command → Prop}

theorem ReachableUnder.recordsShown (h : a.ReachableUnder allowed) :
    a.EveryRecord OrderRecord.ShownOn := by
  induction h with
  | create hc =>
    intro i r hr
    simp [(create_orders hc).1] at hr
  | step hreach _ hstep ih =>
    have hwf := ReachableUnder.wellFormed hreach
    exact shownOn_invariant.effect hwf.free ih (handle_handled hwf.known hstep).effect
      (fun _ t _ _ _ _ r ins n cum _ _ _ hins _ _ _ => OrderRecord.shownOn_refresh (by
        rw [show (r.fill t (Int64.ofInt (r.rawLeaves.toInt - n.toInt)) cum).order.securityId =
          r.order.securityId from (r.fill_keys t _ cum ins.lot).2.2]
        exact hins))
      (fun _ _ _ _ _ _ hins _ => OrderRecord.shownOn_refresh hins)
      (fun _ _ _ _ _ hb i r hr => by
        obtain ⟨_, _, ins, _, _, _, hins, _, _, _, rfl⟩ := (rebuildOrders_records hb).2 i r hr
        exact OrderRecord.shownOn_refresh hins)

end Account

/-! ## Positions of known instruments, one balance per asset -/

theorem KeyMap.Distinct.upsertAll {κ ν α : Type} [DecidableEq κ] {m : KeyMap κ ν} (h : m.Distinct)
    (key : α → κ) (upd : α → Option ν → ν) (ps : List α) :
    (KeyMap.upsertAll key upd m ps).Distinct := by
  induction ps generalizing m with
  | nil => exact h
  | cons p ps ih =>
    rw [KeyMap.upsertAll_cons]
    exact ih (h.insert _ _)

namespace Account

variable {a a' : Account} {allowed : Account → Command → Prop}

/-- What taking an account's own snapshot back relies on: each position is of a known
instrument, and no asset has two balances. -/
structure Exportable (a : Account) : Prop where
  positions : ∀ e ∈ a.positions.entries, ∃ i, a.instruments.get? e.1 = some i
  balances : a.balances.entries.Distinct

theorem exportable_of_create {id : AccountId} {config : Config}
    (h : Account.create id config = .ok a) : a.Exportable := by
  unfold Account.create at h
  split at h
  · cases h
  · split at h
    · cases h
    · cases h
      exact ⟨fun e he => (by cases he), KeyMap.distinct_empty⟩

theorem rebuildInstruments_get?_some {x : SyncInput} {views : KeyMap SecurityId Instrument}
    (hv : a.rebuildInstruments x = .ok views) {k : SecurityId} {i : Instrument}
    (hi : a.instruments.get? k = some i) : ∃ i', views.get? k = some i' := by
  rw [rebuildInstruments_eq] at hv
  cases hx : x.instruments with
  | error e => simp [hx] at hv
  | ok qs =>
    simp only [hx, Functor.map, Except.map, Except.ok.injEq] at hv
    rw [← hv, KeyMap.get?_mapValues, KeyMap.get?_upsertAll (KeyMap.absorbs_const _)]
    cases KeyMap.lastOf (·.1.securityId) k qs with
    | some q => exact ⟨_, rfl⟩
    | none => exact ⟨_, by rw [hi]; rfl⟩

theorem reportedPosition_known {views : KeyMap SecurityId Instrument} {p : VenuePosition}
    {v : Int64 × Int64} (h : a.reportedPosition views p = .ok v) :
    ∃ i, views.get? p.securityId = some i := by
  obtain ⟨size, cost⟩ := v
  obtain ⟨-, i, hi, -⟩ := reportedPosition_ok h
  exact ⟨i, hi⟩

open AccountM

theorem keeps_settleSpot_exportable (sid : SecurityId) (side : Side) (price quantity : Decimal)
    (taker : Bool) : Keeps Exportable (settleSpot sid side price quantity taker) := by
  intro a x a' ha h
  rcases settleSpot_cases h with ⟨-, -, rfl⟩ | ⟨ins, s, b, -, hsb, -, rfl⟩
  · exact ha
  obtain ⟨x, y, -, -, hb⟩ := Balances.settleSpot_credits hsb
  refine ⟨ha.positions, ?_⟩
  show b.entries.Distinct
  rw [hb]
  exact (ha.balances.insert _ _).insert _ _

theorem settleMargined_balances {sid : SecurityId} {side : Side} {t : TradeId}
    {price quantity : Decimal} {rawFill : Int64} {taker : Bool} {res : Except LedgerError PUnit}
    (h : (settleMargined sid side t price quantity rawFill taker).run a = .ok (res, a')) :
    a'.balances = a.balances := by
  rcases settleMargined_cases h with ⟨-, -, rfl⟩ | ⟨-, -, -, -, -, -, -, -, -, -, -, -, rfl⟩
  · rfl
  · rfl

theorem keeps_settleMargined_exportable (sid : SecurityId) (side : Side) (t : TradeId)
    (price quantity : Decimal) (rawFill : Int64) (taker : Bool) :
    Keeps Exportable (settleMargined sid side t price quantity rawFill taker) := by
  intro a x a' ha h
  have hbal := settleMargined_balances h
  cases x with
  | error e =>
    rw [(settleMargined_settles h).refused e rfl]
    exact ha
  | ok u =>
    obtain ⟨ins, -, p, -, -, hins, -, -, -, -, hpos, hinst, -⟩ := settleMargined_ok h
    refine ⟨fun e he => ?_, hbal ▸ ha.balances⟩
    rw [hpos] at he
    rw [hinst]
    rcases KeyMap.mem_insert he with rfl | ⟨-, he'⟩
    · exact ⟨ins, hins⟩
    · exact ha.positions e he'

theorem keeps_sync_exportable (x : SyncInput) : Keeps Exportable (sync x) := by
  intro a u a' ha h
  rw [run_sync_eq] at h
  split at h
  · cases h
    exact ha
  · rename_i r hr
    cases h
    obtain ⟨hv, -, hp, hb⟩ := rebuilt_eq_ok.mp hr
    refine ⟨fun e he => ?_, ?_⟩
    · change e ∈ r.positions.entries at he
      show ∃ i, r.views.get? e.1 = some i
      obtain ⟨qs, hx, hp⟩ := rebuildPositions_ok hp
      rw [hp] at he
      cases hl : KeyMap.lastOf (·.1.securityId) e.1 qs with
      | none =>
        obtain ⟨e', he', rfl⟩ := List.mem_map.mp (KeyMap.mem_of_mem_upsertAll he hl)
        obtain ⟨i, hi⟩ := ha.positions e' he'
        exact rebuildInstruments_get?_some hv hi
      | some q =>
        rw [← KeyMap.lastOf_key hl]
        exact reportedPosition_known ((mapM_pair_ok hx).2 q (KeyMap.lastOf_mem hl))
    · show r.balances.entries.Distinct
      obtain ⟨qs, -, hb, -⟩ := rebuildBalances_ok hb
      rw [hb]
      exact ha.balances.upsertAll _ _ qs

theorem ReachableUnder.exportable (h : a.ReachableUnder allowed) : a.Exportable := by
  induction h with
  | create hc => exact exportable_of_create hc
  | step _ _ hstep ih =>
    exact keeps_handle_of (fun _ _ h => ⟨h.positions, h.balances⟩)
      (fun _ _ h => ⟨h.positions, h.balances⟩) (fun _ _ h => ⟨h.positions, h.balances⟩)
      keeps_settleSpot_exportable keeps_settleMargined_exportable keeps_sync_exportable ih hstep

end Account

/-! ## Lists and maps -/

/-- Listing the values of an arena of slots in slot order lists distinct keys, when two live slots
with values of one key are one slot. -/
theorem nodup_map_filterMap_id {α β : Type} (g : α → β) : ∀ (l : List (Option α)),
    (∀ (i j : Nat) (x y : α), l[i]? = some (some x) → l[j]? = some (some y) → g x = g y → i = j) →
      ((l.filterMap id).map g).Nodup
  | [], _ => List.nodup_nil
  | o :: l, h => by
    have ht : ((l.filterMap id).map g).Nodup := nodup_map_filterMap_id g l
      fun i j x y hi hj hg => Nat.succ.inj (h (i + 1) (j + 1) x y hi hj hg)
    cases o with
    | none => simpa using ht
    | some x =>
      rw [List.filterMap_cons_some (f := id) rfl, List.map_cons, List.nodup_cons]
      refine ⟨fun hm => ?_, ht⟩
      obtain ⟨y, hy, hxy⟩ := List.mem_map.mp hm
      obtain ⟨z, hz, rfl⟩ := List.mem_filterMap.mp hy
      obtain ⟨j, hj⟩ := List.mem_iff_getElem?.mp hz
      have h0 := h 0 (j + 1) x y rfl (by simpa using hj) hxy.symm
      omega

/-- Keeping the values that `f` gives and mapping them back by `g` gives the list again when `g`
undoes `f` on it. -/
theorem map_filterMap_of_inverse {α β : Type} {f : α → Option β} {g : β → α} :
    ∀ {l : List α}, (∀ x ∈ l, ∃ y, f x = some y ∧ g y = x) → (l.filterMap f).map g = l
  | [], _ => rfl
  | x :: l, h => by
    obtain ⟨y, hy, hyx⟩ := h x List.mem_cons_self
    rw [List.filterMap_cons_some hy, List.map_cons, hyx,
      map_filterMap_of_inverse fun z hz => h z (List.mem_cons_of_mem x hz)]

/-- Checking items succeeds when each check does. -/
theorem mapM_pair_isOk {ε α β : Type} {f : α → Except ε β} :
    ∀ {ps : List α}, (∀ p ∈ ps, ∃ v, f p = .ok v) → ∃ qs, ps.mapM (fun p => (p, ·) <$> f p) = .ok qs
  | [], _ => ⟨[], rfl⟩
  | p :: ps, h => by
    obtain ⟨v, hv⟩ := h p List.mem_cons_self
    obtain ⟨qs, hqs⟩ := mapM_pair_isOk fun q hq => h q (List.mem_cons_of_mem p hq)
    refine ⟨(p, v) :: qs, ?_⟩
    rw [List.mapM_cons, hv, hqs]
    rfl

theorem mem_of_mapM_pair_ok {ε α β : Type} {f : α → Except ε β} {ps : List α}
    {qs : List (α × β)} (h : ps.mapM (fun p => (p, ·) <$> f p) = .ok qs) {q : α × β}
    (hq : q ∈ qs) : q.1 ∈ ps ∧ f q.1 = .ok q.2 := by
  obtain ⟨hfst, hres⟩ := mapM_pair_ok h
  exact ⟨hfst ▸ List.mem_map_of_mem hq, hres q hq⟩

namespace KeyMap

variable {κ ν : Type} [DecidableEq κ] {m : KeyMap κ ν}

theorem Distinct.get?_of_mem (h : m.Distinct) {e : κ × ν} (he : e ∈ m.entries) :
    m.get? e.1 = some e.2 := by
  obtain ⟨entries⟩ := m
  unfold Distinct keys at h
  simp only at h he
  unfold get?
  induction entries with
  | nil => cases he
  | cons e' es ih =>
    rw [List.map_cons, List.nodup_cons] at h
    rw [List.find?_cons]
    by_cases hk : e'.1 = e.1
    · rcases List.mem_cons.mp he with rfl | he'
      · simp
      · exact absurd (List.mem_map.mpr ⟨e, he', hk.symm⟩) (hk ▸ h.1)
    · rcases List.mem_cons.mp he with rfl | he'
      · exact absurd rfl hk
      · simpa [hk] using ih h.2 he'

end KeyMap

namespace OrderBook

variable {b : OrderBook}

theorem ClientConsistent.clientOrderIds_nodup (h : b.ClientConsistent) :
    (b.records.map (·.order.clientOrderId)).Nodup := by
  refine nodup_map_filterMap_id _ b.slots.toList fun i j x y hi hj hxy => ?_
  have hx : b.get? i = some x := get?_eq_some_iff.mpr (by simpa using hi)
  have hy : b.get? j = some y := get?_eq_some_iff.mpr (by simpa using hj)
  exact h.eq_of_clientOrderId hx hy hxy

end OrderBook

/-! ## The snapshot handed back -/

namespace AccountSnapshot

/-- A snapshot handed back as a venue snapshot of its account: its orders, its open positions and
its balances, with no securities and no fee rates. -/
def toSync (s : AccountSnapshot) : SyncInput :=
  ⟨[], s.orders, s.positions.map fun p => ⟨s.account, p.securityId, p.quantity, p.cost, p.cross⟩,
    s.balances.map fun b => ⟨s.account, b.1, b.2⟩, none, none⟩

end AccountSnapshot

namespace OrderRecord

/-- A record taken back from a snapshot: the same order, with the same raw counts. -/
def Reimported (r r' : OrderRecord) : Prop :=
  r'.order = r.order ∧ r'.rawQuantity = r.rawQuantity ∧ r'.rawLeaves = r.rawLeaves ∧
    r'.rawCum = r.rawCum

end OrderRecord

namespace Position

theorem reset_of_flat {p : Position} (hflat : p.rawSize.toInt = 0) (hcost : p.cost = 0) :
    p.reset = p := by
  have hsize : p.rawSize = 0 := Int64.toInt_inj.mp hflat
  obtain ⟨psid, pcost, psize, pcross⟩ := p
  simp only at hcost hsize
  subst hcost hsize
  rfl

theorem merge_reset_self {p : Position} {q : VenuePosition × Int64 × Int64}
    (hval : q.2 = (p.rawSize, p.cost)) (hcross : q.1.cross = p.cross) :
    merge q (some p.reset) = p := by
  simp [merge, reset, hval, hcross]

end Position

namespace Account

variable {a : Account}

theorem rebuildInstruments_unlisted {x : SyncInput} (hs : x.securities = [])
    (hm : x.makerFee = none) (ht : x.takerFee = none) :
    a.rebuildInstruments x = .ok a.instruments := by
  have hfees : x.withFees = fun i => i := by
    funext i
    simp only [SyncInput.withFees, hm, ht]
  rw [rebuildInstruments_eq, SyncInput.instruments, hs, hfees]
  exact congrArg Except.ok (KeyMap.mapValues_id _)

theorem reportedRecord_of_shownOn {views : KeyMap SecurityId Instrument} {r : OrderRecord}
    (h : r.ShownOn views) : ∃ r', reportedRecord views r.order = some r' ∧ r.Reimported r' := by
  obtain ⟨inst, hinst, hq, hl, hc⟩ := h
  refine ⟨(OrderRecord.create r.order r.rawQuantity r.rawLeaves r.rawCum).refresh inst.lot,
    reportedRecord_eq_some.mpr ⟨inst, _, _, _, hinst, by rw [hq, Precision.toRaw?_fromRaw],
      by rw [hl, Precision.toRaw?_fromRaw], by rw [hc, Precision.toRaw?_fromRaw], rfl⟩,
    ?_, rfl, rfl, rfl⟩
  simp only [OrderRecord.refresh, OrderRecord.create]
  rw [← hq, ← hl, ← hc]

theorem ordersMatching_none_perm (a : Account) :
    (a.ordersMatching none).Perm (a.orders.records.map (·.order)) := by
  unfold ordersMatching
  simp only [Option.all_none, List.filter_true]
  exact List.mergeSort_perm _ _

/-! ### Orders -/

theorem venueIds_perm (a : Account) :
    ((a.ordersMatching none).filterMap (·.venueOrderId)).Perm
      (a.orders.records.filterMap (·.order.venueOrderId)) := by
  have hp := (ordersMatching_none_perm a).filterMap (·.venueOrderId)
  rwa [List.filterMap_map] at hp

theorem Reachable.reported_of_mem (ha : a.Reachable) {r : OrderRecord}
    (hr : r ∈ a.orders.records) :
    ∃ r', reportedRecord a.instruments r.order = some r' ∧ r.Reimported r' := by
  obtain ⟨i, hi⟩ := OrderBook.mem_records.mp hr
  exact reportedRecord_of_shownOn (ReachableUnder.recordsShown ha i r hi)

theorem Reachable.reported_of_listed (ha : a.Reachable) {o : Order}
    (ho : o ∈ a.ordersMatching none) :
    ∃ r', reportedRecord a.instruments o = some r' ∧ r'.order = o := by
  obtain ⟨i, r, hr, rfl⟩ := mem_ordersMatching_none.mp ho
  obtain ⟨r', hr', hre⟩ := reported_of_mem ha (OrderBook.mem_records.mpr ⟨i, hr⟩)
  exact ⟨r', hr', hre.1⟩

theorem Reachable.storable_own_orders (ha : a.Reachable)
    (hvenue : (a.orders.records.filterMap (·.order.venueOrderId)).Nodup) :
    Storable a.instruments .empty (a.ordersMatching none) where
  record o ho := by
    obtain ⟨r', hr', -⟩ := reported_of_listed ha ho
    simp [hr']
  admits _ _ s hs := by simp [OrderBook.records, OrderBook.empty] at hs
  clients := by
    have hp := (ordersMatching_none_perm a).map (·.clientOrderId)
    rw [List.map_map] at hp
    exact hp.nodup_iff.mpr (ReachableUnder.clientConsistent ha).clientOrderIds_nodup
  venues := (venueIds_perm a).nodup_iff.mpr hvenue

theorem Reachable.rebuildOrders_own (ha : a.Reachable)
    (hvenue : (a.orders.records.filterMap (·.order.venueOrderId)).Nodup) :
    ∃ b, rebuildOrders a.instruments (a.ordersMatching none) = .ok b ∧
      b.records = (a.ordersMatching none).filterMap (reportedRecord a.instruments) := by
  obtain ⟨hok, hrec⟩ := rebuildOrders_storable a.instruments (a.ordersMatching none)
  obtain ⟨b, hb⟩ := hok.mpr (storable_own_orders ha hvenue)
  exact ⟨b, hb, hrec b hb⟩

theorem mem_reimported {r' : OrderRecord} :
    r' ∈ (a.ordersMatching none).filterMap (reportedRecord a.instruments) ↔
      ∃ r ∈ a.orders.records, reportedRecord a.instruments r.order = some r' := by
  rw [List.mem_filterMap]
  constructor
  · rintro ⟨o, ho, hr'⟩
    obtain ⟨i, r, hr, rfl⟩ := mem_ordersMatching_none.mp ho
    exact ⟨r, OrderBook.mem_records.mpr ⟨i, hr⟩, hr'⟩
  · rintro ⟨r, hr, hr'⟩
    obtain ⟨i, hi⟩ := OrderBook.mem_records.mp hr
    exact ⟨r.order, mem_ordersMatching_none.mpr ⟨i, r, hi, rfl⟩, hr'⟩

theorem Reachable.reimported_of_reported (ha : a.Reachable) {r r' : OrderRecord}
    (hr : r ∈ a.orders.records) (hr' : reportedRecord a.instruments r.order = some r') :
    r.Reimported r' := by
  obtain ⟨r'', h'', hre⟩ := reported_of_mem ha hr
  rw [h'', Option.some.injEq] at hr'
  exact hr' ▸ hre

theorem Reachable.find?_reimported (ha : a.Reachable) {b : OrderBook} (hb : b.Consistent)
    (hrec : b.records = (a.ordersMatching none).filterMap (reportedRecord a.instruments))
    (c : ClientOrderId) :
    Option.Rel OrderRecord.Reimported (a.orders.find? (.client c)) (b.find? (.client c)) := by
  have hcc := ReachableUnder.clientConsistent ha
  cases hfa : a.orders.find? (.client c) with
  | some r =>
    obtain ⟨hr, rfl⟩ := hcc.find?_client.mp hfa
    obtain ⟨r', hr', hre⟩ := reported_of_mem ha hr
    have hmem : r' ∈ b.records := by
      rw [hrec]
      exact mem_reimported.mpr ⟨r, hr, hr'⟩
    rw [hb.toClientConsistent.find?_client.mpr ⟨hmem, by rw [hre.1]⟩]
    exact .some hre
  | none =>
    cases hfb : b.find? (.client c) with
    | none => exact .none
    | some r' =>
      obtain ⟨hr', rfl⟩ := hb.toClientConsistent.find?_client.mp hfb
      rw [hrec] at hr'
      obtain ⟨r, hr, hrr⟩ := mem_reimported.mp hr'
      have hre := reimported_of_reported ha hr hrr
      rw [hcc.find?_client.mpr ⟨hr, by rw [← hre.1]⟩] at hfa
      cases hfa

theorem Reachable.orders_reimported (ha : a.Reachable) {b : OrderBook}
    (hrec : b.records = (a.ordersMatching none).filterMap (reportedRecord a.instruments)) :
    (b.records.map (·.order)).Perm (a.orders.records.map (·.order)) := by
  rw [hrec, map_filterMap_of_inverse fun o ho => reported_of_listed ha ho]
  exact ordersMatching_none_perm a

/-! ### Positions -/

/-- An open position of a known instrument, shown in decimal units and reported back, is its raw
size and its cost. -/
theorem reportedPosition_shown {p : Position} {i : Instrument}
    (hi : a.instruments.get? p.securityId = some i) (hopen : p.rawSize.toInt ≠ 0) :
    a.reportedPosition a.instruments
      ⟨a.id, p.securityId, i.lot.fromRaw p.rawSize, a.marginGrid.fromRaw p.cost, p.cross⟩ =
      .ok (p.rawSize, p.cost) := by
  simp [reportedPosition, checkAccount, hi, Precision.toRaw?_fromRaw, hopen]
  rfl

theorem Reachable.exported_position (ha : a.Reachable) {vp : VenuePosition}
    (hvp : vp ∈ (AccountSnapshot.capture a).toSync.positions) :
    ∃ p, a.positions.get? vp.securityId = some p ∧ vp.cross = p.cross ∧
      a.reportedPosition a.instruments vp = .ok (p.rawSize, p.cost) := by
  obtain ⟨v, hv, rfl⟩ := List.mem_map.mp hvp
  obtain ⟨p, hp, hpv⟩ := List.mem_filterMap.mp hv
  obtain ⟨i, hi, rfl⟩ := Option.map_eq_some_iff.mp hpv
  obtain ⟨hval, hopen⟩ := List.mem_filter.mp (List.mem_mergeSort.mp hp)
  obtain ⟨e, he, rfl⟩ := List.mem_map.mp hval
  have hfiled := (ReachableUnder.coherent ha).filed
  have hkey : e.2.securityId = e.1 := hfiled.2 e he
  refine ⟨e.2, ?_, rfl, reportedPosition_shown hi ?_⟩
  · show a.positions.get? e.2.securityId = some e.2
    rw [hkey]
    exact hfiled.1.get?_of_mem he
  · simpa [Position.isFlat] using hopen

theorem Reachable.open_exported (ha : a.Reachable) {sid : SecurityId} {p : Position}
    (hp : a.positions.get? sid = some p) (hopen : p.rawSize.toInt ≠ 0) :
    sid ∈ (AccountSnapshot.capture a).toSync.positions.map (·.securityId) := by
  have he := KeyMap.mem_of_get? hp
  obtain ⟨i, hi⟩ := (ReachableUnder.exportable ha).positions _ he
  have hi' : a.instruments.get? sid = some i := hi
  have hkey : p.securityId = sid := (ReachableUnder.coherent ha).filed.get? hp
  have hmem : p ∈ a.openPositions := List.mem_mergeSort.mpr
    (List.mem_filter.mpr ⟨List.mem_map_of_mem he, by simpa [Position.isFlat] using hopen⟩)
  have hview : a.positionView? p =
      some ⟨sid, i.lot.fromRaw p.rawSize, a.marginGrid.fromRaw p.cost, p.cross⟩ := by
    rw [positionView?, instrument?, hkey, hi']
    rfl
  exact List.mem_map.mpr ⟨_, List.mem_map_of_mem (List.mem_filterMap.mpr ⟨p, hmem, hview⟩), rfl⟩

theorem Reachable.positions_reimported (ha : a.Reachable) :
    ∃ P, a.rebuildPositions a.instruments (AccountSnapshot.capture a).toSync.positions = .ok P ∧
      ∀ sid, P.get? sid = a.positions.get? sid := by
  obtain ⟨qs, hqs⟩ := mapM_pair_isOk (f := a.reportedPosition a.instruments) fun vp hvp => by
    obtain ⟨p, -, -, h⟩ := exported_position ha hvp
    exact ⟨_, h⟩
  rw [rebuildPositions_eq, hqs]
  refine ⟨_, rfl, fun sid => ?_⟩
  rw [KeyMap.get?_upsertAll Position.merge_absorbs, KeyMap.get?_mapValues]
  cases hl : KeyMap.lastOf (·.1.securityId) sid qs with
  | some q =>
    obtain ⟨hmem, hres⟩ := mem_of_mapM_pair_ok hqs (KeyMap.lastOf_mem hl)
    obtain ⟨p, hp, hcross, hrep⟩ := exported_position ha hmem
    have hkey : q.1.securityId = sid := (KeyMap.lastOf_key hl :)
    have hval : q.2 = (p.rawSize, p.cost) := Except.ok.inj (hres.symm.trans hrep)
    rw [← hkey, hp]
    exact congrArg some (Position.merge_reset_self hval hcross)
  | none =>
    cases hp : a.positions.get? sid with
    | none => rfl
    | some p =>
      have hflat : p.rawSize.toInt = 0 := by
        by_contra hopen
        have hsid := open_exported ha hp hopen
        rw [← (mapM_pair_ok hqs).1, List.map_map] at hsid
        obtain ⟨q, hq'⟩ : ∃ q, KeyMap.lastOf (·.1.securityId) sid qs = some q :=
          KeyMap.lastOf_of_mem hsid
        rw [hl] at hq'
        cases hq'
      have hcost : p.cost = 0 := ReachableUnder.flatCostless ha _ (KeyMap.mem_of_get? hp) hflat
      exact congrArg some (Position.reset_of_flat hflat hcost)

/-! ### Balances -/

/-- The balances taken back are the account's, when its balance in the margin currency is in
the margin grid's range: no asset has two entries, so setting each listed one gives it back. -/
theorem Reachable.balances_reimported (ha : a.Reachable)
    (hmargin : ∀ q, a.balances.entries.get? a.config.marginCurrency = some q →
      (a.marginGrid.toRaw? q).isSome) :
    ∃ B, a.rebuildBalances (AccountSnapshot.capture a).toSync.balances = .ok B ∧
      ∀ asset, B.1.entries.get? asset = a.balances.entries.get? asset := by
  have hdist := (ReachableUnder.exportable ha).balances
  have hlisted : ∀ vb ∈ (AccountSnapshot.capture a).toSync.balances,
      ∃ e ∈ a.balances.entries.entries, vb = ⟨a.id, e.1, e.2⟩ := by
    intro vb hvb
    obtain ⟨e, he, rfl⟩ := List.mem_map.mp hvb
    exact ⟨e, List.mem_mergeSort.mp he, rfl⟩
  obtain ⟨qs, hqs⟩ := mapM_pair_isOk (f := a.reportedMargin) fun vb hvb => by
    obtain ⟨e, he, rfl⟩ := hlisted vb hvb
    by_cases hcur : e.1 = a.config.marginCurrency
    · obtain ⟨m, hm⟩ := Option.isSome_iff_exists.mp (hmargin e.2 (hcur ▸ hdist.get?_of_mem he))
      refine ⟨some m, ?_⟩
      simp [reportedMargin, checkAccount, hcur, hm]
      rfl
    · refine ⟨none, ?_⟩
      simp [reportedMargin, checkAccount, hcur]
      rfl
  rw [rebuildBalances_eq, hqs]
  refine ⟨_, rfl, fun asset => ?_⟩
  show (KeyMap.upsertAll _ _ a.balances.entries qs).get? asset = _
  rw [KeyMap.get?_upsertAll (KeyMap.absorbs_const _)]
  cases hl : KeyMap.lastOf (·.1.asset) asset qs with
  | none => rfl
  | some q =>
    obtain ⟨e, he, hqe⟩ := hlisted q.1 (mem_of_mapM_pair_ok hqs (KeyMap.lastOf_mem hl)).1
    have hkey : e.1 = asset := by
      have h : q.1.asset = asset := (KeyMap.lastOf_key hl :)
      rw [hqe] at h
      exact h
    subst hkey
    rw [hdist.get?_of_mem he]
    simp [hqe]

/-! ### The round trip -/

/-- What an account keeps when it takes back its own snapshot: each order under its client id,
with its ids, status, side, price and raw counts; the orders it lists under every filter; and
every position and balance. -/
structure TakenBack (a a' : Account) : Prop where
  orders : ∀ c, Option.Rel OrderRecord.Reimported (a.orders.find? (.client c))
    (a'.orders.find? (.client c))
  listing : ∀ f, a'.ordersMatching f = a.ordersMatching f
  positions : ∀ sid, a'.positions.get? sid = a.positions.get? sid
  balances : ∀ asset, a'.balances.entries.get? asset = a.balances.entries.get? asset

/-- A reachable account takes back its own snapshot, handed back with no securities and no fee
rates, and keeps all that it reports, when no two of its live orders carry one venue id and its
balance in the margin currency is in the margin grid's range. -/
theorem Reachable.own_snapshot_taken_back (ha : a.Reachable)
    (hvenue : (a.orders.records.filterMap (·.order.venueOrderId)).Nodup)
    (hmargin : ∀ q, a.balances.entries.get? a.config.marginCurrency = some q →
      (a.marginGrid.toRaw? q).isSome) :
    ∃ a', a.handle (.sync (AccountSnapshot.capture a).toSync) = .ok (a', .done) ∧
      TakenBack a a' := by
  obtain ⟨b, hb, hrec⟩ := rebuildOrders_own ha hvenue
  obtain ⟨P, hP, hPget⟩ := positions_reimported ha
  obtain ⟨B, hB, hBget⟩ := balances_reimported ha hmargin
  have hr : a.rebuilt (AccountSnapshot.capture a).toSync = .ok ⟨a.instruments, b, P, B.1, B.2⟩ :=
    rebuilt_eq_ok.mpr ⟨rebuildInstruments_unlisted rfl rfl rfl, hb, hP, hB⟩
  have hbc := rebuildOrders_consistent hb
  refine ⟨_, by rw [handle_sync_eq, hr], find?_reimported ha hbc hrec, fun f => ?_, hPget, hBget⟩
  exact ordersMatching_eq_of_perm hbc.toClientConsistent (orders_reimported ha hrec) f

end Account

namespace Sample

def twoPerpetualsFilled : List Command := [.sync twoPerpetuals, fillA 4]

end Sample

/-- After both perpetuals are listed and order "a" partly filled, the account takes back its own
snapshot and keeps all it reports. -/
theorem two_perpetuals_snapshot_taken_back :
    ∃ a, Sample.session Sample.twoPerpetualsFilled = some a ∧
      (a.orders.records.filterMap (·.order.venueOrderId)).Nodup ∧
      (∀ q, a.balances.entries.get? a.config.marginCurrency = some q →
        (a.marginGrid.toRaw? q).isSome) ∧
      ∃ a', a.handle (.sync (AccountSnapshot.capture a).toSync) = .ok (a', .done) ∧
        Account.TakenBack a a' := by
  have hs : Sample.session Sample.twoPerpetualsFilled = some _ := rfl
  refine ⟨_, hs, ?venue, ?margin,
    Account.Reachable.own_snapshot_taken_back (.of_session hs) ?venue ?margin⟩
  case venue => decide
  case margin => exact (Option.all_eq_true _ _).mp (by decide)

namespace Sample

def sharedVenueId : List Command :=
  [listBtcPerp, .newOrder { buyTen with venueOrderId := some "v" },
    .newOrder { buyTen with clientOrderId := "b", venueOrderId := some "v" }]

def hugeSpotBuy : List Command :=
  [.sync ⟨[Security.btcusdtSpot], [], [], [], none, none⟩,
    .newOrder (Order.limit "a" 3 .buy (Decimal.ofParts false 100000000000 0)
      (Decimal.ofParts false 1 2) .gtc 0),
    .confirmFill (.client "a") "t1" (Decimal.ofParts false 1 2)
      (Decimal.ofParts false 100000000000 0) false]

end Sample

namespace Account

variable {a : Account}

theorem handle_sync_refused_of_margin {x : SyncInput} {vb : VenueBalance} (hvb : vb ∈ x.balances)
    (hid : vb.account = a.id) (hcur : vb.asset = a.config.marginCurrency)
    (hout : a.marginGrid.toRaw? vb.quantity = none) :
    ∃ e, a.handle (.sync x) = .ok (a, .error e) := by
  rw [handle_sync_eq]
  cases hr : a.rebuilt x with
  | error e => exact ⟨_, rfl⟩
  | ok r =>
    obtain ⟨-, -, -, hB⟩ := rebuilt_eq_ok.mp hr
    obtain ⟨qs, hqs, -, -⟩ := rebuildBalances_ok hB
    obtain ⟨q, hq, rfl⟩ := List.mem_map.mp ((mapM_pair_ok hqs).1 ▸ hvb)
    have h := (mapM_pair_ok hqs).2 q hq
    simp [reportedMargin, checkAccount, hid, hcur, hout] at h

theorem own_snapshot_refused_of_venue
    (hvenue : ¬(a.orders.records.filterMap (·.order.venueOrderId)).Nodup) :
    ∃ e, a.handle (.sync (AccountSnapshot.capture a).toSync) = .ok (a, .error e) := by
  rw [handle_sync_eq]
  cases hr : a.rebuilt (AccountSnapshot.capture a).toSync with
  | error e => exact ⟨_, rfl⟩
  | ok r =>
    obtain ⟨-, hb, -, -⟩ := rebuilt_eq_ok.mp hr
    have hs := (rebuildOrders_storable r.views (a.ordersMatching none)).1.mp ⟨_, hb⟩
    exact absurd ((venueIds_perm a).nodup_iff.mp hs.venues) hvenue

theorem own_snapshot_refused_of_margin {q : Decimal}
    (hq : a.balances.entries.get? a.config.marginCurrency = some q)
    (hout : a.marginGrid.toRaw? q = none) :
    ∃ e, a.handle (.sync (AccountSnapshot.capture a).toSync) = .ok (a, .error e) :=
  handle_sync_refused_of_margin (List.mem_map_of_mem (List.mem_mergeSort.mpr (KeyMap.mem_of_get? hq)))
    rfl rfl hout

end Account

/-- Each condition of the round trip can fail in a reachable account, and then the account
refuses its own snapshot: two orders can be placed under one venue id, and a spot buy can take
the balance in the margin currency beyond the margin grid. -/
theorem own_snapshot_refused :
    (∃ a, Sample.session Sample.sharedVenueId = some a ∧
      ¬(a.orders.records.filterMap (·.order.venueOrderId)).Nodup ∧
      ∃ e, a.handle (.sync (AccountSnapshot.capture a).toSync) = .ok (a, .error e)) ∧
    ∃ a, Sample.session Sample.hugeSpotBuy = some a ∧
      a.balances.entries.get? a.config.marginCurrency =
        some (Decimal.ofParts false 100000000000 0) ∧
      a.marginGrid.toRaw? (Decimal.ofParts false 100000000000 0) = none ∧
      ∃ e, a.handle (.sync (AccountSnapshot.capture a).toSync) = .ok (a, .error e) := by
  refine ⟨⟨_, rfl, ?venue, Account.own_snapshot_refused_of_venue ?venue⟩, _, rfl, ?get, ?out,
    Account.own_snapshot_refused_of_margin ?get ?out⟩
  case venue => decide
  case get => decide
  case out => decide

end TradeLedger
