import TradeLedger.Proofs.Reachable

/-!
# A consistent order book on every run

The book keeps its records in an arena of slots with a stack of free slots, and reaches them
through two indexes, by client id and by venue id. `OrderBook.Consistent` says that all of
these agree. Every command keeps the book consistent, snapshots included, under one condition:
a new order that already carries a venue id must carry one that no live order holds. Placing
an order checks its client id but never its venue id, so an order placed with a venue id in
use takes the index entry away from the order that held it.

On a consistent book no two live orders share a client id or a venue id, a lookup by either
id finds the one order of the full listing that carries it, the size counts the live records,
and pruning removes exactly the finished orders while the rest stay reachable by both ids.
-/

namespace TradeLedger

namespace OrderBook

variable {b : OrderBook} {i j : Nat} {r s : OrderRecord}

theorem mem_records : r ∈ b.records ↔ ∃ i, b.get? i = some r := by
  simp only [records, List.mem_filterMap, id_eq, exists_eq_right, Array.mem_toList_iff,
    Array.mem_iff_getElem?, get?_eq_some_iff]

theorem Consistent.byVenue_eq_none (h : b.Consistent) {v : VenueOrderId}
    (hv : ∀ j s, b.get? j = some s → s.order.venueOrderId ≠ some v) : b.byVenue.get? v = none := by
  cases hj : b.byVenue.get? v with
  | none => rfl
  | some j =>
    obtain ⟨s, hs, hsv⟩ := Option.bind_eq_some_iff.mp ((h.venue v j).mp hj)
    exact absurd hsv (hv j s hs)

theorem ClientConsistent.eq_of_clientOrderId (h : b.ClientConsistent) (hi : b.get? i = some r)
    (hj : b.get? j = some s) (he : r.order.clientOrderId = s.order.clientOrderId) : i = j := by
  have hri := (h.client r.order.clientOrderId i).mpr (by simp [hi, clientKey])
  have hsj := (h.client r.order.clientOrderId j).mpr (by simp [hj, clientKey, he])
  exact Option.some.inj (hri.symm.trans hsj)

theorem Consistent.eq_of_venueOrderId (h : b.Consistent) {v : VenueOrderId}
    (hi : b.get? i = some r) (hj : b.get? j = some s) (hr : r.order.venueOrderId = some v)
    (hs : s.order.venueOrderId = some v) : i = j := by
  have hri := (h.venue v i).mpr (by simp [hi, venueKey, hr])
  have hsj := (h.venue v j).mpr (by simp [hj, venueKey, hs])
  exact Option.some.inj (hri.symm.trans hsj)

theorem ClientConsistent.find?_client_eq_some (h : b.ClientConsistent) {c : ClientOrderId} :
    b.find? (.client c) = some r ↔ ∃ i, b.get? i = some r ∧ r.order.clientOrderId = c := by
  simp only [find?, lookup, Option.bind_eq_bind, Option.bind_eq_some_iff]
  constructor
  · rintro ⟨i, hi, hr⟩
    obtain ⟨s, hs, hsc⟩ := Option.bind_eq_some_iff.mp ((h.client c i).mp hi)
    rw [hr, Option.some.injEq] at hs
    subst hs
    exact ⟨i, hr, by simpa [clientKey] using hsc⟩
  · rintro ⟨i, hr, rfl⟩
    exact ⟨i, (h.client _ i).mpr (by simp [hr, clientKey]), hr⟩

theorem ClientConsistent.find?_client (h : b.ClientConsistent) {c : ClientOrderId} :
    b.find? (.client c) = some r ↔ r ∈ b.records ∧ r.order.clientOrderId = c := by
  rw [mem_records, h.find?_client_eq_some]
  exact exists_and_right

theorem Consistent.find?_venue (h : b.Consistent) {v : VenueOrderId} :
    b.find? (.venue v) = some r ↔ ∃ i, b.get? i = some r ∧ r.order.venueOrderId = some v := by
  simp only [find?, lookup, Option.bind_eq_bind, Option.bind_eq_some_iff]
  constructor
  · rintro ⟨i, hi, hr⟩
    obtain ⟨s, hs, hsv⟩ := Option.bind_eq_some_iff.mp ((h.venue v i).mp hi)
    rw [hr, Option.some.injEq] at hs
    subst hs
    exact ⟨i, hr, hsv⟩
  · rintro ⟨i, hr, hv⟩
    exact ⟨i, (h.venue v i).mpr (by simp [hr, venueKey, hv]), hr⟩

end OrderBook

open OrderBook

theorem rebuildOrders_consistent {views : KeyMap SecurityId Instrument} {os : List Order}
    {b : OrderBook} (h : Account.rebuildOrders views os = .ok b) : b.Consistent :=
  Account.rebuildOrders_induction OrderBook.Consistent Consistent.empty
    (fun b _ _ _ _ _ _ hb hc hown _ _ _ _ => hb.insert hc fun v hv => by
      rcases hb.venueOwner_eq_none (hown v hv) with hnone | ⟨_, _, hex⟩
      · exact hnone
      · cases hex)
    h

section Effects

variable {a a' : Account} {c : Command}

theorem Effect.consistent (he : Effect a c a') (h : a.orders.Consistent)
    (hfresh : ∀ o v, c = .newOrder o → o.venueOrderId = some v → a.orders.byVenue.get? v = none) :
    a'.orders.Consistent := by
  have hmoves : ∀ {ins slots b b'}, MoveRun ins slots b b' → b.Consistent → b'.Consistent :=
    fun hrun hb => MoveRun.preserves OrderBook.Consistent
      (fun _ _ _ _ _ hb hr _ hf => hb.modify hr (hf.keys _).1 (hf.keys _).2.1) hrun hb
  cases he with
  | moves _ _ hrun => exact hmoves hrun h
  | claim _ hr hown _ hrun => exact hmoves hrun (h.assignVenueId hr hown)
  | fill _ _ hr _ _ _ _ ho =>
    rw [ho]
    exact h.modify hr (OrderRecord.fill_keys _ _ _ _ _).1 (OrderRecord.fill_keys _ _ _ _ _).2.1
  | place _ hc _ _ _ ho =>
    rw [ho]
    exact h.insert hc fun v hv => hfresh _ v rfl hv
  | reject _ hr _ _ ho =>
    rw [ho]
    exact (h.modify hr rfl rfl).discard _
  | prune _ ho =>
    rw [ho]
    exact h.foldl_discard _
  | sync _ hb _ ho =>
    rw [ho]
    exact rebuildOrders_consistent hb

end Effects

namespace Account

variable {a : Account}

/-- A new order may carry a venue id only if no live order carries it already. -/
def FreshVenueIds (a : Account) (c : Command) : Prop :=
  ∀ o v, c = .newOrder o → o.venueOrderId = some v →
    ∀ j s, a.orders.get? j = some s → s.order.venueOrderId ≠ some v

theorem ReachableUnder.consistent (h : a.ReachableUnder FreshVenueIds) : a.orders.Consistent := by
  induction h with
  | create hc =>
    rw [(create_orders hc).1]
    exact Consistent.empty
  | step hreach hfresh hstep ih =>
    have hk := (ReachableUnder.wellFormed hreach).known
    exact (handle_handled hk hstep).effect.consistent ih fun o v ho hv =>
      ih.byVenue_eq_none (hfresh o v ho hv)

theorem mem_ordersMatching_none {o : Order} :
    o ∈ a.ordersMatching none ↔ ∃ i r, a.orders.get? i = some r ∧ r.order = o := by
  simp only [ordersMatching, List.mem_mergeSort, Option.all_none, List.filter_true,
    List.mem_map, mem_records]
  constructor
  · rintro ⟨r, ⟨i, hr⟩, rfl⟩
    exact ⟨i, r, hr, rfl⟩
  · rintro ⟨i, r, hr, rfl⟩
    exact ⟨r, ⟨i, hr⟩, rfl⟩

theorem length_ordersMatching_none : (a.ordersMatching none).length = a.orders.records.length := by
  simp [ordersMatching]

theorem order?_client (h : a.orders.Consistent) {c : ClientOrderId} {o : Order} :
    a.order? (.client c) = some o ↔ o ∈ a.ordersMatching none ∧ o.clientOrderId = c := by
  simp only [order?, Option.map_eq_some_iff, h.find?_client_eq_some, mem_ordersMatching_none]
  constructor
  · rintro ⟨r, ⟨i, hr, rfl⟩, rfl⟩
    exact ⟨⟨i, r, hr, rfl⟩, rfl⟩
  · rintro ⟨⟨i, r, hr, rfl⟩, rfl⟩
    exact ⟨r, ⟨i, hr, rfl⟩, rfl⟩

theorem order?_venue (h : a.orders.Consistent) {v : VenueOrderId} {o : Order} :
    a.order? (.venue v) = some o ↔ o ∈ a.ordersMatching none ∧ o.venueOrderId = some v := by
  simp only [order?, Option.map_eq_some_iff, h.find?_venue, mem_ordersMatching_none]
  constructor
  · rintro ⟨r, ⟨i, hr, hv⟩, rfl⟩
    exact ⟨⟨i, r, hr, rfl⟩, hv⟩
  · rintro ⟨⟨i, r, hr, rfl⟩, hv⟩
    exact ⟨r, ⟨i, hr, hv⟩, rfl⟩

theorem handle_pruneClosed (a : Account) :
    a.handle .pruneClosed = .ok ({ a with orders :=
        (a.orders.slotsWhere (·.status.isTerminal)).foldl OrderBook.discard a.orders },
      .pruned (a.orders.slotsWhere (·.status.isTerminal)).length) := by
  simp only [handle, answer, AccountM.pruneClosed, AccountM.run_get_bind, AccountM.run_set_bind,
    AccountM.run_pure]

theorem get?_pruned (b : OrderBook) (i : Nat) :
    ((b.slotsWhere (·.status.isTerminal)).foldl OrderBook.discard b).get? i =
      if (b.get? i).any (·.status.isTerminal) then none else b.get? i := by
  rw [get?_foldl_discard]
  cases hb : b.get? i with
  | none => simp [mem_slotsWhere, hb]
  | some r => by_cases ht : r.status.isTerminal <;> simp [mem_slotsWhere, hb, ht]

/-- On every run whose new orders carry fresh venue ids, the book is consistent: the free stack
lists exactly the empty slots, and each index reaches exactly the live records by their ids.
Hence no two live orders share a client id or a venue id, a lookup by either id finds the one
listed order that carries it, the size counts the live orders, and pruning removes exactly the
finished orders and leaves the rest reachable by both ids. -/
theorem ReachableUnder.orders_consistent (h : a.ReachableUnder FreshVenueIds) :
    a.orders.Consistent ∧
    (∀ i j r s, a.orders.get? i = some r → a.orders.get? j = some s →
      (r.order.clientOrderId = s.order.clientOrderId ∨
        ∃ v, r.order.venueOrderId = some v ∧ s.order.venueOrderId = some v) → i = j) ∧
    (∀ c o, a.order? (.client c) = some o ↔ o ∈ a.ordersMatching none ∧ o.clientOrderId = c) ∧
    (∀ v o, a.order? (.venue v) = some o ↔ o ∈ a.ordersMatching none ∧ o.venueOrderId = some v) ∧
    a.orders.size = (a.ordersMatching none).length ∧
    ∃ a' resp, a.handle .pruneClosed = .ok (a', resp) ∧
      (∀ i, a'.orders.get? i =
        if (a.orders.get? i).any (·.status.isTerminal) then none else a.orders.get? i) ∧
      ∀ i r, a'.orders.get? i = some r →
        a'.orders.lookup (.client r.order.clientOrderId) = some i ∧
        ∀ v, r.order.venueOrderId = some v → a'.orders.lookup (.venue v) = some i := by
  have hc := h.consistent
  have hpruned := hc.foldl_discard (a.orders.slotsWhere (·.status.isTerminal))
  refine ⟨hc, ?_, fun _ _ => order?_client hc, fun _ _ => order?_venue hc, ?_,
    _, _, handle_pruneClosed a, get?_pruned a.orders, ?_⟩
  · rintro i j r s hi hj (he | ⟨v, hr, hs⟩)
    · exact hc.eq_of_clientOrderId hi hj he
    · exact hc.eq_of_venueOrderId hi hj hr hs
  · rw [length_ordersMatching_none, OrderBook.size, hc.counted]
  · intro i r hr
    refine ⟨(hpruned.client _ i).mpr (by simp [hr, clientKey]), fun v hv => ?_⟩
    exact (hpruned.venue v i).mpr (by simp [hr, venueKey, hv])

theorem freshVenueIds_of_no_venue {c : Command}
    (hc : ∀ o, c = .newOrder o → o.venueOrderId = none) (b : Account) : FreshVenueIds b c :=
  fun o v ho hv => absurd (hv.symm.trans (hc o ho)) (by simp)

def acknowledgedSession : List Command :=
  [Sample.listBtcPerp, .newOrder Sample.buyTen, .confirmNewOrder "a" "v"]

/-- The book after that session is consistent, with every consequence. -/
theorem acknowledged_order_consistent :
    ∃ a, Sample.session acknowledgedSession = some a ∧ a.ReachableUnder FreshVenueIds ∧
    (a.orders.Consistent ∧
    (∀ i j r s, a.orders.get? i = some r → a.orders.get? j = some s →
      (r.order.clientOrderId = s.order.clientOrderId ∨
        ∃ v, r.order.venueOrderId = some v ∧ s.order.venueOrderId = some v) → i = j) ∧
    (∀ c o, a.order? (.client c) = some o ↔ o ∈ a.ordersMatching none ∧ o.clientOrderId = c) ∧
    (∀ v o, a.order? (.venue v) = some o ↔ o ∈ a.ordersMatching none ∧ o.venueOrderId = some v) ∧
    a.orders.size = (a.ordersMatching none).length ∧
    ∃ a' resp, a.handle .pruneClosed = .ok (a', resp) ∧
      (∀ i, a'.orders.get? i =
        if (a.orders.get? i).any (·.status.isTerminal) then none else a.orders.get? i) ∧
      ∀ i r, a'.orders.get? i = some r →
        a'.orders.lookup (.client r.order.clientOrderId) = some i ∧
        ∀ v, r.order.venueOrderId = some v → a'.orders.lookup (.venue v) = some i) := by
  have hs : Sample.session acknowledgedSession = some _ := rfl
  have hall : ∀ c ∈ acknowledgedSession, ∀ b, FreshVenueIds b c := by
    intro c hc
    apply freshVenueIds_of_no_venue
    intro o ho
    simp only [acknowledgedSession, List.mem_cons, List.not_mem_nil, or_false] at hc
    rcases hc with rfl | rfl | rfl <;> cases ho
    rfl
  have hreach := ReachableUnder.of_session (fun a₀ _ => admits_of_forall hall a₀) hs
  exact ⟨_, hs, hreach, hreach.orders_consistent⟩

/-- Two new orders placed with one venue id "v" are both accepted. The venue index then reaches
only the second, so the book of this reachable account is not consistent. -/
theorem shared_venue_id_accepted :
    ∃ a r s, Sample.session [Sample.listBtcPerp,
        .newOrder { Sample.buyTen with venueOrderId := some "v" },
        .newOrder { Sample.buyTen with clientOrderId := "b", venueOrderId := some "v" }] = some a ∧
      a.Reachable ∧ a.orders.get? 0 = some r ∧ a.orders.get? 1 = some s ∧
      r.order.venueOrderId = some "v" ∧ s.order.venueOrderId = some "v" ∧
      ¬ a.orders.Consistent := by
  have hs : Sample.session [Sample.listBtcPerp,
      .newOrder { Sample.buyTen with venueOrderId := some "v" },
      .newOrder { Sample.buyTen with clientOrderId := "b", venueOrderId := some "v" }] =
      some _ := rfl
  refine ⟨_, _, _, hs, .of_session hs, rfl, rfl, rfl, rfl, fun h => ?_⟩
  have h0 := (h.venue "v" 0).mpr rfl
  exact absurd h0 (by decide)

end Account

end TradeLedger
