import TradeLedger.Order.Book
import TradeLedger.Proofs.KeyMap

/-!
# The order book's slots and indexes

What each operation of `OrderBook` does to the slots, and the three facts that keep the book
consistent: the free stack lists exactly the empty slots, the client index reaches exactly the
live record of each client id, and the venue index the live record of each venue id. Each
operation keeps them under the condition that it does not collide with a key already indexed.
-/

namespace TradeLedger.OrderBook

/-! ## Slots -/

def clientKey (r : OrderRecord) : Option ClientOrderId := some r.order.clientOrderId

def venueKey (r : OrderRecord) : Option VenueOrderId := r.order.venueOrderId

theorem get?_eq_some_iff {b : OrderBook} {i : Nat} {r : OrderRecord} :
    b.get? i = some r ↔ b.slots[i]? = some (some r) := by
  unfold get?
  cases b.slots[i]? with
  | none => simp
  | some x => cases x <;> simp

theorem get?_eq_none_of_size_le {b : OrderBook} {i : Nat} (h : b.slots.size ≤ i) :
    b.get? i = none := by
  simp [get?, Array.getElem?_eq_none h]

theorem lt_size_of_get?_eq_some {b : OrderBook} {i : Nat} {r : OrderRecord}
    (h : b.get? i = some r) : i < b.slots.size := by
  by_contra hlt
  rw [get?_eq_none_of_size_le (Nat.le_of_not_lt hlt)] at h
  cases h

@[simp] theorem get?_empty (i : Nat) : empty.get? i = none := rfl

theorem insert_fst (b : OrderBook) (r : OrderRecord) :
    (b.insert r).1 = b.free.headD b.slots.size := by
  cases h : b.free <;> simp [insert, h]

@[simp] theorem insert_byClient (b : OrderBook) (r : OrderRecord) :
    (b.insert r).2.byClient = b.byClient.insert r.order.clientOrderId (b.insert r).1 := by
  cases h : b.free <;> simp [insert, h]

theorem get?_insert_byVenue (b : OrderBook) (r : OrderRecord) (v : VenueOrderId) :
    (b.insert r).2.byVenue.get? v =
      if venueKey r = some v then some (b.insert r).1 else b.byVenue.get? v := by
  cases hv : r.order.venueOrderId with
  | none => cases h : b.free <;> simp [insert, venueKey, hv, h]
  | some w =>
    by_cases hw : w = v
    · subst hw
      cases h : b.free <;> simp [insert, venueKey, hv, h]
    · cases h : b.free <;> simp [insert, venueKey, hv, h, hw, Ne.symm hw]

@[simp] theorem insert_free (b : OrderBook) (r : OrderRecord) :
    (b.insert r).2.free = b.free.tail := by
  cases h : b.free <;> simp [insert, h]

theorem insert_size (b : OrderBook) (r : OrderRecord) :
    (b.insert r).2.slots.size = if b.free = [] then b.slots.size + 1 else b.slots.size := by
  cases h : b.free <;> simp [insert, h]

theorem get?_insert_of_mem_free {b : OrderBook} {r : OrderRecord} {i : Nat} {rest : List Nat}
    (hfree : b.free = i :: rest) (hi : i < b.slots.size) (j : Nat) :
    (b.insert r).2.get? j = if j = i then some r else b.get? j := by
  simp only [insert, hfree, get?, Array.getElem?_setIfInBounds, hi]
  by_cases h : j = i
  · simp [h]
  · simp [h, Ne.symm h]

theorem get?_insert_of_free_nil {b : OrderBook} {r : OrderRecord} (hfree : b.free = [])
    (j : Nat) : (b.insert r).2.get? j = if j = b.slots.size then some r else b.get? j := by
  simp only [insert, hfree, get?, Array.getElem?_push]
  split <;> simp

theorem get?_insert {b : OrderBook} (hin : ∀ i ∈ b.free, i < b.slots.size) (r : OrderRecord)
    (j : Nat) : (b.insert r).2.get? j = if j = (b.insert r).1 then some r else b.get? j := by
  rw [insert_fst]
  cases hfree : b.free with
  | nil => simpa using get?_insert_of_free_nil (r := r) hfree j
  | cons i rest =>
    simpa using get?_insert_of_mem_free hfree (hin i (by simp [hfree])) j

theorem get?_assignVenueId (b : OrderBook) (i : Nat) (v : VenueOrderId) (j : Nat) :
    (b.assignVenueId i v).get? j =
      if j = i then (b.get? i).map (fun r => { r with order := { r.order with venueOrderId := some v } })
      else b.get? j := by
  unfold assignVenueId
  cases hr : b.get? i with
  | none =>
    by_cases h : j = i
    · simp [h, hr]
    · simp [h]
  | some r =>
    have hi := lt_size_of_get?_eq_some hr
    by_cases h : j = i
    · subst h
      simp [get?, hi]
    · simp [get?, Ne.symm h, h]

theorem get?_modify (b : OrderBook) (i : Nat) (f : OrderRecord → OrderRecord) (j : Nat) :
    (b.modify i f).get? j = if j = i then (b.get? i).map f else b.get? j := by
  simp only [modify, get?, Array.getElem?_modify]
  by_cases h : j = i
  · subst h
    cases b.slots[j]? with
    | none => simp
    | some x => cases x <;> simp
  · simp [Ne.symm h, h]

@[simp] theorem modify_free (b : OrderBook) (i : Nat) (f : OrderRecord → OrderRecord) :
    (b.modify i f).free = b.free := rfl

@[simp] theorem modify_byClient (b : OrderBook) (i : Nat) (f : OrderRecord → OrderRecord) :
    (b.modify i f).byClient = b.byClient := rfl

@[simp] theorem modify_byVenue (b : OrderBook) (i : Nat) (f : OrderRecord → OrderRecord) :
    (b.modify i f).byVenue = b.byVenue := rfl

@[simp] theorem modify_size (b : OrderBook) (i : Nat) (f : OrderRecord → OrderRecord) :
    (b.modify i f).slots.size = b.slots.size := by
  simp [modify]

theorem remove_eq_some {b : OrderBook} {i : Nat} {r : OrderRecord} (h : b.get? i = some r) :
    b.remove i = some (r, ⟨b.slots.setIfInBounds i none, i :: b.free,
      b.byClient.erase r.order.clientOrderId,
      match venueKey r with
        | some v => b.byVenue.erase v
        | none => b.byVenue⟩) := by
  cases hv : r.order.venueOrderId <;> simp [remove, h, hv, venueKey]

theorem remove_eq_none {b : OrderBook} {i : Nat} (h : b.get? i = none) : b.remove i = none := by
  simp [remove, h]

theorem get?_setIfInBounds_none (b : OrderBook) (i j : Nat) :
    (b.slots.setIfInBounds i none)[j]?.join = if j = i then none else b.get? j := by
  by_cases h : j = i
  · subst h
    simp only [Array.getElem?_setIfInBounds, if_true]
    split <;> rfl
  · simp [Ne.symm h, h, get?]

theorem mem_slotsWhere {b : OrderBook} {p : OrderRecord → Bool} {i : Nat} :
    i ∈ b.slotsWhere p ↔ ∃ r, b.get? i = some r ∧ p r = true := by
  simp only [slotsWhere, List.mem_filter, List.mem_range]
  constructor
  · rintro ⟨-, hp⟩
    cases hr : b.get? i with
    | none => simp [hr] at hp
    | some r => exact ⟨r, rfl, by simpa [hr] using hp⟩
  · rintro ⟨r, hr, hp⟩
    exact ⟨lt_size_of_get?_eq_some hr, by simp [hr, hp]⟩

theorem nodup_slotsWhere (b : OrderBook) (p : OrderRecord → Bool) : (b.slotsWhere p).Nodup :=
  (List.nodup_range).filter _

/-! ## Indexes

The client index and the venue index have one shape: a map from keys to slots that reaches a
slot exactly when the slot holds a live record with that key. It is stated over the slot
lookup alone, so that a change of one slot is a `Function.update`.
-/

section Indexes

variable {κ : Type} [DecidableEq κ]

/-- The map `m` sends a key to a slot exactly when that slot holds a record with that key. -/
def Indexes (m : KeyMap κ Nat) (key : OrderRecord → Option κ)
    (slot : Nat → Option OrderRecord) : Prop :=
  ∀ k i, m.get? k = some i ↔ (slot i).bind key = some k

variable {m : KeyMap κ Nat} {key : OrderRecord → Option κ} {slot : Nat → Option OrderRecord}

theorem Indexes.congr (h : Indexes m key slot) {slot' : Nat → Option OrderRecord}
    (hs : ∀ j, (slot' j).bind key = (slot j).bind key) : Indexes m key slot' := by
  intro k i
  rw [h k i, hs i]

theorem Indexes.fill (h : Indexes m key slot) {i : Nat} {r : OrderRecord} (hi : slot i = none)
    (hfresh : ∀ k, key r = some k → m.get? k = none) {m' : KeyMap κ Nat}
    (hm : ∀ k, m'.get? k = if key r = some k then some i else m.get? k) :
    Indexes m' key (Function.update slot i (some r)) := by
  intro k j
  rw [hm k]
  by_cases hj : j = i
  · subst hj
    by_cases hk : key r = some k
    · simp [hk]
    · simp [hk, h k j, hi]
  · rw [Function.update_of_ne hj, ← h k j]
    by_cases hk : key r = some k
    · simp only [hk, if_true, hfresh k hk, Option.some.injEq, reduceCtorEq, iff_false]
      exact fun e => hj e.symm
    · simp [hk]

theorem Indexes.clear (h : Indexes m key slot) {i : Nat} {r : OrderRecord} (hi : slot i = some r)
    {m' : KeyMap κ Nat} (hm : ∀ k, m'.get? k = if key r = some k then none else m.get? k) :
    Indexes m' key (Function.update slot i none) := by
  intro k j
  rw [hm k]
  by_cases hj : j = i
  · subst hj
    by_cases hk : key r = some k
    · simp [hk]
    · simp [hk, h k j, hi]
  · rw [Function.update_of_ne hj]
    by_cases hk : key r = some k
    · have hki : m.get? k = some i := (h k i).mpr (by simp [hi, hk])
      simp only [hk, if_true, reduceCtorEq, false_iff]
      intro hkj
      exact hj (Option.some.inj (((h k j).mpr hkj).symm.trans hki))
    · simp [hk, h k j]

end Indexes

/-! ## Slot updates

Each operation changes the slot lookup at one slot, written as a `Function.update`.
-/

section Updates

variable {b : OrderBook}

theorem get?_modify_of_get? {i : Nat} {r : OrderRecord}
    (f : OrderRecord → OrderRecord) (h : b.get? i = some r) : (b.modify i f).get? i = some (f r) := by
  rw [get?_modify, if_pos rfl, h]
  rfl

theorem get?_modify_eq (b : OrderBook) (i : Nat) (f : OrderRecord → OrderRecord) :
    (b.modify i f).get? = Function.update b.get? i ((b.get? i).map f) := by
  funext j
  rw [get?_modify, Function.update_apply]

theorem get?_assignVenueId_eq (b : OrderBook) (i : Nat) (v : VenueOrderId) :
    (b.assignVenueId i v).get? = Function.update b.get? i
      ((b.get? i).map fun r => { r with order := { r.order with venueOrderId := some v } }) := by
  funext j
  rw [get?_assignVenueId, Function.update_apply]

theorem get?_discard_eq (b : OrderBook) (i : Nat) :
    (b.discard i).get? = Function.update b.get? i none := by
  funext j
  cases hr : b.get? i with
  | none =>
    rw [discard, remove_eq_none hr, Function.update_apply]
    by_cases h : j = i
    · subst h; simp [hr]
    · simp [h]
  | some r =>
    rw [discard, remove_eq_some hr, Function.update_apply]
    exact get?_setIfInBounds_none b i j

theorem discard_of_get?_eq_none {i : Nat} (h : b.get? i = none) : b.discard i = b := by
  simp [discard, remove_eq_none h]

theorem discard_of_get?_eq_some {i : Nat} {r : OrderRecord} (h : b.get? i = some r) :
    b.discard i = ⟨b.slots.setIfInBounds i none, i :: b.free,
      b.byClient.erase r.order.clientOrderId,
      match venueKey r with
        | some v => b.byVenue.erase v
        | none => b.byVenue⟩ := by
  simp [discard, remove_eq_some h]

@[simp] theorem discard_size (b : OrderBook) (i : Nat) :
    (b.discard i).slots.size = b.slots.size := by
  cases hr : b.get? i with
  | none => rw [discard_of_get?_eq_none hr]
  | some r => simp [discard_of_get?_eq_some hr]

@[simp] theorem assignVenueId_byClient (b : OrderBook) (i : Nat) (v : VenueOrderId) :
    (b.assignVenueId i v).byClient = b.byClient := by
  unfold assignVenueId
  cases b.get? i <;> rfl

@[simp] theorem assignVenueId_free (b : OrderBook) (i : Nat) (v : VenueOrderId) :
    (b.assignVenueId i v).free = b.free := by
  unfold assignVenueId
  cases b.get? i <;> rfl

@[simp] theorem assignVenueId_size (b : OrderBook) (i : Nat) (v : VenueOrderId) :
    (b.assignVenueId i v).slots.size = b.slots.size := by
  unfold assignVenueId
  cases b.get? i <;> simp

theorem get?_assignVenueId_byVenue {i : Nat} {r : OrderRecord} (hr : b.get? i = some r)
    (v k : VenueOrderId) :
    (b.assignVenueId i v).byVenue.get? k =
      if k = v then some i else if venueKey r = some k then none else b.byVenue.get? k := by
  unfold assignVenueId
  rw [hr]
  cases hv : r.order.venueOrderId with
  | none =>
    by_cases hk : k = v <;> simp [hk, venueKey, hv]
  | some old =>
    by_cases hk : k = v
    · simp [hk]
    · by_cases ho : old = k <;> simp [hk, venueKey, hv, ho, eq_comm]

theorem get?_discard_byClient {i : Nat} {r : OrderRecord} (hr : b.get? i = some r)
    (c : ClientOrderId) :
    (b.discard i).byClient.get? c = if clientKey r = some c then none else b.byClient.get? c := by
  rw [discard_of_get?_eq_some hr]
  by_cases hc : r.order.clientOrderId = c <;> simp [clientKey, hc, eq_comm]

theorem get?_discard_byVenue {i : Nat} {r : OrderRecord} (hr : b.get? i = some r)
    (v : VenueOrderId) :
    (b.discard i).byVenue.get? v = if venueKey r = some v then none else b.byVenue.get? v := by
  rw [discard_of_get?_eq_some hr]
  cases hv : r.order.venueOrderId with
  | none => simp [venueKey, hv]
  | some w => by_cases hw : w = v <;> simp [venueKey, hv, hw, eq_comm]

end Updates

/-! ## Counting live records -/

theorem countP_modify {α : Type} {p : α → Bool} {g : α → α} (hg : ∀ x, p (g x) = p x) :
    ∀ (l : List α) (i : Nat), (l.modify i g).countP p = l.countP p
  | [], _ => by simp
  | x :: l, 0 => by simp [List.countP_cons, hg]
  | x :: l, i + 1 => by simp [List.countP_cons, countP_modify hg l i]

theorem records_length (b : OrderBook) :
    b.records.length = b.slots.toList.countP Option.isSome := by
  simp [records, List.length_filterMap_eq_countP]

theorem slot_eq_some {b : OrderBook} {i : Nat} {r : OrderRecord} (h : b.get? i = some r) :
    ∃ hi : i < b.slots.size, b.slots[i] = some r :=
  ⟨lt_size_of_get?_eq_some h, by
    simpa [get?_eq_some_iff, Array.getElem?_eq_getElem (lt_size_of_get?_eq_some h)] using h⟩

theorem one_le_countP_of_get?_eq_some {b : OrderBook} {i : Nat} {r : OrderRecord}
    (h : b.get? i = some r) : 1 ≤ b.slots.toList.countP Option.isSome := by
  obtain ⟨hi, hsome⟩ := slot_eq_some h
  exact List.countP_pos_iff.mpr ⟨some r, by simp [← hsome], rfl⟩

theorem records_length_insert {b : OrderBook} (hin : ∀ i ∈ b.free, i < b.slots.size)
    (hempty : ∀ i ∈ b.free, b.get? i = none) (r : OrderRecord) :
    (b.insert r).2.records.length = b.records.length + 1 := by
  rw [records_length, records_length]
  cases hfree : b.free with
  | nil => simp [insert, hfree]
  | cons i rest =>
    have hi := hin i (by simp [hfree])
    have hnone : b.slots[i] = none := by
      have := hempty i (by simp [hfree])
      simpa [get?, Array.getElem?_eq_getElem hi] using this
    simp only [insert, hfree, Array.toList_setIfInBounds]
    rw [List.countP_set (by simpa using hi)]
    simp [hnone]

theorem records_length_modify (b : OrderBook) (i : Nat) (f : OrderRecord → OrderRecord) :
    (b.modify i f).records.length = b.records.length := by
  rw [records_length, records_length]
  simp only [modify, Array.toList_modify]
  exact countP_modify (fun x => by cases x <;> rfl) _ _

theorem records_length_assignVenueId (b : OrderBook) (i : Nat) (v : VenueOrderId) :
    (b.assignVenueId i v).records.length = b.records.length := by
  unfold assignVenueId
  cases hr : b.get? i with
  | none => rfl
  | some r =>
    obtain ⟨hi, hsome⟩ := slot_eq_some hr
    have hpos := one_le_countP_of_get?_eq_some hr
    rw [records_length, records_length]
    simp only [Array.toList_setIfInBounds]
    rw [List.countP_set (by simpa using hi)]
    simp only [Array.getElem_toList, hsome, Option.isSome_some, if_true]
    omega

theorem records_length_discard {b : OrderBook} {i : Nat} {r : OrderRecord} (h : b.get? i = some r) :
    (b.discard i).records.length + 1 = b.records.length := by
  obtain ⟨hi, hsome⟩ := slot_eq_some h
  have hpos := one_le_countP_of_get?_eq_some h
  rw [discard_of_get?_eq_some h, records_length, records_length]
  simp only [Array.toList_setIfInBounds]
  rw [List.countP_set (by simpa using hi)]
  simp only [Array.getElem_toList, hsome, Option.isSome_some, if_true, Option.isSome_none,
    Bool.false_eq_true, if_false]
  omega

/-! ## Consistency -/

/-- The free stack lists every empty slot of the arena once, and no live slot. -/
structure FreeSlots (b : OrderBook) : Prop where
  nodup : b.free.Nodup
  mem_free : ∀ i, i ∈ b.free ↔ i < b.slots.size ∧ b.get? i = none

/-- The arena and the client index agree: the free stack lists the empty slots, and the client
index reaches every live record by its client id and nothing else, one key per record. -/
structure ClientConsistent (b : OrderBook) : Prop where
  free : b.FreeSlots
  client : Indexes b.byClient clientKey b.get?
  distinct : b.byClient.Distinct
  counted : b.byClient.size = b.records.length

/-- The whole book agrees: the client side, and the venue index reaches every live record that
has a venue id by that id, and nothing else. -/
structure Consistent (b : OrderBook) : Prop extends ClientConsistent b where
  venue : Indexes b.byVenue venueKey b.get?

section Preservation

variable {b : OrderBook}

theorem FreeSlots.empty : OrderBook.empty.FreeSlots :=
  ⟨List.nodup_nil, fun i => by simp [OrderBook.empty]⟩

theorem Consistent.empty : OrderBook.empty.Consistent where
  free := FreeSlots.empty
  client := fun k i => by simp [OrderBook.empty, get?]
  distinct := KeyMap.distinct_empty
  counted := rfl
  venue := fun k i => by simp [OrderBook.empty, get?]

theorem FreeSlots.get?_insert_fst (h : b.FreeSlots) (r : OrderRecord) :
    b.get? (b.insert r).1 = none := by
  rw [insert_fst]
  cases hfree : b.free with
  | nil => exact get?_eq_none_of_size_le (by simp)
  | cons i rest => exact ((h.mem_free i).mp (by simp [hfree])).2

theorem FreeSlots.get?_insert (h : b.FreeSlots) (r : OrderRecord) :
    (b.insert r).2.get? = Function.update b.get? (b.insert r).1 (some r) := by
  funext j
  rw [OrderBook.get?_insert (fun i hi => ((h.mem_free i).mp hi).1), Function.update_apply]

theorem FreeSlots.insert (h : b.FreeSlots) (r : OrderRecord) : (b.insert r).2.FreeSlots := by
  cases hfree : b.free with
  | nil =>
    refine ⟨by simp [hfree], fun j => ?_⟩
    rw [get?_insert_of_free_nil hfree, insert_size, hfree]
    simp only [insert_free, hfree, List.tail_nil, List.not_mem_nil, if_true, false_iff]
    rintro ⟨hj, hnone⟩
    by_cases hjs : j = b.slots.size
    · simp [hjs] at hnone
    · rw [if_neg hjs] at hnone
      have := (h.mem_free j).mpr ⟨by omega, hnone⟩
      simp [hfree] at this
  | cons s rest =>
    have hnd := h.nodup
    rw [hfree, List.nodup_cons] at hnd
    have hs := ((h.mem_free s).mp (by simp [hfree])).1
    refine ⟨by simpa [hfree] using hnd.2, fun j => ?_⟩
    rw [get?_insert_of_mem_free hfree hs, insert_size, hfree]
    simp only [insert_free, hfree, List.tail_cons, reduceCtorEq, if_false]
    by_cases hjs : j = s
    · subst hjs
      simp [hnd.1]
    · have := h.mem_free j
      simp only [hfree, List.mem_cons, hjs, false_or] at this
      simp [hjs, this]

theorem ClientConsistent.insert (h : b.ClientConsistent) {r : OrderRecord}
    (hc : b.containsClient r.order.clientOrderId = false) : (b.insert r).2.ClientConsistent where
  free := h.free.insert r
  client := by
    rw [h.free.get?_insert]
    refine h.client.fill (h.free.get?_insert_fst r)
      (fun k hk => by cases hk; exact KeyMap.get?_eq_none_of_not_contains hc) (fun k => ?_)
    by_cases hk : r.order.clientOrderId = k <;> simp [clientKey, hk, eq_comm]
  distinct := by
    rw [insert_byClient]
    exact h.distinct.insert _ _
  counted := by
    rw [insert_byClient, KeyMap.size_insert_of_not_contains hc, h.counted,
      records_length_insert (fun i hi => ((h.free.mem_free i).mp hi).1)
        (fun i hi => ((h.free.mem_free i).mp hi).2)]

theorem Consistent.insert (h : b.Consistent) {r : OrderRecord}
    (hc : b.containsClient r.order.clientOrderId = false)
    (hv : ∀ v, r.order.venueOrderId = some v → b.byVenue.get? v = none) :
    (b.insert r).2.Consistent where
  toClientConsistent := h.toClientConsistent.insert hc
  venue := by
    rw [h.free.get?_insert]
    exact h.venue.fill (h.free.get?_insert_fst r) hv (get?_insert_byVenue b r)

theorem FreeSlots.of_same_empty (h : b.FreeSlots) {b' : OrderBook} (hfree : b'.free = b.free)
    (hsize : b'.slots.size = b.slots.size) (hempty : ∀ j, b'.get? j = none ↔ b.get? j = none) :
    b'.FreeSlots :=
  ⟨hfree ▸ h.nodup, fun j => by rw [hfree, hsize, hempty, h.mem_free]⟩

theorem FreeSlots.modify (h : b.FreeSlots) (i : Nat) (f : OrderRecord → OrderRecord) :
    (b.modify i f).FreeSlots :=
  h.of_same_empty rfl (modify_size b i f) fun j => by
    rw [get?_modify]
    split <;> simp_all

theorem FreeSlots.assignVenueId (h : b.FreeSlots) (i : Nat) (v : VenueOrderId) :
    (b.assignVenueId i v).FreeSlots :=
  h.of_same_empty (assignVenueId_free b i v) (assignVenueId_size b i v) fun j => by
    rw [get?_assignVenueId]
    split <;> simp_all

theorem FreeSlots.discard (h : b.FreeSlots) (i : Nat) : (b.discard i).FreeSlots := by
  cases hr : b.get? i with
  | none => rwa [discard_of_get?_eq_none hr]
  | some r =>
    have hi : i ∉ b.free := fun hm => by simp [((h.mem_free i).mp hm).2] at hr
    refine ⟨?_, fun j => ?_⟩
    · rw [discard_of_get?_eq_some hr]
      exact List.nodup_cons.mpr ⟨hi, h.nodup⟩
    · rw [get?_discard_eq, discard_size]
      rw [discard_of_get?_eq_some hr]
      by_cases hj : j = i
      · subst hj
        simp [lt_size_of_get?_eq_some hr]
      · simp [hj, h.mem_free j]

theorem ClientConsistent.modify (h : b.ClientConsistent) {i : Nat} {r : OrderRecord}
    {f : OrderRecord → OrderRecord} (hr : b.get? i = some r)
    (hc : (f r).order.clientOrderId = r.order.clientOrderId) : (b.modify i f).ClientConsistent where
  free := h.free.modify i f
  client := h.client.congr fun j => by
    rw [get?_modify]
    split
    · subst j
      simp [hr, clientKey, hc]
    · rfl
  distinct := h.distinct
  counted := by rw [records_length_modify]; exact h.counted

theorem Consistent.modify (h : b.Consistent) {i : Nat} {r : OrderRecord}
    {f : OrderRecord → OrderRecord} (hr : b.get? i = some r)
    (hc : (f r).order.clientOrderId = r.order.clientOrderId)
    (hv : (f r).order.venueOrderId = r.order.venueOrderId) : (b.modify i f).Consistent where
  toClientConsistent := h.toClientConsistent.modify hr hc
  venue := h.venue.congr fun j => by
    rw [get?_modify]
    split
    · subst j
      simp [hr, venueKey, hv]
    · rfl

theorem Consistent.venueOwner_eq_none (h : b.Consistent) {v : VenueOrderId} {ex : Option Nat}
    (hown : b.venueOwner v ex = none) :
    b.byVenue.get? v = none ∨ ∃ j, b.byVenue.get? v = some j ∧ ex = some j := by
  unfold venueOwner at hown
  cases hv : b.byVenue.get? v with
  | none => exact .inl rfl
  | some j =>
    refine .inr ⟨j, rfl, ?_⟩
    by_cases hex : ex = some j
    · exact hex
    · obtain ⟨s, hs, -⟩ := Option.bind_eq_some_iff.mp ((h.venue v j).mp hv)
      simp [hv, hex, hs] at hown

theorem ClientConsistent.assignVenueId (h : b.ClientConsistent) (i : Nat) (v : VenueOrderId) :
    (b.assignVenueId i v).ClientConsistent where
  free := h.free.assignVenueId i v
  client := by
    rw [assignVenueId_byClient, get?_assignVenueId_eq]
    refine h.client.congr fun j => ?_
    by_cases hj : j = i
    · subst hj
      cases b.get? j <;> simp [clientKey]
    · rw [Function.update_of_ne hj]
  distinct := by rw [assignVenueId_byClient]; exact h.distinct
  counted := by rw [assignVenueId_byClient, records_length_assignVenueId]; exact h.counted

theorem Consistent.assignVenueId (h : b.Consistent) {i : Nat} {r : OrderRecord}
    {v : VenueOrderId} (hr : b.get? i = some r) (hown : b.venueOwner v (some i) = none) :
    (b.assignVenueId i v).Consistent where
  toClientConsistent := h.toClientConsistent.assignVenueId i v
  venue := by
    have hcleared : Indexes ((venueKey r).elim b.byVenue b.byVenue.erase) venueKey
        (Function.update b.get? i none) := h.venue.clear hr
      (fun k => by
        cases hk : venueKey r with
        | none => simp
        | some w => by_cases hw : w = k <;> simp [hw, Ne.symm])
    have hfresh : b.byVenue.get? v = none ∨ venueKey r = some v := by
      rcases h.venueOwner_eq_none hown with hnone | ⟨j, hj, hji⟩
      · exact .inl hnone
      · rw [← Option.some.inj hji] at hj
        exact .inr (by simpa [hr] using (h.venue v i).mp hj)
    have hfill : Indexes (b.assignVenueId i v).byVenue venueKey
        (Function.update (Function.update b.get? i none) i
          (some { r with order := { r.order with venueOrderId := some v } })) :=
      hcleared.fill (Function.update_self _ _ _)
      (fun k hk => by
        cases hk
        rcases hfresh with hnone | hold
        · cases venueKey r <;> simp [hnone]
        · simp [hold])
      (fun k => by
        rw [get?_assignVenueId_byVenue hr]
        by_cases hkv : k = v
        · simp [hkv, venueKey]
        · have hvk : ¬(some v = some k) := fun e => hkv (Option.some.inj e).symm
          cases venueKey r with
          | none => simp [venueKey, hkv, hvk]
          | some w => by_cases hw : w = k <;> simp [venueKey, hkv, hvk, hw, Ne.symm])
    rw [Function.update_idem] at hfill
    rwa [get?_assignVenueId_eq, hr, Option.map_some]

theorem ClientConsistent.discard (h : b.ClientConsistent) (i : Nat) :
    (b.discard i).ClientConsistent := by
  cases hr : b.get? i with
  | none => rwa [discard_of_get?_eq_none hr]
  | some r =>
    have hcontains : b.byClient.contains r.order.clientOrderId = true := by
      rw [KeyMap.contains, Option.isSome_iff_exists]
      exact ⟨i, (h.client _ i).mpr (by simp [hr, clientKey])⟩
    refine ⟨h.free.discard i, ?_, ?_, ?_⟩
    · rw [get?_discard_eq]
      exact h.client.clear hr (get?_discard_byClient hr)
    · rw [discard_of_get?_eq_some hr]
      exact h.distinct.erase _
    · have hlen := records_length_discard hr
      have hsize := KeyMap.size_erase_of_contains h.distinct hcontains
      have hcounted := h.counted
      rw [discard_of_get?_eq_some hr] at hlen ⊢
      simp only at hlen ⊢
      omega

theorem Consistent.discard (h : b.Consistent) (i : Nat) : (b.discard i).Consistent := by
  cases hr : b.get? i with
  | none => rwa [discard_of_get?_eq_none hr]
  | some r =>
    refine ⟨h.toClientConsistent.discard i, ?_⟩
    rw [get?_discard_eq]
    exact h.venue.clear hr (get?_discard_byVenue hr)

theorem FreeSlots.foldl_discard (h : b.FreeSlots) (slots : List Nat) :
    (slots.foldl OrderBook.discard b).FreeSlots := by
  induction slots generalizing b with
  | nil => exact h
  | cons i rest ih => exact ih (h.discard i)

theorem Consistent.foldl_discard (h : b.Consistent) (slots : List Nat) :
    (slots.foldl OrderBook.discard b).Consistent := by
  induction slots generalizing b with
  | nil => exact h
  | cons i rest ih => exact ih (h.discard i)

end Preservation

theorem get?_foldl_discard (slots : List Nat) (b : OrderBook) (j : Nat) :
    (slots.foldl OrderBook.discard b).get? j = if j ∈ slots then none else b.get? j := by
  induction slots generalizing b with
  | nil => simp
  | cons i rest ih =>
    rw [List.foldl_cons, ih, get?_discard_eq]
    by_cases hj : j = i
    · simp [hj]
    · by_cases hr : j ∈ rest <;> simp [hj, hr]

end TradeLedger.OrderBook
