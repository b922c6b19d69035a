import TradeLedger.KeyMap
import Mathlib.Data.List.Nodup

/-!
# Lookup in finite maps

What each operation of `KeyMap` does to lookup, and the bookkeeping of its keys. Lookup reads
the first entry of a key, so `insert` and `erase` are described by `get?` with no assumption on
the entries; the size needs the keys to be distinct, which `insert` and `erase` keep.
-/

namespace TradeLedger.KeyMap

variable {κ ν : Type} [DecidableEq κ]

def keys (m : KeyMap κ ν) : List κ := m.entries.map (·.1)

def Distinct (m : KeyMap κ ν) : Prop := m.keys.Nodup

theorem get?_eq_none_iff (m : KeyMap κ ν) (k : κ) : m.get? k = none ↔ k ∉ m.keys := by
  simp only [get?, Option.map_eq_none_iff, List.find?_eq_none, decide_eq_true_eq, keys,
    List.mem_map]
  constructor
  · rintro h ⟨e, he, rfl⟩
    exact h e he rfl
  · intro h e he hk
    exact h ⟨e, he, hk⟩

theorem contains_iff (m : KeyMap κ ν) (k : κ) : m.contains k = true ↔ k ∈ m.keys := by
  rw [contains, Option.isSome_iff_ne_none, ne_eq, get?_eq_none_iff, not_not]

theorem get?_eq_none_of_not_contains {m : KeyMap κ ν} {k : κ} (h : m.contains k = false) :
    m.get? k = none := by
  simpa [contains] using h

@[simp] theorem get?_insert (m : KeyMap κ ν) (k k' : κ) (v : ν) :
    (m.insert k v).get? k' = if k' = k then some v else m.get? k' := by
  unfold insert
  split
  · next hk =>
    have hsame : ∀ e : κ × ν, ((if e.1 = k then (k, v) else e).1 = k') = (e.1 = k') := by
      intro e
      by_cases he : e.1 = k <;> simp [he]
    simp only [get?, List.find?_map, Function.comp_def, hsame, Option.map_map]
    cases he : m.entries.find? (fun e => decide (e.1 = k')) with
    | none =>
      have hk' : k' ≠ k := by
        rintro rfl
        simp [contains, get?, he] at hk
      simp [hk']
    | some e =>
      have hek : e.1 = k' := by simpa using List.find?_some he
      by_cases h : k' = k
      · subst h
        simp [hek]
      · have hne : e.1 ≠ k := hek ▸ h
        simp [h, hne]
  · next hk =>
    have hnone := get?_eq_none_of_not_contains (Bool.eq_false_iff.mpr hk)
    simp only [get?, Option.map_eq_none_iff] at hnone
    by_cases h : k' = k
    · subst h
      simp [get?, List.find?_append, hnone]
    · simp [get?, List.find?_append, h, Ne.symm h]

@[simp] theorem get?_erase (m : KeyMap κ ν) (k k' : κ) :
    (m.erase k).get? k' = if k' = k then none else m.get? k' := by
  by_cases h : k' = k
  · subst h
    simp [erase, get?]
  · simp only [erase, get?, h, if_false, List.find?_filter]
    congr 2
    funext e
    by_cases he : e.1 = k'
    · subst he
      simp [h]
    · simp [he]

@[simp] theorem get?_mapValues (m : KeyMap κ ν) (f : ν → ν) (k : κ) :
    (m.mapValues f).get? k = (m.get? k).map f := by
  simp [mapValues, get?, List.find?_map, Function.comp_def]

theorem keys_insert_of_contains {m : KeyMap κ ν} {k : κ} (h : m.contains k = true) (v : ν) :
    (m.insert k v).keys = m.keys := by
  simp only [insert, h, if_true, keys, List.map_map]
  apply List.map_congr_left
  intro e _
  by_cases he : e.1 = k <;> simp [he]

theorem keys_insert_of_not_contains {m : KeyMap κ ν} {k : κ} (h : m.contains k = false) (v : ν) :
    (m.insert k v).keys = m.keys ++ [k] := by
  simp [insert, h, keys]

theorem keys_erase (m : KeyMap κ ν) (k : κ) : (m.erase k).keys = m.keys.filter (· ≠ k) := by
  simp only [keys, erase, List.filter_map, Function.comp_def]

theorem Distinct.insert {m : KeyMap κ ν} (h : m.Distinct) (k : κ) (v : ν) :
    (m.insert k v).Distinct := by
  cases hk : m.contains k
  · unfold Distinct
    rw [keys_insert_of_not_contains hk, List.nodup_append]
    refine ⟨h, List.nodup_singleton k, ?_⟩
    intro a ha b hb
    rw [List.mem_singleton] at hb
    subst hb
    rintro rfl
    exact absurd ((contains_iff m a).mpr ha) (by simp [hk])
  · unfold Distinct
    rw [keys_insert_of_contains hk]
    exact h

theorem mem_of_get? {m : KeyMap κ ν} {k : κ} {v : ν} (h : m.get? k = some v) :
    (k, v) ∈ m.entries := by
  unfold get? at h
  obtain ⟨e, he, rfl⟩ := Option.map_eq_some_iff.mp h
  have hk : e.1 = k := by simpa using List.find?_some he
  rw [← hk]
  exact List.mem_of_find?_eq_some he

theorem Distinct.erase {m : KeyMap κ ν} (h : m.Distinct) (k : κ) : (m.erase k).Distinct := by
  unfold Distinct
  rw [keys_erase]
  exact h.filter _

omit [DecidableEq κ] in
theorem distinct_empty : (empty : KeyMap κ ν).Distinct := List.nodup_nil

omit [DecidableEq κ] in
theorem size_eq_length_keys (m : KeyMap κ ν) : m.size = m.keys.length := by
  simp [size, keys]

theorem size_insert_of_not_contains {m : KeyMap κ ν} {k : κ} (h : m.contains k = false) (v : ν) :
    (m.insert k v).size = m.size + 1 := by
  simp [size_eq_length_keys, keys_insert_of_not_contains h]

theorem size_insert_of_contains {m : KeyMap κ ν} {k : κ} (h : m.contains k = true) (v : ν) :
    (m.insert k v).size = m.size := by
  simp [size_eq_length_keys, keys_insert_of_contains h]

theorem size_erase_of_contains {m : KeyMap κ ν} (hd : m.Distinct) {k : κ}
    (h : m.contains k = true) : (m.erase k).size + 1 = m.size := by
  have hmem := (contains_iff m k).mp h
  have hcount : m.keys.count k = 1 := List.count_eq_one_of_mem hd hmem
  have hlen := List.length_eq_length_filter_add (l := m.keys) (fun x => decide (x ≠ k))
  have hfilter : (m.keys.filter fun x => !decide (x ≠ k)).length = m.keys.count k := by
    rw [List.count_eq_length_filter]
    congr 1
    apply List.filter_congr
    intro x _
    by_cases hx : x = k <;> simp [hx]
  rw [size_eq_length_keys, size_eq_length_keys, keys_erase, hlen, hfilter, hcount]

/-! ## Merging a list into a map

A snapshot is merged into a map by inserting its items one after another, each under its key
with a value computed from the item and from the value it replaces (`upsertAll`). When a later
item of a key makes the value of an earlier one irrelevant (`Absorbs`), the merge is described
by the last item of each key (`lastOf`), which is what makes merging the same list twice the
same as merging it once. -/

section Upsert

variable {α : Type} (key : α → κ) (upd : α → Option ν → ν)

/-- The items inserted in order, each under its key with a value computed from the value it
replaces. -/
def upsertAll (m : KeyMap κ ν) (ps : List α) : KeyMap κ ν :=
  ps.foldl (fun m p => m.insert (key p) (upd p (m.get? (key p)))) m

/-- The last item of key `k`. -/
def lastOf (k : κ) : List α → Option α
  | [] => none
  | p :: ps => (lastOf k ps).or (if key p = k then some p else none)

/-- A later item of a key decides the value whatever an earlier item of the key made of it. -/
def Absorbs : Prop := ∀ p q o, key p = key q → upd p (some (upd q o)) = upd p o

variable {key upd}

omit [DecidableEq κ] in
theorem absorbs_const (val : α → ν) : Absorbs key fun p (_ : Option ν) => val p :=
  fun _ _ _ _ => rfl

theorem upsertAll_cons (m : KeyMap κ ν) (p : α) (ps : List α) :
    upsertAll key upd m (p :: ps) = upsertAll key upd (m.insert (key p) (upd p (m.get? (key p)))) ps :=
  rfl

theorem lastOf_key {k : κ} {p : α} : ∀ {ps : List α}, lastOf key k ps = some p → key p = k
  | [], h => by cases h
  | q :: ps, h => by
    cases hl : lastOf key k ps with
    | some p' =>
      rw [lastOf, hl, Option.some_or] at h
      cases h
      exact lastOf_key hl
    | none =>
      rw [lastOf, hl, Option.none_or] at h
      split_ifs at h with hq
      cases h
      exact hq

theorem lastOf_mem {k : κ} {p : α} : ∀ {ps : List α}, lastOf key k ps = some p → p ∈ ps
  | [], h => by cases h
  | q :: ps, h => by
    cases hl : lastOf key k ps with
    | some p' =>
      rw [lastOf, hl, Option.some_or] at h
      cases h
      exact List.mem_cons_of_mem q (lastOf_mem hl)
    | none =>
      rw [lastOf, hl, Option.none_or] at h
      split_ifs at h
      cases h
      exact List.mem_cons_self

/-- A key that some item has has a last item. -/
theorem lastOf_of_mem {k : κ} : ∀ {ps : List α}, k ∈ ps.map key → ∃ p, lastOf key k ps = some p
  | [], h => by cases h
  | q :: ps, h => by
    cases hl : lastOf key k ps with
    | some p => exact ⟨p, by rw [lastOf, hl, Option.some_or]⟩
    | none =>
      rw [List.map_cons, List.mem_cons] at h
      rcases h with hk | hk
      · exact ⟨q, by rw [lastOf, hl, Option.none_or, if_pos hk.symm]⟩
      · obtain ⟨p, hp⟩ := lastOf_of_mem hk
        rw [hl] at hp
        cases hp

theorem mem_keys_insert (m : KeyMap κ ν) (k : κ) (v : ν) {k' : κ} (h : k' = k ∨ k' ∈ m.keys) :
    k' ∈ (m.insert k v).keys := by
  cases hk : m.contains k
  · rw [keys_insert_of_not_contains hk]
    rcases h with rfl | h
    · simp
    · simp [h]
  · rw [keys_insert_of_contains hk]
    rcases h with rfl | h
    · exact (contains_iff m _).mp hk
    · exact h

theorem keys_subset_upsertAll (m : KeyMap κ ν) (ps : List α) {k : κ} (h : k ∈ m.keys) :
    k ∈ (upsertAll key upd m ps).keys := by
  induction ps generalizing m with
  | nil => exact h
  | cons p ps ih => exact ih _ (mem_keys_insert _ _ _ (.inr h))

theorem key_mem_upsertAll (m : KeyMap κ ν) {ps : List α} {p : α} (hp : p ∈ ps) :
    key p ∈ (upsertAll key upd m ps).keys := by
  induction ps generalizing m with
  | nil => cases hp
  | cons q ps ih =>
    rw [upsertAll_cons]
    rcases List.mem_cons.mp hp with rfl | hp
    · exact keys_subset_upsertAll _ _ (mem_keys_insert _ _ _ (.inl rfl))
    · exact ih _ hp

theorem get?_upsertAll (habs : Absorbs key upd) (m : KeyMap κ ν) (ps : List α) (k : κ) :
    (upsertAll key upd m ps).get? k = match lastOf key k ps with
      | some p => some (upd p (m.get? k))
      | none => m.get? k := by
  induction ps generalizing m with
  | nil => rfl
  | cons p ps ih =>
    rw [upsertAll_cons, ih, get?_insert]
    cases hl : lastOf key k ps with
    | some q =>
      have hq : key q = k := lastOf_key hl
      simp only [lastOf, hl, Option.some_or]
      by_cases hk : k = key p
      · subst hk
        rw [if_pos rfl, habs q p _ hq]
      · rw [if_neg hk]
    | none =>
      simp only [lastOf, hl, Option.none_or]
      by_cases hk : k = key p
      · subst hk
        simp
      · simp [hk, Ne.symm hk]

theorem mem_insert {m : KeyMap κ ν} {k : κ} {v : ν} {e : κ × ν} (he : e ∈ (m.insert k v).entries) :
    e = (k, v) ∨ (e.1 ≠ k ∧ e ∈ m.entries) := by
  unfold insert at he
  split at he
  · obtain ⟨e', he', rfl⟩ := List.mem_map.mp he
    by_cases h : e'.1 = k
    · left
      simp [h]
    · right
      simp [h, he']
  · rename_i hnot
    rcases List.mem_append.mp he with hold | hnew
    · refine .inr ⟨?_, hold⟩
      rintro rfl
      exact hnot ((contains_iff m _).mpr (List.mem_map_of_mem hold))
    · exact .inl (List.mem_singleton.mp hnew)

theorem mem_of_mem_upsertAll {m : KeyMap κ ν} {ps : List α} {e : κ × ν}
    (he : e ∈ (upsertAll key upd m ps).entries) (hl : lastOf key e.1 ps = none) :
    e ∈ m.entries := by
  induction ps generalizing m with
  | nil => exact he
  | cons p ps ih =>
    simp only [lastOf, Option.or_eq_none_iff, ite_eq_right_iff, reduceCtorEq, imp_false] at hl
    rw [upsertAll_cons] at he
    rcases mem_insert (ih he hl.1) with rfl | ⟨-, he'⟩
    · exact absurd rfl hl.2
    · exact he'

theorem snd_of_mem_upsertAll (habs : Absorbs key upd) {m : KeyMap κ ν} {ps : List α}
    {e : κ × ν} {p : α} (he : e ∈ (upsertAll key upd m ps).entries)
    (hl : lastOf key e.1 ps = some p) : e.2 = upd p (m.get? e.1) := by
  induction ps generalizing m with
  | nil => cases hl
  | cons q ps ih =>
    rw [upsertAll_cons] at he
    cases hrest : lastOf key e.1 ps with
    | some p' =>
      have hp : p' = p := by simpa [lastOf, hrest] using hl
      subst hp
      rw [ih he hrest, get?_insert]
      by_cases hk : e.1 = key q
      · rw [if_pos hk, habs p' q _ ((lastOf_key hrest).trans hk), hk]
      · rw [if_neg hk]
    | none =>
      have hq : key q = e.1 ∧ q = p := by
        simp only [lastOf, hrest, Option.none_or] at hl
        split_ifs at hl with h
        cases hl
        exact ⟨h, rfl⟩
      obtain ⟨hkey, rfl⟩ := hq
      rcases mem_insert (mem_of_mem_upsertAll he hrest) with rfl | ⟨hne, -⟩
      · rfl
      · exact absurd hkey.symm hne

/-- Merging into a map that has every item's key changes the value of each such key in place. -/
theorem upsertAll_of_mem (habs : Absorbs key upd) {m : KeyMap κ ν} {ps : List α}
    (h : ∀ p ∈ ps, key p ∈ m.keys) :
    upsertAll key upd m ps = ⟨m.entries.map fun e => match lastOf key e.1 ps with
      | some p => (e.1, upd p (m.get? e.1))
      | none => e⟩ := by
  induction ps generalizing m with
  | nil => simp [upsertAll, lastOf]
  | cons p ps ih =>
    have hc : m.contains (key p) = true := (contains_iff m _).mpr (h p (by simp))
    have hkeys : (m.insert (key p) (upd p (m.get? (key p)))).keys = m.keys :=
      keys_insert_of_contains hc _
    have hentries : (m.insert (key p) (upd p (m.get? (key p)))).entries =
        m.entries.map fun e => if e.1 = key p then (key p, upd p (m.get? (key p))) else e := by
      simp only [insert, hc, if_true]
    rw [upsertAll_cons, ih fun q hq => hkeys ▸ h q (by simp [hq])]
    simp only [get?_insert]
    rw [hentries, List.map_map]
    congr 1
    apply List.map_congr_left
    rintro ⟨k, v⟩ _
    by_cases hk : k = key p
    · subst hk
      cases hl : lastOf key (key p) ps with
      | some q =>
        have habs' := habs q p (m.get? (key p)) (lastOf_key hl)
        simp [lastOf, hl, habs']
      | none => simp [lastOf, hl]
    · cases hl : lastOf key k ps with
      | some q => simp [hk, lastOf, hl, Ne.symm hk]
      | none => simp [hk, lastOf, hl, Ne.symm hk]

omit [DecidableEq κ] in
@[simp] theorem mapValues_id (m : KeyMap κ ν) : m.mapValues (fun v => v) = m := by
  simp [mapValues]

omit [DecidableEq κ] in
@[simp] theorem keys_mapValues (m : KeyMap κ ν) (f : ν → ν) : (m.mapValues f).keys = m.keys := by
  simp [keys, mapValues, List.map_map, Function.comp_def]

theorem mapValues_insert (m : KeyMap κ ν) (f : ν → ν) (k : κ) (v : ν) :
    (m.insert k v).mapValues f = (m.mapValues f).insert k (f v) := by
  have hc : (m.mapValues f).contains k = m.contains k := by simp [contains]
  unfold insert
  rw [hc]
  split
  · simp only [mapValues, List.map_map, KeyMap.mk.injEq]
    apply List.map_congr_left
    intro e _
    by_cases he : e.1 = k <;> simp [he]
  · simp [mapValues]

theorem mapValues_upsertAll (f : ν → ν) (val : α → ν) (m : KeyMap κ ν) (ps : List α) :
    (upsertAll key (fun p _ => val p) m ps).mapValues f =
      upsertAll key (fun p _ => f (val p)) (m.mapValues f) ps := by
  induction ps generalizing m with
  | nil => rfl
  | cons p ps ih => rw [upsertAll_cons, upsertAll_cons, ih, mapValues_insert]

/-- Merging a list again, into the merge with its values mapped by `R`, gives the merge back,
when `R` is forgotten by every item and changes no value of the map merged into. -/
theorem upsertAll_remerge (habs : Absorbs key upd) {R : ν → ν}
    (hR : ∀ p x, upd p (some (R x)) = upd p (some x)) {m : KeyMap κ ν}
    (hm : ∀ e ∈ m.entries, R e.2 = e.2) (ps : List α) :
    upsertAll key upd ((upsertAll key upd m ps).mapValues R) ps = upsertAll key upd m ps := by
  have hkeys : ∀ p ∈ ps, key p ∈ ((upsertAll key upd m ps).mapValues R).keys := fun p hp => by
    rw [keys_mapValues]
    exact key_mem_upsertAll m hp
  rw [upsertAll_of_mem habs hkeys]
  show (⟨_⟩ : KeyMap κ ν) = ⟨(upsertAll key upd m ps).entries⟩
  congr 1
  conv_rhs => rw [← List.map_id (upsertAll key upd m ps).entries]
  have hent : ((upsertAll key upd m ps).mapValues R).entries =
      (upsertAll key upd m ps).entries.map fun e => (e.1, R e.2) := rfl
  rw [hent, List.map_map]
  apply List.map_congr_left
  intro e he
  cases hl : lastOf key e.1 ps with
  | some p =>
    have hget : ((upsertAll key upd m ps).mapValues R).get? e.1 =
        some (R (upd p (m.get? e.1))) := by
      rw [get?_mapValues, get?_upsertAll habs, hl, Option.map_some]
    simp only [Function.comp_apply, hl, hget, hR, habs p p _ rfl, id]
    rw [← snd_of_mem_upsertAll habs he hl]
  | none =>
    simp only [Function.comp_apply, hl, id]
    rw [hm e (mem_of_mem_upsertAll he hl)]

theorem upsertAll_upsertAll (habs : Absorbs key upd) (m : KeyMap κ ν) (ps : List α) :
    upsertAll key upd (upsertAll key upd m ps) ps = upsertAll key upd m ps := by
  have hid := upsertAll_remerge habs (R := fun v => v) (fun _ _ => rfl) (fun _ _ => rfl) ps (m := m)
  rwa [mapValues_id] at hid

end Upsert

end TradeLedger.KeyMap
