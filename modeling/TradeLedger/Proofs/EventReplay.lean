import Mathlib
import TradeLedger.Proofs.Run

/-!
# Replaying the event log

The event log is meant to be a faithful trace of the ledger: read from a known account, its
events alone say what the account becomes. This module states what that means.

`EventLog.Logged log ps log'` says that `log'` is `log` with the payloads `ps` recorded one after
another. A log keeps only its most recent events, but as long as its capacity covers what was
recorded, the events recorded since an earlier log are exactly `ps` (`Logged.recordedSince`).

A `LedgerView` is what the log tells of an account: its margin, the size and cost of each
position, the balance of each asset and the status of each order by client id. `follow` reads
one event into a view and refuses an event that contradicts it: a status change from a status
the order is not in, a position change from another size, a balance change that is not the
balance before plus its delta. `Account.Shows a v` says that the view `v` is what `a` holds.
-/

namespace TradeLedger

namespace EventLog

/-- `log'` is `log` after the payloads `ps` were recorded one after another, each at some time. -/
inductive Logged (log : EventLog) : List EventPayload → EventLog → Prop
  | nil : Logged log [] log
  | record {ps : List EventPayload} {log' : EventLog} (t : Timestamp) (p : EventPayload) :
      Logged log ps log' → Logged log (ps ++ [p]) (log'.record t p)

/-- The events recorded since the log stood at `before`, as far as it still keeps them. -/
def recordedSince (log before : EventLog) : List Event := log.recent (log.nextId - before.nextId)

variable {log log₁ log' : EventLog} {ps qs : List EventPayload}

@[simp] theorem record_nextId (log : EventLog) (t : Timestamp) (p : EventPayload) :
    (log.record t p).nextId = log.nextId + 1 := rfl

@[simp] theorem record_capacity (log : EventLog) (t : Timestamp) (p : EventPayload) :
    (log.record t p).capacity = log.capacity := rfl

theorem record_events (log : EventLog) (t : Timestamp) (p : EventPayload) :
    (log.record t p).events =
      (log.events ++ [Event.mk log.nextId t p]).drop ((log.events.length + 1) - log.capacity) := by
  simp [record]

theorem Logged.single (t : Timestamp) (p : EventPayload) : Logged log [p] (log.record t p) :=
  .record t p .nil

theorem Logged.trans (h₁ : Logged log ps log₁) (h₂ : Logged log₁ qs log') :
    Logged log (ps ++ qs) log' := by
  induction h₂ with
  | nil => simpa using h₁
  | record t p _ ih =>
    rw [← List.append_assoc]
    exact .record t p ih

theorem Logged.capacity_eq (h : Logged log ps log') : log'.capacity = log.capacity := by
  induction h with
  | nil => rfl
  | record _ _ _ ih => rw [record_capacity, ih]

theorem Logged.nextId_eq (h : Logged log ps log') : log'.nextId = log.nextId + ps.length := by
  induction h with
  | nil => rfl
  | record _ _ _ ih =>
    rw [record_nextId, ih, List.length_append, List.length_singleton]
    omega

theorem Logged.suffix (h : Logged log ps log') :
    ∃ xs d, xs.map (·.payload) = ps ∧ d ≤ (log.events ++ xs).length ∧
      log'.events = (log.events ++ xs).drop d ∧
      (ps.length ≤ log.capacity → ps.length ≤ log'.events.length) := by
  induction h with
  | nil => exact ⟨[], 0, rfl, by simp, by simp, fun _ => by simp⟩
  | @record ps log' t p h ih =>
    obtain ⟨xs, d, hxs, hd, hev, hlen⟩ := ih
    have hcap := h.capacity_eq
    obtain ⟨k, hk⟩ : ∃ k, k = (log'.events.length + 1) - log'.capacity := ⟨_, rfl⟩
    have hlen' : log'.events.length = log.events.length + xs.length - d := by
      rw [hev, List.length_drop, List.length_append]
    simp only [List.length_append] at hd
    refine ⟨xs ++ [Event.mk log'.nextId t p], d + k, by simp [hxs], ?_, ?_, fun hc => ?_⟩
    · simp only [List.length_append, List.length_singleton]
      omega
    · rw [record_events, ← hk, hev, ← List.drop_append_of_le_length (by simpa using hd),
        List.drop_drop, List.append_assoc]
    · simp only [List.length_append, List.length_singleton] at hc
      have hps : ps.length ≤ log'.events.length := hlen (by omega)
      rw [record_events, ← hk]
      simp only [List.length_drop, List.length_append, List.length_singleton]
      omega

/-- The last `ps.length` events of the log are those recorded, when the capacity covers them. -/
theorem Logged.recent (h : Logged log ps log') (hcap : ps.length ≤ log.capacity) :
    (log'.recent ps.length).map (·.payload) = ps := by
  obtain ⟨xs, d, hxs, hd, hev, hlen⟩ := h.suffix
  have hkept := hlen hcap
  have hxl : xs.length = ps.length := by rw [← hxs, List.length_map]
  have hstart : d + (log'.events.length - ps.length) = log.events.length := by
    rw [hev, List.length_drop, List.length_append] at hkept ⊢
    rw [List.length_append] at hd
    omega
  rw [EventLog.recent, hev, List.drop_drop, ← hev, hstart, List.drop_left, hxs]

theorem Logged.recordedSince (h : Logged log ps log') (hcap : ps.length ≤ log.capacity) :
    (log'.recordedSince log).map (·.payload) = ps := by
  rw [EventLog.recordedSince, h.nextId_eq, Nat.add_sub_cancel_left]
  exact h.recent hcap

end EventLog

def EventPayload.realized : EventPayload → Int
  | .positionChanged _ _ _ _ pnl => pnl.toInt
  | _ => 0

def EventPayload.charged : EventPayload → Int
  | .commission _ _ _ fee => fee.toInt
  | _ => 0

/-- What the event log tells of an account: its margin in raw units, the raw size and cost of
each position, the balance of each asset and the status of each order by client id. -/
structure LedgerView where
  margin : Int
  positions : SecurityId → Option (Int64 × Int64)
  balances : String → Decimal
  statuses : ClientOrderId → Option OrderStatus

namespace LedgerView

def withStatus (v : LedgerView) (c : ClientOrderId) (s : OrderStatus) : LedgerView :=
  { v with statuses := Function.update v.statuses c (some s) }

def withPosition (v : LedgerView) (sid : SecurityId) (size cost : Int64) (pnl : Int) : LedgerView :=
  { v with margin := v.margin + pnl, positions := Function.update v.positions sid (some (size, cost)) }

def withBalance (v : LedgerView) (asset : String) (q : Decimal) : LedgerView :=
  { v with balances := Function.update v.balances asset q }

/-- One event read into the view, or `none` when the event contradicts the view. An accepted
order is `pendingNew`; a status change must start from the order's status, a position change
from the position's size (0 when there is none), and a balance change must end at the balance
before plus its delta. Fills only report; a snapshot cannot be followed. -/
def follow (v : LedgerView) : EventPayload → Option LedgerView
  | .orderAccepted c _ _ _ _ => some (v.withStatus c .pendingNew)
  | .orderStatusChanged c s s' _ => if v.statuses c = some s then some (v.withStatus c s') else none
  | .fill .. => some v
  | .positionChanged sid old new cost pnl =>
    if ((v.positions sid).map (·.1)).getD 0 = old then some (v.withPosition sid new cost pnl.toInt)
    else none
  | .commission _ _ _ fee => some { v with margin := v.margin - fee.toInt }
  | .balanceChanged asset delta balance =>
    if (v.balances asset).add? delta = some balance then some (v.withBalance asset balance)
    else none
  | .synced .. => none

/-- The events read into the view in order; `none` once one contradicts it. -/
def replay (v : LedgerView) (ps : List EventPayload) : Option LedgerView := ps.foldlM follow v

variable {v w : LedgerView} {p : EventPayload} {ps qs : List EventPayload}

@[simp] theorem replay_nil (v : LedgerView) : v.replay [] = some v := rfl

theorem replay_cons : v.replay (p :: ps) = (v.follow p).bind (·.replay ps) := by
  simp only [replay, List.foldlM_cons]
  rfl

theorem replay_append : v.replay (ps ++ qs) = (v.replay ps).bind (·.replay qs) := by
  simp only [replay, List.foldlM_append]
  rfl

theorem replay_single : v.replay [p] = v.follow p := by
  rw [replay_cons]
  cases v.follow p <;> rfl

theorem follow_margin (h : v.follow p = some w) : w.margin = v.margin + p.realized - p.charged := by
  cases p with
  | orderAccepted => cases h; simp [withStatus, EventPayload.realized, EventPayload.charged]
  | orderStatusChanged =>
    simp only [follow] at h
    split at h
    · cases h
      simp [withStatus, EventPayload.realized, EventPayload.charged]
    · cases h
  | fill => cases h; simp [EventPayload.realized, EventPayload.charged]
  | positionChanged =>
    simp only [follow] at h
    split at h
    · cases h
      simp [withPosition, EventPayload.realized, EventPayload.charged]
    · cases h
  | commission => cases h; simp [EventPayload.realized, EventPayload.charged]
  | balanceChanged =>
    simp only [follow] at h
    split at h
    · cases h
      simp [withBalance, EventPayload.realized, EventPayload.charged]
    · cases h
  | synced => cases h

/-- The margin the replay ends at is the margin it starts at, plus every realized profit and
less every fee the events record. -/
theorem replay_margin : ∀ {v w : LedgerView} {ps : List EventPayload}, v.replay ps = some w →
    w.margin = v.margin + (ps.map EventPayload.realized).sum - (ps.map EventPayload.charged).sum
  | _, _, [], h => by
    cases h
    simp
  | v, w, p :: ps, h => by
    rw [replay_cons] at h
    cases hf : v.follow p with
    | none => simp [hf] at h
    | some u =>
      rw [hf, Option.bind_some] at h
      rw [replay_margin h, follow_margin hf]
      simp only [List.map_cons, List.sum_cons]
      omega

end LedgerView

namespace Account

/-- The view that a replay starts from: the account's own margin, positions, balances, and the
status of the order each client id reaches. -/
def ledgerView (a : Account) : LedgerView where
  margin := a.margin.toInt
  positions sid := (a.positions.get? sid).map fun p => (p.rawSize, p.cost)
  balances := a.balances.get
  statuses c := (a.order? (.client c)).map (·.status)

/-- The view `v` says what the account holds: its margin, the size and cost of every position,
every balance, and for every order in the book, the status under its client id. -/
structure Shows (a : Account) (v : LedgerView) : Prop where
  margin : v.margin = a.margin.toInt
  positions : ∀ sid, v.positions sid = (a.positions.get? sid).map fun p => (p.rawSize, p.cost)
  balances : ∀ asset, v.balances asset = a.balances.get asset
  statuses : ∀ i r, a.orders.get? i = some r → v.statuses r.order.clientOrderId = some r.status

theorem shows_ledgerView {a : Account} (h : a.orders.ClientConsistent) : a.Shows a.ledgerView where
  margin := rfl
  positions _ := rfl
  balances _ := rfl
  statuses i r hr := by
    have hl : a.orders.lookup (.client r.order.clientOrderId) = some i :=
      (h.client _ i).mpr (by simp [hr, OrderBook.clientKey])
    simp [ledgerView, order?, OrderBook.find?, hl, hr, OrderRecord.status]

end Account

end TradeLedger
