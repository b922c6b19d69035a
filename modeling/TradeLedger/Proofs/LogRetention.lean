import Mathlib
import TradeLedger.Proofs.EventReplay

/-!
# What the event log keeps

A log is driven by two calls: recording a payload, which numbers it with the log's next id, and
draining, which hands out the events the log keeps and empties it. Read off the calls alone,
the events they record are numbered `1, 2, 3, …` in the order of the records
(`LogCall.recorded`), and those recorded since the last drain are the last of them
(`LogCall.undrained`).

Main statement (`EventLog.performAll_create_keeps`): after any calls on a fresh log of capacity
`c`, the log keeps the last `c` of the events recorded since the last drain, in order, their ids
running one by one up to the last id given out; the next id is one past the number of records,
whatever drains came between; every drain hands out exactly what the log kept and empties it,
and `recent n` gives the last `n` of what it keeps. Everything ever handed out or kept is a
sublist of the recorded events, so no id is handed out twice.
-/

namespace TradeLedger

/-- A call on an event log: record a payload at a time, or drain the log. -/
inductive LogCall where
  | record (t : Timestamp) (p : EventPayload)
  | drain

namespace LogCall

def isRecord : LogCall → Bool
  | .record .. => true
  | .drain => false

/-- The events the calls record, numbered from `first` on in the order of the records; a drain
records nothing. -/
def recorded (first : Nat) : List LogCall → List Event
  | [] => []
  | .record t p :: cs => ⟨first, t, p⟩ :: recorded (first + 1) cs
  | .drain :: cs => recorded first cs

/-- The events recorded after the last drain (all of them when there is none), with the ids
they got among all records. -/
def undrained (cs : List LogCall) : List Event :=
  (recorded 1 cs).rtake (cs.rtakeWhile isRecord).length

theorem recorded_append (first : Nat) (cs ds : List LogCall) :
    recorded first (cs ++ ds) =
      recorded first cs ++ recorded (first + (recorded first cs).length) ds := by
  induction cs generalizing first with
  | nil => simp [recorded]
  | cons c cs ih =>
    cases c with
    | record t p =>
      simp only [List.cons_append, recorded, ih, List.length_cons]
      rw [Nat.add_assoc, Nat.add_comm 1]
    | drain => simp only [List.cons_append, recorded, ih]

@[simp] theorem recorded_concat_record (first : Nat) (cs : List LogCall) (t : Timestamp)
    (p : EventPayload) :
    recorded first (cs ++ [.record t p]) =
      recorded first cs ++ [⟨first + (recorded first cs).length, t, p⟩] := by
  simp [recorded_append, recorded]

@[simp] theorem recorded_concat_drain (first : Nat) (cs : List LogCall) :
    recorded first (cs ++ [.drain]) = recorded first cs := by
  simp [recorded_append, recorded]

theorem map_id_recorded (first : Nat) (cs : List LogCall) :
    (recorded first cs).map (·.id) = List.range' first (recorded first cs).length := by
  induction cs generalizing first with
  | nil => rfl
  | cons c cs ih =>
    cases c with
    | record t p => simp [recorded, ih, List.range'_succ]
    | drain => exact ih first

theorem length_rtakeWhile_le (cs : List LogCall) :
    (cs.rtakeWhile isRecord).length ≤ (recorded 1 cs).length := by
  induction cs using List.reverseRecOn with
  | nil => simp
  | append_singleton cs c ih =>
    cases c with
    | record t p =>
      rw [List.rtakeWhile_concat_pos _ _ _ rfl, recorded_concat_record, List.length_append,
        List.length_append]
      simpa using ih
    | drain => simp [List.rtakeWhile_concat_neg isRecord cs drain (by simp [isRecord])]

theorem undrained_concat_record (cs : List LogCall) (t : Timestamp) (p : EventPayload) :
    undrained (cs ++ [.record t p]) =
      undrained cs ++ [⟨1 + (recorded 1 cs).length, t, p⟩] := by
  rw [undrained, undrained, List.rtakeWhile_concat_pos _ _ _ rfl, recorded_concat_record,
    List.length_append, List.length_singleton, List.rtake_concat_succ]

@[simp] theorem undrained_concat_drain (cs : List LogCall) : undrained (cs ++ [.drain]) = [] := by
  simp [undrained, List.rtakeWhile_concat_neg isRecord cs drain (by simp [isRecord])]

theorem length_undrained (cs : List LogCall) :
    (undrained cs).length = (cs.rtakeWhile isRecord).length := by
  have := length_rtakeWhile_le cs
  simp only [undrained, List.rtake, List.length_drop]
  omega

end LogCall

/-! ## Keeping the last events of a list -/

theorem List.rtake_rtake {α : Type} (l : List α) (m n : Nat) :
    (l.rtake m).rtake n = l.rtake (min n m) := by
  simp only [List.rtake_eq_reverse_take_reverse, List.reverse_reverse, List.take_take]

theorem List.rtake_sublist {α : Type} (l : List α) (n : Nat) : List.Sublist (l.rtake n) l :=
  List.drop_sublist _ _

theorem List.rtake_concat_rtake {α : Type} (l : List α) (x : α) (n : Nat) :
    (l.rtake n ++ [x]).rtake n = (l ++ [x]).rtake n := by
  rw [← List.rtake_concat_succ, List.rtake_rtake, Nat.min_eq_left (Nat.le_succ n)]

namespace EventLog

theorem record_eq (log : EventLog) (t : Timestamp) (p : EventPayload) :
    log.record t p =
      ⟨(log.events ++ [Event.mk log.nextId t p]).rtake log.capacity, log.nextId + 1,
        log.capacity⟩ := rfl

def perform : List (List Event) × EventLog → LogCall → List (List Event) × EventLog
  | (out, log), .record t p => (out, log.record t p)
  | (out, log), .drain => (out ++ [log.drain.1], log.drain.2)

/-- The calls run in order from `log`: the batches the drains handed out, and the log after. -/
def performAll (log : EventLog) (cs : List LogCall) : List (List Event) × EventLog :=
  cs.foldl perform ([], log)

@[simp] theorem performAll_nil (log : EventLog) : log.performAll [] = ([], log) := rfl

@[simp] theorem performAll_concat_record (log : EventLog) (cs : List LogCall) (t : Timestamp)
    (p : EventPayload) :
    log.performAll (cs ++ [.record t p]) =
      ((log.performAll cs).1, (log.performAll cs).2.record t p) := by
  simp [performAll, perform]

@[simp] theorem performAll_concat_drain (log : EventLog) (cs : List LogCall) :
    log.performAll (cs ++ [.drain]) =
      ((log.performAll cs).1 ++ [(log.performAll cs).2.events],
        { (log.performAll cs).2 with events := [] }) := by
  simp [performAll, perform, drain]

theorem performAll_create (c : Nat) (cs : List LogCall) :
    ((create c).performAll cs).2 =
      ⟨(LogCall.undrained cs).rtake c, (LogCall.recorded 1 cs).length + 1, c⟩ := by
  induction cs using List.reverseRecOn with
  | nil => simp [LogCall.undrained, LogCall.recorded, create]
  | append_singleton cs call ih =>
    cases call with
    | record t p =>
      rw [performAll_concat_record, ih]
      simp only [record_eq]
      rw [LogCall.undrained_concat_record, LogCall.recorded_concat_record, List.length_append,
        List.length_singleton, Nat.add_comm 1, List.rtake_concat_rtake]
    | drain =>
      rw [performAll_concat_drain, ih, LogCall.undrained_concat_drain,
        LogCall.recorded_concat_drain]
      simp [List.rtake_nil]

theorem performAll_create_nextId (c : Nat) (cs : List LogCall) :
    ((create c).performAll cs).2.nextId = (LogCall.recorded 1 cs).length + 1 := by
  rw [performAll_create]

theorem performAll_create_events (c : Nat) (cs : List LogCall) :
    ((create c).performAll cs).2.events =
      (LogCall.recorded 1 cs).rtake (min c (cs.rtakeWhile LogCall.isRecord).length) := by
  rw [performAll_create, LogCall.undrained, List.rtake_rtake]

theorem performAll_create_ids (c : Nat) (cs : List LogCall) :
    ((create c).performAll cs).2.events.map (·.id) =
      List.range' (((create c).performAll cs).2.nextId - ((create c).performAll cs).2.events.length)
        ((create c).performAll cs).2.events.length := by
  have hk := LogCall.length_rtakeWhile_le cs
  rw [performAll_create_events, performAll_create]
  simp only [List.rtake, List.length_drop, List.map_drop, LogCall.map_id_recorded,
    List.drop_range', Nat.mul_one]
  congr 1
  omega

theorem performAll_create_sublist (c : Nat) (cs : List LogCall) :
    List.Sublist (((create c).performAll cs).1.flatten ++ ((create c).performAll cs).2.events)
      (LogCall.recorded 1 cs) := by
  induction cs using List.reverseRecOn with
  | nil => simp [create]
  | append_singleton cs call ih =>
    cases call with
    | record t p =>
      have hnext : ((create c).performAll cs).2.nextId = 1 + (LogCall.recorded 1 cs).length := by
        rw [performAll_create_nextId, Nat.add_comm]
      rw [performAll_concat_record, LogCall.recorded_concat_record]
      simp only [record_eq]
      rw [hnext]
      refine (List.Sublist.append_left (List.rtake_sublist _ _) _).trans ?_
      rw [← List.append_assoc]
      exact ih.append (List.Sublist.refl _)
    | drain =>
      rw [performAll_concat_drain, LogCall.recorded_concat_drain, List.flatten_concat,
        List.append_nil]
      exact ih

theorem performAll_create_ids_increase (c : Nat) (cs : List LogCall) :
    ((((create c).performAll cs).1.flatten ++ ((create c).performAll cs).2.events).map
      (·.id)).Pairwise (· < ·) := by
  have hsub := (performAll_create_sublist c cs).map (·.id)
  rw [LogCall.map_id_recorded] at hsub
  exact (List.pairwise_lt_range' 1).sublist hsub

/-- A fresh log of capacity `c`, after any record and drain calls `cs`, of which the last `k`
are records: it keeps the last `c` of the `k` events recorded since the last drain, `min c k` of
them, their ids consecutive and ending at the last id given out; ids are numbered from 1 on, one
per record, drains in between; a drain now would hand out exactly what it keeps and empty it;
`recent n` gives the last `n` of what it keeps; and no id is handed out twice. -/
theorem performAll_create_keeps (c : Nat) (cs : List LogCall) :
    let run := (create c).performAll cs
    let k := (cs.rtakeWhile LogCall.isRecord).length
    run.2.events = (LogCall.undrained cs).rtake c ∧ run.2.events.length = min c k ∧
    run.2.events.map (·.id) = List.range' (run.2.nextId - run.2.events.length) run.2.events.length ∧
    run.2.nextId = (LogCall.recorded 1 cs).length + 1 ∧
    (LogCall.recorded 1 cs).map (·.id) = List.range' 1 (LogCall.recorded 1 cs).length ∧
    (create c).performAll (cs ++ [.drain]) = (run.1 ++ [run.2.events], { run.2 with events := [] }) ∧
    (∀ n, run.2.recent n = (LogCall.undrained cs).rtake (min n c)) ∧
    List.Sublist (run.1.flatten ++ run.2.events) (LogCall.recorded 1 cs) ∧
    ((run.1.flatten ++ run.2.events).map (·.id)).Pairwise (· < ·) := by
  intro run k
  have hlog : run.2 = ⟨(LogCall.undrained cs).rtake c, (LogCall.recorded 1 cs).length + 1, c⟩ :=
    performAll_create c cs
  have hlen : run.2.events.length = min c k := by
    rw [hlog]
    simp only [List.rtake, List.length_drop, LogCall.length_undrained]
    omega
  refine ⟨by rw [hlog], hlen, performAll_create_ids c cs, performAll_create_nextId c cs,
    LogCall.map_id_recorded 1 cs, performAll_concat_drain _ cs, fun n => ?_,
    performAll_create_sublist c cs, performAll_create_ids_increase c cs⟩
  rw [recent, ← List.rtake, hlog, List.rtake_rtake]

theorem performAll_create_id_lt_nextId (c : Nat) (cs : List LogCall) :
    ∀ e ∈ ((create c).performAll cs).1.flatten ++ ((create c).performAll cs).2.events,
      e.id < ((create c).performAll cs).2.nextId := by
  intro e he
  have hmem : e.id ∈ (LogCall.recorded 1 cs).map (·.id) :=
    List.mem_map_of_mem ((performAll_create_sublist c cs).subset he)
  rw [LogCall.map_id_recorded, List.mem_range'_1] at hmem
  rw [performAll_create_nextId]
  omega

theorem performAll_create_nextId_fits (c : Nat) (cs : List LogCall) :
    ((create c).performAll cs).2.nextId < 2 ^ 64 ↔ (LogCall.recorded 1 cs).length < 2 ^ 64 - 1 := by
  rw [performAll_create_nextId]
  omega

end EventLog

end TradeLedger
