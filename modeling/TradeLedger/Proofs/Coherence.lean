import TradeLedger.Proofs.Keeps
import TradeLedger.Proofs.Reconciliation

/-!
# Coherent accounts

Two facts hold of every reachable account: its margin grid is the one its settings give, and
each of its positions is filed once, under the security id it carries. Only margined fills and
snapshots write positions. A fill files the position it read under the same id, updated by
`applyFill`, which never changes a position's id; a snapshot resets the positions and merges
the reported ones in under their own ids. Every other command is blind to both facts
(`Account.keeps_handle`).
-/

namespace TradeLedger

namespace Checked

variable {α β : Type}

/-- Every value that `c` returns satisfies `Q`. -/
def Returns (Q : α → Prop) (c : Checked α) : Prop := ∀ v, c.run = .ok (.ok v) → Q v

theorem returns_pure {Q : α → Prop} {x : α} (h : Q x) : Returns Q (pure x) := by
  intro v hv
  cases hv
  exact h

theorem returns_bind {R : α → Prop} {Q : β → Prop} {m : Checked α} {f : α → Checked β}
    (hm : Returns R m) (hf : ∀ x, R x → Returns Q (f x)) : Returns Q (m >>= f) := by
  intro v hv
  rw [ExceptT.run_bind] at hv
  cases hrun : m.run with
  | error e =>
    rw [hrun] at hv
    cases hv
  | ok r =>
    rw [hrun] at hv
    cases r with
    | error e => cases hv
    | ok x => exact hf x (hm x hrun) v hv

theorem returns_any (c : Checked α) : Returns (fun _ => True) c := fun _ _ => trivial

end Checked

open Checked in
theorem applyFill_securityId (p : Position) (side : Side) (rawFill : Int64) (price : Decimal)
    (t : ContractTerms) :
    Returns (fun r => r.1.securityId = p.securityId) (applyFill p side rawFill price t) := by
  unfold applyFill
  simp only [pure_bind]
  repeat' (first
    | exact returns_pure rfl
    | refine returns_bind (returns_any _) fun _ _ => ?_
    | split)

namespace Account

def PositionsFiled (m : KeyMap SecurityId Position) : Prop :=
  m.Distinct ∧ ∀ e ∈ m.entries, e.2.securityId = e.1

/-- The margin grid is the configured one, and the positions are filed. -/
structure Coherent (a : Account) : Prop where
  grid : a.config.marginGrid? = some a.marginGrid
  filed : PositionsFiled a.positions

variable {m : KeyMap SecurityId Position} {a : Account}

theorem PositionsFiled.get? (h : PositionsFiled m) {k : SecurityId} {p : Position}
    (hg : m.get? k = some p) : p.securityId = k :=
  h.2 _ (KeyMap.mem_of_get? hg)

theorem PositionsFiled.insert (h : PositionsFiled m) {k : SecurityId} {p : Position}
    (hp : p.securityId = k) : PositionsFiled (m.insert k p) := by
  refine ⟨h.1.insert k p, fun e he => ?_⟩
  rcases KeyMap.mem_insert he with rfl | ⟨-, he⟩
  · exact hp
  · exact h.2 e he

theorem PositionsFiled.reset (h : PositionsFiled m) : PositionsFiled (m.mapValues Position.reset) := by
  refine ⟨?_, fun e he => ?_⟩
  · unfold KeyMap.Distinct
    rw [KeyMap.keys_mapValues]
    exact h.1
  · obtain ⟨e', he', rfl⟩ := List.mem_map.mp he
    exact h.2 e' he'

theorem PositionsFiled.merge_securityId (h : PositionsFiled m) (q : VenuePosition × Int64 × Int64) :
    (Position.merge q (m.get? q.1.securityId)).securityId = q.1.securityId := by
  cases hg : m.get? q.1.securityId with
  | none => rfl
  | some o =>
    show o.securityId = _
    exact h.get? hg

theorem PositionsFiled.upsertAll (h : PositionsFiled m) (qs : List (VenuePosition × Int64 × Int64)) :
    PositionsFiled (KeyMap.upsertAll (·.1.securityId) Position.merge m qs) := by
  induction qs generalizing m with
  | nil => exact h
  | cons q qs ih =>
    rw [KeyMap.upsertAll_cons]
    exact ih (h.insert (h.merge_securityId q))

theorem coherent_of_create {id : AccountId} {config : Config} (h : Account.create id config = .ok a) :
    a.Coherent := by
  unfold Account.create at h
  split at h
  · cases h
  · split at h
    · cases h
    · rename_i grid hgrid
      cases h
      exact ⟨hgrid, KeyMap.distinct_empty, fun e he => by cases he⟩

open AccountM

theorem keeps_settleMargined (sid : SecurityId) (side : Side) (t : TradeId) (price quantity : Decimal)
    (rawFill : Int64) (taker : Bool) :
    Keeps Coherent (settleMargined sid side t price quantity rawFill taker) := by
  unfold settleMargined
  refine keeps_bind (keeps_view sid) fun i => keeps_get_bind fun a₀ h₀ => ?_
  refine keeps_bind (keeps_orThrow _ _) fun sp => keeps_ofChecked_bind fun r hr => ?_
  obtain ⟨p, u⟩ := r
  have hp : p.securityId = sid := by
    rw [applyFill_securityId _ _ _ _ _ _ hr]
    cases hg : a₀.positions.get? sid with
    | none => rfl
    | some o => exact h₀.filed.get? hg
  refine keeps_bind (keeps_orThrow _ _) fun fee => keeps_bind (keeps_orThrow _ _) fun margin => ?_
  refine keeps_bind (keeps_modify fun a ha => ⟨ha.grid, ha.filed.insert hp⟩) fun _ => ?_
  have hev : ∀ (a : Account) (p : EventPayload), a.Coherent →
      Coherent { a with events := a.events.record a.time p } :=
    fun _ _ h => ⟨h.grid, h.filed⟩
  exact keeps_bind (keeps_emit hev _) fun _ => keeps_emit hev _

theorem keeps_sync (x : SyncInput) : Keeps Coherent (sync x) := by
  intro a u a' ha h
  rw [run_sync_eq] at h
  split at h
  · cases h
    exact ha
  · rename_i r hr
    cases h
    obtain ⟨-, -, hp, -⟩ := rebuilt_eq_ok.mp hr
    obtain ⟨qs, -, hp⟩ := rebuildPositions_ok hp
    refine ⟨ha.grid, ?_⟩
    show PositionsFiled r.positions
    rw [hp]
    exact ha.filed.reset.upsertAll qs

theorem ReachableUnder.coherent {allowed : Account → Command → Prop} (h : a.ReachableUnder allowed) :
    a.Coherent := by
  induction h with
  | create hc => exact coherent_of_create hc
  | step _ _ hstep ih =>
    exact keeps_handle (fun _ _ h => ⟨h.grid, h.filed⟩) (fun _ _ h => ⟨h.grid, h.filed⟩)
      (fun _ _ h => ⟨h.grid, h.filed⟩) (fun _ _ h => ⟨h.grid, h.filed⟩)
      keeps_settleMargined keeps_sync ih hstep

end Account

end TradeLedger
