import TradeLedger.Proofs.EventSteps

/-!
# The event log traces the ledger

From a reachable account, along every run of commands without a snapshot, the events the run
logged tell everything the run did to the account: replayed from the account's own view they
never contradict it, and they arrive at what the account holds at the end. The margin moves by
every realized profit less every fee, every position change starts from the size the position
had, every balance change ends at the balance before plus its delta, every status change starts
from the status the order was in, and the last of each names what the account holds.

This needs the log to have room for the run's events, and every spot instrument to settle its
two legs in two different assets: a spot fill logs each leg's new balance after both legs are
credited, so when the legs are one asset the first logged balance already holds the second
leg's delta (`same_asset_spot_fill_untraced`).

Two facts of every reachable account carry the proof along with `Account.handle_traces`: each
client id belongs to one live order, and the log keeps as many events as the settings say.
-/

namespace TradeLedger

section Effects

variable {a a' : Account} {c : Command}

theorem Effect.clientConsistent (he : Effect a c a') (h : a.orders.ClientConsistent) :
    a'.orders.ClientConsistent := by
  have hmoves : ∀ {ins slots b b'}, MoveRun ins slots b b' → b.ClientConsistent →
      b'.ClientConsistent :=
    fun hrun hb => MoveRun.preserves OrderBook.ClientConsistent
      (fun _ _ _ _ _ hb hr _ hf => hb.modify hr (hf.keys _).1) hrun hb
  cases he with
  | moves _ _ hrun => exact hmoves hrun h
  | claim _ _ _ _ hrun => exact hmoves hrun (h.assignVenueId _ _)
  | fill _ _ hr _ _ _ _ ho =>
    rw [ho]
    exact h.modify hr (OrderRecord.fill_keys _ _ _ _ _).1
  | place _ hc _ _ _ ho =>
    rw [ho]
    exact h.insert hc
  | reject _ hr _ _ ho =>
    rw [ho]
    exact (h.modify hr rfl).discard _
  | prune _ ho =>
    rw [ho]
    exact h.foldl_discard _
  | sync _ hb _ ho =>
    rw [ho]
    exact (rebuildOrders_consistent hb).toClientConsistent

end Effects

namespace Account

variable {a a' : Account} {c : Command} {allowed : Account → Command → Prop}

/-- The payloads of the events that `a'` logged since `a`, as far as its log still keeps them. -/
def loggedSince (a' a : Account) : List EventPayload :=
  (a'.events.recordedSince a.events).map (·.payload)

/-! ## Invariants of reachable accounts -/

theorem ReachableUnder.clientConsistent (h : a.ReachableUnder allowed) :
    a.orders.ClientConsistent := by
  induction h with
  | create hc =>
    rw [(create_orders hc).1]
    exact OrderBook.Consistent.empty.toClientConsistent
  | step hreach _ hstep ih =>
    exact (handle_handled (ReachableUnder.wellFormed hreach).known hstep).effect.clientConsistent ih

def KeepsConfiguredEvents (a : Account) : Prop := a.events.capacity = a.config.maxEvents

open AccountM in
theorem keeps_settleMargined_configuredEvents (sid : SecurityId) (side : Side) (t : TradeId)
    (price quantity : Decimal) (rawFill : Int64) (taker : Bool) :
    Keeps KeepsConfiguredEvents (settleMargined sid side t price quantity rawFill taker) := by
  unfold settleMargined
  refine keeps_bind (keeps_view sid) fun i => keeps_get_bind fun a₀ _ => ?_
  refine keeps_bind (keeps_orThrow _ _) fun sp => keeps_ofChecked_bind fun r _ => ?_
  obtain ⟨p, u⟩ := r
  refine keeps_bind (keeps_orThrow _ _) fun fee => keeps_bind (keeps_orThrow _ _) fun m => ?_
  refine keeps_bind (keeps_modify fun a ha => ha) fun _ => ?_
  exact keeps_bind (keeps_emit (fun _ _ h => h) _) fun _ => keeps_emit (fun _ _ h => h) _

open AccountM in
theorem keeps_sync_configuredEvents (x : SyncInput) : Keeps KeepsConfiguredEvents (sync x) := by
  intro a u a' ha h
  rw [run_sync_eq] at h
  split at h
  · cases h
    exact ha
  · cases h
    exact ha

theorem ReachableUnder.keepsConfiguredEvents (h : a.ReachableUnder allowed) :
    a.KeepsConfiguredEvents := by
  induction h with
  | create hc =>
    unfold Account.create at hc
    split at hc
    · cases hc
    · split at hc
      · cases hc
      · cases hc
        rfl
  | step _ _ hstep ih =>
    exact keeps_handle (fun _ _ h => h) (fun _ _ h => h) (fun _ _ h => h) (fun _ _ h => h)
      (keeps_settleMargined_configuredEvents) keeps_sync_configuredEvents ih hstep

/-! ## Runs -/

/-- Along a run without a snapshot, from a traceable account that `v` shows, the account stays
traceable and the view follows the run's events to the account it ends in. -/
theorem replay_traces : ∀ {cs : List Command} {a a' : Account} {v : LedgerView},
    (∀ c ∈ cs, ∀ x, c ≠ .sync x) → a.Traceable → a.Shows v → a.replay cs = some a' →
      a'.Traceable ∧ a.Replays v a'
  | [], a, a', v, _, ha, hv, h => by
    cases h
    exact ⟨ha, .quiet rfl hv⟩
  | c :: cs, a, a', v, hcs, ha, hv, h => by
    simp only [Account.replay] at h
    split at h
    · rename_i a₁ _ hc
      have hrest : ∀ c ∈ cs, ∀ x, c ≠ .sync x := fun c' hc' => hcs c' (by simp [hc'])
      obtain ⟨ha₁, hrep⟩ := handle_traces (hcs c (by simp)) ha hv hc
      refine ⟨?_, hrep.trans fun w hw => (replay_traces hrest ha₁ hw h).2⟩
      obtain ⟨_, w, _, _, hw⟩ := hrep
      exact (replay_traces hrest ha₁ hw h).1
    · cases h

/-- The event log is a faithful trace of the ledger. From a reachable account whose spot
instruments settle in two different assets, along every run of commands without a snapshot
whose events the log has room for, the events the run logged, replayed from the account's own
view, never contradict it and arrive at what the account holds at the end; in particular the
margin moved by every realized profit less every fee the events record. -/
theorem Reachable.log_traces_run {cs : List Command} (ha : a.Reachable) (hlegs : a.SpotLegsApart)
    (hcs : ∀ c ∈ cs, ∀ x, c ≠ .sync x) (hrun : a.replay cs = some a')
    (hcap : a'.events.nextId - a.events.nextId ≤ a.config.maxEvents) :
    a'.margin.toInt = a.margin.toInt + ((a'.loggedSince a).map EventPayload.realized).sum -
        ((a'.loggedSince a).map EventPayload.charged).sum ∧
      ∃ v, a.ledgerView.replay (a'.loggedSince a) = some v ∧ a'.Shows v := by
  have hbook := ReachableUnder.clientConsistent ha
  obtain ⟨-, ps, w, hlog, hw, hs⟩ := replay_traces hcs ⟨hbook, hlegs⟩ (shows_ledgerView hbook) hrun
  have hroom : ps.length ≤ a.events.capacity := by
    have hnext := hlog.nextId_eq
    rw [ReachableUnder.keepsConfiguredEvents ha]
    omega
  have hps : a'.loggedSince a = ps := hlog.recordedSince hroom
  rw [hps]
  refine ⟨?_, w, hw, hs⟩
  rw [← hs.margin, LedgerView.replay_margin hw]
  rfl

theorem perp_fill_traced_by_log :
    ∃ a a', Sample.session [Sample.listBtcPerp, .newOrder Sample.buyTen] = some a ∧
      a.replay [Sample.fillA 1] = some a' ∧ a.SpotLegsApart ∧
      a'.events.nextId - a.events.nextId ≤ a.config.maxEvents ∧
      (a'.margin.toInt = a.margin.toInt + ((a'.loggedSince a).map EventPayload.realized).sum -
          ((a'.loggedSince a).map EventPayload.charged).sum ∧
        ∃ v, a.ledgerView.replay (a'.loggedSince a) = some v ∧ a'.Shows v) := by
  have hs : Sample.session [Sample.listBtcPerp, .newOrder Sample.buyTen] = some _ := rfl
  exact ⟨_, _, hs, rfl, by decide, by decide,
    @Reachable.log_traces_run _ _ [Sample.fillA 1] (.of_session hs) (by decide)
      (fun c hc x he => by
        simp only [List.mem_singleton] at hc
        subst hc
        simp [Sample.fillA] at he) rfl (by decide)⟩

def sameAssetSpot : Security :=
  { Security.btcusdtSpot with
    securityId := 5, symbol := "USDTUSDT", roundLot := Decimal.one, underlying := "USDT" }

def listSameAssetSpot : Command := .sync ⟨[sameAssetSpot], [], [], [], none, none⟩

def buyOneSameAsset : Order :=
  Order.limit "b" 5 .buy (Decimal.ofParts false 1 0) (Decimal.ofParts false 10 0) .gtc 0

def fillSameAsset : Command :=
  .confirmFill (.client "b") "t" (Decimal.ofParts false 10 0) (Decimal.ofParts false 1 0) false

/-- With both legs in one asset the trace breaks at the first balance change: it already holds
the quote leg's debit, so it is not the balance before plus its delta. -/
theorem same_asset_spot_fill_untraced :
    ∃ a a', Sample.session [listSameAssetSpot, .newOrder buyOneSameAsset] = some a ∧
      a.Reachable ∧ a.replay [fillSameAsset] = some a' ∧
      a'.events.nextId - a.events.nextId ≤ a.config.maxEvents ∧
      a.ledgerView.replay (a'.loggedSince a) = none := by
  have hs : Sample.session [listSameAssetSpot, .newOrder buyOneSameAsset] = some _ := rfl
  exact ⟨_, _, hs, .of_session hs, rfl, by decide, rfl⟩

end Account

end TradeLedger
