import TradeLedger.Wire.Books

/-!
# Account sessions

A session builds a fresh account and runs a script of steps on it: commands, queries and the
account's own accessors. Each step answers its response together with the events it added,
the raw margin and the clock. A step that cannot be read answers `{"bad_step": true}` and the
script goes on; a fault answers `{"panic": true}` and ends the script, and the session then has
no final state.
-/

namespace TradeLedger

namespace Wire

open Json

/-- One step of a session. -/
inductive Step where
  | command (c : Command)
  | query (q : Query)
  | advanceTime (ms : Int64)
  | snapshot
  | rawPosition (securityId : SecurityId)
  | instrument (securityId : SecurityId)
  | drainEvents
  | recentEvents (count : Nat)
  /-- A command whose answer also says whether it is an error. -/
  | handleChecked (c : Command)
  | info
  | position (securityId : SecurityId)
  | balance (asset : String)
  | allEvents
  | shared

/-- Reads a step: an object with exactly one known key. -/
def decStep (j : Json) : Option Step :=
  match j with
  | .obj [(key, v)] =>
    match key with
    | "cmd" => .command <$> decCommand v
    | "query" => .query <$> decQuery v
    | "advance_time" => .advanceTime <$> v.word?
    | "snapshot" => some .snapshot
    | "raw_position" => .rawPosition <$> v.nat?
    | "instrument" => .instrument <$> v.nat?
    | "drain_events" => some .drainEvents
    | "recent_events" => .recentEvents <$> v.nat?
    | "handle_checked" => .handleChecked <$> decCommand v
    | "info" => some .info
    | "position" => .position <$> v.nat?
    | "balance" => .balance <$> v.str?
    | "all_events" => some .allEvents
    | "shared" => some .shared
    | _ => none
  | _ => none

def encEvents (es : List Event) : Json := .arr (es.map encEvent)

/-- Runs a step: the account after it and the step's response. -/
def Step.run (a : Account) : Step → Except Fault (Account × Json)
  | .command c => do
    let (a, r) ← a.handle c
    pure (a, encResponse r)
  | .query q => do pure (a, encResponse (← a.query q))
  | .advanceTime ms => pure ({ a with time := Word.saturatingAdd a.time ms }, .str "Done")
  | .snapshot => pure (a, encSnapshot (AccountSnapshot.capture a))
  | .rawPosition sid => pure (a, opt encPosition (a.positions.get? sid))
  | .instrument sid => pure (a, opt encInstrument (a.instrument? sid))
  | .drainEvents =>
    let (es, log) := a.events.drain
    pure ({ a with events := log }, encEvents es)
  | .recentEvents n => pure (a, .arr ((a.events.recent n).map fun e => nat e.id))
  | .handleChecked c => do
    let (a, r) ← a.handle c
    pure (a, .obj [("is_error", .bool r.isError), ("response", encResponse r)])
  | .info =>
    pure (a, .obj [("id", .str a.id.render), ("config", encConfig a.config),
                   ("margin_currency", .str a.config.marginCurrency),
                   ("margin_precision", encGrid a.marginGrid),
                   ("margin_precision_display", .str a.marginGrid.render), ("time", word a.time)])
  | .position sid => pure (a, opt encPositionView (a.positionOf? sid))
  | .balance asset => pure (a, dec (a.balances.get asset))
  | .allEvents => pure (a, encEvents a.events.events)
  | .shared =>
    let s := AccountSnapshot.capture a
    pure (a, .obj [("open_orders", .arr (s.openOrders.map fun o => .str o.clientOrderId)),
                   ("margin", dec s.margin)])

/-- The entry of a step that ran: its response, the events it added that are still kept, the
raw margin and the clock. -/
def stepEntry (before after : Account) (response : Json) : Json :=
  .obj [("response", response),
        ("events", encEvents (after.events.events.filter (before.events.nextId ≤ ·.id))),
        ("margin", word after.margin), ("time", word after.time)]

/-- The entries of a script and, unless a step faulted, the account at its end. -/
def sessionSteps (a : Account) : List Json → List Json × Option Account
  | [] => ([], some a)
  | j :: rest =>
    match decStep j with
    | none =>
      let (entries, final) := sessionSteps a rest
      (badStep :: entries, final)
    | some step =>
      match step.run a with
      | .error _ => ([faulted], none)
      | .ok (a', response) =>
        let (entries, final) := sessionSteps a' rest
        (stepEntry a a' response :: entries, final)

/-- The state of an account at the end of a session. -/
def encFinal (a : Account) : Json :=
  let byId {α : Type} (key : α → SecurityId) (xs : List α) : List α :=
    xs.mergeSort fun x y => decide (key x ≤ key y)
  .obj [("snapshot", encSnapshot (AccountSnapshot.capture a)), ("raw_margin", word a.margin),
        ("raw_positions", .arr ((byId (·.securityId) a.positions.values).map encPosition)),
        ("instruments", .arr ((byId (·.securityId) a.instruments.values).map encInstrument)),
        ("event_ids", .arr (a.events.events.map fun e => nat e.id))]

def defaultAccountId : AccountId := ⟨"binance", "main"⟩

def accountRequest (j : Json) : Option Json := do
  let id := (← optField j "account" decAccountId).getD defaultAccountId
  let config ← configOf j
  let steps ← req j "steps" items?
  match Account.create id config with
  | .error e => pure (refusal e)
  | .ok a =>
    let (entries, final) := sessionSteps a steps
    match final with
    | none => pure (.obj [("steps", .arr entries)])
    | some a => pure (.obj [("steps", .arr entries), ("final", encFinal a)])

end Wire

end TradeLedger
