import TradeLedger.Account.Api
import TradeLedger.Snapshot

/-!
# A guided tour of the ledger

Six fixed scenarios drive fresh accounts through the flows a venue adapter meets: an inverse
round trip, a position flip, a refused cancel, linear margin at several marks, spot settlement
and a repeated reconciliation. Each prints what it sees. A scenario that is refused stops the
tour, which then reports failure.
-/

namespace TradeLedger

namespace Simulation

/-- Why a scenario stopped. -/
inductive Halt where
  | refused (e : LedgerError)
  | fault

abbrev Scenario := StateT Account (ExceptT Halt (StateM (Array String)))

def say (line : String) : Scenario Unit :=
  StateT.lift (ExceptT.lift (modify (·.push line)))

def perform {α : Type} (m : AccountM α) : Scenario α := do
  match m.run (← get) with
  | .error _ => throw .fault
  | .ok (.error e, a) => set a; throw (.refused e)
  | .ok (.ok v, a) => set a; pure v

def evaluate {α : Type} (c : Checked α) : Scenario α :=
  match c.run with
  | .error _ => throw .fault
  | .ok (.error e) => throw (.refused e)
  | .ok (.ok v) => pure v

def lit (mantissa scale : Nat) : Decimal := Decimal.ofParts false mantissa scale

def accountId : AccountId := ⟨"deribit", "main"⟩

def snapshot (securities : List Security) (positions : List VenuePosition) (balances : List VenueBalance) :
    SyncInput :=
  { securities, orders := [], positions, balances, makerFee := none, takerFee := none }

def startWith (config : Config) (securities : List Security) : Scenario Unit := do
  match Account.create accountId config with
  | .error e => throw (.refused e)
  | .ok a => set a
  perform (AccountM.sync (snapshot securities [] []))

def trade (client : String) (sid : SecurityId) (side : Side) (quantity price : Decimal) : Scenario Unit := do
  let a ← get
  let _ ← perform (AccountM.newOrder (Order.limit client sid side quantity price .gtc a.time))
  let _ ← perform (AccountM.confirmNewOrder client ("v-" ++ client))
  let _ ← perform (AccountM.confirmFill (.client client) ("t-" ++ client) price quantity false)

def showPosition (sid : SecurityId) : Scenario Unit := do
  let a ← get
  match a.positionOf? sid with
  | some p => say ("  Position: " ++ p.quantity.render ++ " contracts, cost " ++ p.cost.render ++ " " ++
      a.config.marginCurrency)
  | none => say "  Position: flat"

def showMargin (suffix : String) : Scenario Unit := do
  say ("  Margin: " ++ (← get).marginValue.render ++ " BTC" ++ suffix)

/-- Buys 2 inverse contracts at 200 and sells them at 210 in two fills. -/
def inverseRoundTrip : Scenario Unit := do
  say "Scenario 1: Inverse Round Trip"
  say ""
  startWith Config.inverseBtc [Security.btcusdPerp]
  trade "buy-1" 1 .buy (lit 2 0) (lit 200 0)
  say "  Bought 2 contracts @ $200"
  showPosition 1
  trade "sell-1" 1 .sell (lit 1 0) (lit 210 0)
  trade "sell-2" 1 .sell (lit 1 0) (lit 210 0)
  say "  Sold 2 contracts @ $210 in two fills"
  showPosition 1
  showMargin ""
  say ""

/-- Buys 100 and sells 200: the closed leg leaves nothing behind in the new short. -/
def positionFlip : Scenario Unit := do
  say "Scenario 2: Position Flip"
  say ""
  startWith Config.inverseBtc [Security.btcusdPerp]
  trade "buy-1" 1 .buy (lit 100 0) (lit 40000 0)
  say "  Long 100 contracts @ $40,000"
  trade "sell-1" 1 .sell (lit 200 0) (lit 44000 0)
  say "  Sold 200 contracts @ $44,000"
  showPosition 1
  showMargin ""
  say ""

/-- A cancel the venue refuses after a partial fill. -/
def cancelRejected : Scenario Unit := do
  say "Scenario 3: Cancel Rejected"
  say ""
  startWith Config.inverseBtc [Security.btcusdPerp]
  let ref : OrderRef := .client "c-1"
  let a ← get
  let _ ← perform (AccountM.newOrder (Order.limit "c-1" 1 .sell (lit 10 0) (lit 50000 0) .gtc a.time))
  let _ ← perform (AccountM.confirmNewOrder "c-1" "v-1")
  let _ ← perform (AccountM.confirmFill ref "t-1" (lit 50000 0) (lit 4 0) true)
  let pending ← perform (AccountM.cancelOrder ref)
  say ("  Cancel requested: " ++ pending.orderStatus.name)
  if let some r ← perform (AccountM.rejectCancelOrder ref .other) then
    say ("  Venue rejected cancel: " ++ r.executionType.name ++ " -> status " ++ r.orderStatus.name ++
      ", leaves " ++ r.leavesQuantity.render)
  let again ← perform (AccountM.confirmNewOrder "c-1" "v-1")
  say ("  Duplicate ack ignored: " ++ toString again.isNone)
  say ""

/-- A linear position valued at three marks. -/
def linearMargin : Scenario Unit := do
  say "Scenario 4: Linear Margin"
  say ""
  startWith (Config.linearUsd "USDT") [Security.ethusdtPerp]
  perform (AccountM.sync (snapshot [] [] [⟨accountId, "USDT", lit 5000 0⟩]))
  trade "buy-1" 2 .buy (lit 25 1) (lit 2000 0)
  say "  Long 2.5 ETH @ $2,000 with 5,000 USDT"
  for mark in [lit 1900 0, lit 2000 0, lit 2200 0] do
    let a ← get
    let pnl ← evaluate (a.unrealizedPnl 2 mark)
    let leverage ← evaluate (a.leverage [(2, mark)])
    let available ← evaluate (a.availableMargin [(2, mark)] (lit 10 0))
    say ("  Mark $" ++ mark.render ++ ": uPnL " ++ pnl.render ++ ", leverage " ++ leverage.renderPlaces 2 ++
      "x, available @10x " ++ available.render)
  say ""

/-- A spot buy settled into balances. -/
def spotSettlement : Scenario Unit := do
  say "Scenario 5: Spot Settlement"
  say ""
  startWith (Config.linearUsd "USDT") [Security.btcusdtSpot]
  trade "buy-1" 3 .buy (lit 25 2) (lit 60000 0)
  for (asset, quantity) in (← get).balances.all do
    say ("  " ++ asset ++ ": " ++ quantity.render)
  say ""

/-- The same venue snapshot applied twice gives the same account. -/
def reconciliation : Scenario Unit := do
  say "Scenario 6: Reconciliation"
  say ""
  startWith Config.inverseBtc [Security.btcusdPerp]
  trade "buy-1" 1 .buy (lit 50 0) (lit 30000 0)
  let positions : List VenuePosition := [⟨accountId, 1, lit 60 0, (lit 2 3).neg, true⟩]
  let balances : List VenueBalance := [⟨accountId, "BTC", lit 5 1⟩]
  perform (AccountM.sync (snapshot [] positions balances))
  let first := AccountSnapshot.capture (← get)
  perform (AccountM.sync (snapshot [] positions balances))
  let second := AccountSnapshot.capture (← get)
  showPosition 1
  showMargin ""
  let identical := decide (first.positions = second.positions) && first.margin.sameValue second.margin
  say ("  Second sync identical: " ++ toString identical)
  say ("  Events recorded: " ++ toString (← get).events.events.length)

def tour : Scenario Unit := do
  say "Venue Ledger Simulation"
  say "Order State Machine, Fixed-Point Margin, Reconciliation"
  say ""
  inverseRoundTrip
  positionFlip
  cancelRejected
  linearMargin
  spotSettlement
  reconciliation
  say ""
  say "All simulations completed successfully."

/-- The lines the tour prints and whether it completed. -/
def run : List String × Bool :=
  match Account.create accountId Config.inverseBtc with
  | .error _ => ([], false)
  | .ok start =>
    let (outcome, lines) := (tour.run start).run.run #[]
    (lines.toList, outcome matches .ok _)

end Simulation

end TradeLedger
