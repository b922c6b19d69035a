import TradeLedger.Config
import TradeLedger.Security
import TradeLedger.Order.Book
import TradeLedger.Position
import TradeLedger.Balance
import TradeLedger.Event

/-!
# Accounts

An account holds everything the ledger knows of one venue account: its instruments, its order
book, a position per instrument, its asset balances, its realized margin in raw units, its event
log and its clock. Commands run in `AccountM`: they read and update the account, may refuse with
a `LedgerError` (changes made before the refusal stay, as they would in place), and may hit a
`Fault`, which ends everything.
-/

namespace TradeLedger

/-- One venue account. -/
structure Account where
  id : AccountId
  config : Config
  marginGrid : Precision
  instruments : KeyMap SecurityId Instrument
  orders : OrderBook
  positions : KeyMap SecurityId Position
  balances : Balances
  /-- Realized profit and fees, raw margin units. -/
  margin : Int64
  events : EventLog
  time : Timestamp
  deriving DecidableEq

/-- A step on an account: it may refuse with a ledger error, keeping the changes made so far,
and may hit a fault. -/
abbrev AccountM (α : Type) := ExceptT LedgerError (StateT Account (Except Fault)) α

namespace Account

/-- A fresh account, once its settings are valid. -/
def create (id : AccountId) (config : Config) : Except LedgerError Account :=
  match config.validate with
  | .error e => .error (.config e)
  | .ok () =>
    match config.marginGrid? with
    | none => .error .overflow
    | some marginGrid =>
      .ok { id, config, marginGrid, instruments := KeyMap.empty, orders := OrderBook.empty,
            positions := KeyMap.empty, balances := Balances.empty, margin := 0,
            events := EventLog.create config.maxEvents, time := 0 }

def instrument? (a : Account) (sid : SecurityId) : Option Instrument := a.instruments.get? sid

def terms (a : Account) (i : Instrument) : ContractTerms := ⟨i.lot, a.marginGrid, i.security.multiplier⟩

end Account

namespace AccountM

def fault {α : Type} : AccountM α := ExceptT.lift (StateT.lift (.error .arithmeticOverflow))

/-- Runs an unchecked computation: its fault is a fault of the step. -/
def ofFault {α : Type} (e : Except Fault α) : AccountM α :=
  match e with
  | .ok a => pure a
  | .error _ => fault

def ofChecked {α : Type} (c : Checked α) : AccountM α :=
  match c.run with
  | .ok (.ok a) => pure a
  | .ok (.error e) => throw e
  | .error _ => fault

def orThrow {α : Type} (e : LedgerError) : Option α → AccountM α
  | some a => pure a
  | none => throw e

def emit (p : EventPayload) : AccountM Unit :=
  modify fun a => { a with events := a.events.record a.time p }

def view (sid : SecurityId) : AccountM Instrument := do
  orThrow (.unknownSecurity sid) ((← get).instrument? sid)

/-- Runs a step from an account: the answer or refusal, and the account after it. -/
def run {α : Type} (m : AccountM α) (a : Account) : Except Fault (Except LedgerError α × Account) :=
  (ExceptT.run m).run a

end AccountM

end TradeLedger
