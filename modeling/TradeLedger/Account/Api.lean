import TradeLedger.Account.Orders
import TradeLedger.Account.Sync
import TradeLedger.Account.Queries

/-!
# Commands and queries

The message surface of an account: a `Command` changes it, a `Query` reads it, and both answer
a `Response`. A refused command answers its error as a response and keeps the account as the
command left it; only a fault ends the exchange.
-/

namespace TradeLedger

/-- Everything that changes an account. -/
inductive Command where
  | setTime (t : Timestamp)
  | newOrder (o : Order)
  | confirmNewOrder (clientOrderId : ClientOrderId) (venueOrderId : VenueOrderId)
  | rejectNewOrder (clientOrderId : ClientOrderId) (reason : RejectReason)
  | cancelOrder (ref : OrderRef)
  | confirmCancelOrder (ref : OrderRef)
  | rejectCancelOrder (ref : OrderRef) (reason : RejectReason)
  | replaceOrder (ref : OrderRef) (price quantity : Option Decimal)
  | confirmReplaceOrder (ref : OrderRef) (venueOrderId : Option VenueOrderId)
  | rejectReplaceOrder (ref : OrderRef) (reason : RejectReason)
  | pendingFilled (ref : OrderRef)
  | confirmFill (ref : OrderRef) (tradeId : TradeId) (price quantity : Decimal) (taker : Bool)
  | confirmExpiredOrder (ref : OrderRef)
  | checkExpiration
  | pruneClosed
  | sync (input : SyncInput)

/-- Everything that reads an account. -/
inductive Query where
  | orders (filter : Option OrderFilter)
  | order (ref : OrderRef)
  | positions
  | margin
  | balances
  | unrealizedPnl (securityId : SecurityId) (mark : Decimal)
  | leverage (marks : List (SecurityId × Decimal))
  | availableMargin (marks : List (SecurityId × Decimal)) (leverage : Decimal)

/-- A refusal as the requester sees it. -/
structure ApiError where
  code : String
  rejectReason : Option RejectReason
  message : String
  /-- The account must be synchronised again before it is trusted. -/
  fatal : Bool
  deriving DecidableEq

def LedgerError.toApi (e : LedgerError) : ApiError :=
  ⟨e.code, e.rejectReason?, e.message, e.isFatal⟩

/-- The answer to a command or a query. -/
inductive Response where
  /-- `none` for a repeated or late acknowledgment, which changes nothing. -/
  | report (r : Option ExecutionReport)
  | reports (rs : List ExecutionReport)
  | pruned (n : Nat)
  | done
  | orders (os : List Order)
  | order (o : Option Order)
  | positions (ps : List PositionView)
  | balances (bs : List (String × Decimal))
  | value (d : Decimal)
  | error (e : ApiError)

def Response.isError : Response → Bool
  | .error _ => true
  | _ => false

namespace Account

/-- Runs a step and answers its result through `wrap`, or its refusal. -/
def answer {α : Type} (a : Account) (m : AccountM α) (wrap : α → Response) :
    Except Fault (Account × Response) :=
  match m.run a with
  | .error f => .error f
  | .ok (.ok v, a') => .ok (a', wrap v)
  | .ok (.error e, a') => .ok (a', .error e.toApi)

def handle (a : Account) : Command → Except Fault (Account × Response)
  | .setTime t => .ok ({ a with time := t }, .done)
  | .newOrder o => a.answer (AccountM.newOrder o) (.report ∘ some)
  | .confirmNewOrder c v => a.answer (AccountM.confirmNewOrder c v) .report
  | .rejectNewOrder c r => a.answer (AccountM.rejectNewOrder c r) (.report ∘ some)
  | .cancelOrder ref => a.answer (AccountM.cancelOrder ref) (.report ∘ some)
  | .confirmCancelOrder ref => a.answer (AccountM.confirmCancelOrder ref) .report
  | .rejectCancelOrder ref r => a.answer (AccountM.rejectCancelOrder ref r) .report
  | .replaceOrder ref p q => a.answer (AccountM.replaceOrder ref p q) (.report ∘ some)
  | .confirmReplaceOrder ref v => a.answer (AccountM.confirmReplaceOrder ref v) .report
  | .rejectReplaceOrder ref r => a.answer (AccountM.rejectReplaceOrder ref r) .report
  | .pendingFilled ref => a.answer (AccountM.pendingFilled ref) .report
  | .confirmFill ref t p q taker => a.answer (AccountM.confirmFill ref t p q taker) .report
  | .confirmExpiredOrder ref => a.answer (AccountM.confirmExpiredOrder ref) .report
  | .checkExpiration => a.answer AccountM.checkExpiration .reports
  | .pruneClosed => a.answer AccountM.pruneClosed .pruned
  | .sync x => a.answer (AccountM.sync x) fun () => .done

def answerChecked (c : Checked Decimal) : Except Fault Response :=
  match c.run with
  | .error f => .error f
  | .ok (.ok v) => .ok (.value v)
  | .ok (.error e) => .ok (.error e.toApi)

def query (a : Account) : Query → Except Fault Response
  | .orders f => .ok (.orders (a.ordersMatching f))
  | .order ref => .ok (.order (a.order? ref))
  | .positions => .ok (.positions a.positionViews)
  | .margin => .ok (.value a.marginValue)
  | .balances => .ok (.balances a.balances.all)
  | .unrealizedPnl sid mark => answerChecked (a.unrealizedPnl sid mark)
  | .leverage marks => answerChecked (a.leverage marks)
  | .availableMargin marks lev => answerChecked (a.availableMargin marks lev)

end Account

end TradeLedger
