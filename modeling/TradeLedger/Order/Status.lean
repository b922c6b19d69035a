/-!
# Order status

An order waits on the venue (`pendingNew`, `pendingCancel`, `pendingReplace`), rests on the
book (`new`, `partiallyFilled`) or is finished (`filled`, `canceled`, `rejected`, `expired`).
Every report names the kind of event that produced it, its execution type.
-/

namespace TradeLedger

/-- Where an order stands. -/
inductive OrderStatus where
  | pendingNew
  | new
  | partiallyFilled
  | filled
  | pendingCancel
  | pendingReplace
  | canceled
  | rejected
  | expired
  deriving DecidableEq, Repr, Inhabited

namespace OrderStatus

/-- Finished: no transition leaves it. -/
def isTerminal : OrderStatus → Bool
  | .filled | .canceled | .rejected | .expired => true
  | _ => false

/-- Confirmed by the venue and working on the book. -/
def isResting : OrderStatus → Bool
  | .new | .partiallyFilled => true
  | _ => false

/-- Waiting on a venue acknowledgment. -/
def isPending : OrderStatus → Bool
  | .pendingNew | .pendingCancel | .pendingReplace => true
  | _ => false

def names : List (String × OrderStatus) :=
  [("PendingNew", .pendingNew), ("New", .new), ("PartiallyFilled", .partiallyFilled),
   ("Filled", .filled), ("PendingCancel", .pendingCancel), ("PendingReplace", .pendingReplace),
   ("Canceled", .canceled), ("Rejected", .rejected), ("Expired", .expired)]

def name (s : OrderStatus) : String := ((names.find? (·.2 == s)).map (·.1)).getD ""

end OrderStatus

/-- What happened to produce an execution report. -/
inductive ExecutionType where
  | pendingNew
  | new
  | pendingCancel
  | canceled
  | pendingReplace
  | replaced
  /-- A request was refused, a venue's cancel or replace refusal included. -/
  | rejected
  | trade
  | expired
  deriving DecidableEq, Repr, Inhabited

def ExecutionType.names : List (String × ExecutionType) :=
  [("PendingNew", .pendingNew), ("New", .new), ("PendingCancel", .pendingCancel),
   ("Canceled", .canceled), ("PendingReplace", .pendingReplace), ("Replaced", .replaced),
   ("Rejected", .rejected), ("Trade", .trade), ("Expired", .expired)]

def ExecutionType.name (e : ExecutionType) : String :=
  ((ExecutionType.names.find? (·.2 == e)).map (·.1)).getD ""

end TradeLedger
