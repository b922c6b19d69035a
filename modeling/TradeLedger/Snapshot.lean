import TradeLedger.Account.Queries

/-!
# Account snapshots

A snapshot is a copy of what readers elsewhere may see of an account at one time: its orders
(sorted by client id), open positions (sorted by security id), balances (sorted by asset) and
margin. Open orders are those not yet finished.
-/

namespace TradeLedger

/-- A read-only copy of an account's state. -/
structure AccountSnapshot where
  account : AccountId
  marginCurrency : String
  margin : Decimal
  orders : List Order
  positions : List PositionView
  balances : List (String × Decimal)
  takenAt : Timestamp
  deriving DecidableEq

namespace AccountSnapshot

def capture (a : Account) : AccountSnapshot :=
  { account := a.id, marginCurrency := a.config.marginCurrency, margin := a.marginValue,
    orders := a.ordersMatching none, positions := a.positionViews, balances := a.balances.all,
    takenAt := a.time }

def openOrders (s : AccountSnapshot) : List Order := s.orders.filter (!·.status.isTerminal)

end AccountSnapshot

end TradeLedger
