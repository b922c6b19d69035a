/-!
# Identifiers, sides and times

Orders are known by a client id, chosen when the order is created, and later also by a venue
id, assigned when the venue confirms it; an `OrderRef` names an order by either. Instruments
are known by a numeric security id, accounts by an exchange and a name. Times are
milliseconds in a signed 64-bit word.
-/

namespace TradeLedger

/-- The numeric id of an instrument (an unsigned 64-bit number). -/
abbrev SecurityId := Nat

abbrev ClientOrderId := String

abbrev VenueOrderId := String

abbrev TradeId := String

/-- Milliseconds since the epoch. -/
abbrev Timestamp := Int64

/-- An account: the venue it lives on and its name there. -/
structure AccountId where
  exchange : String
  name : String
  deriving DecidableEq, Repr, Inhabited

/-- Written `exchange/name`. -/
def AccountId.render (a : AccountId) : String := a.exchange ++ "/" ++ a.name

/-- An order named by either of its ids. -/
inductive OrderRef where
  | client (id : ClientOrderId)
  | venue (id : VenueOrderId)
  deriving DecidableEq, Repr, Inhabited

/-- Written `client:ID` or `venue:ID`. -/
def OrderRef.render : OrderRef → String
  | .client id => "client:" ++ id
  | .venue id => "venue:" ++ id

/-- The direction of an order or a fill: a buy adds to a long or reduces a short. -/
inductive Side where
  | buy
  | sell
  deriving DecidableEq, Repr, Inhabited

namespace Side

def sign : Side → Int
  | .buy => 1
  | .sell => -1

def opposite : Side → Side
  | .buy => .sell
  | .sell => .buy

@[simp] theorem opposite_opposite (s : Side) : s.opposite.opposite = s := by cases s <;> rfl

@[simp] theorem sign_opposite (s : Side) : s.opposite.sign = -s.sign := by cases s <;> rfl

end Side

end TradeLedger
