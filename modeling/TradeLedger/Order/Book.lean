import TradeLedger.KeyMap
import TradeLedger.Order.Basic

/-!
# The order book of an account

Records live in numbered slots. A removed record frees its slot, and the next record takes the
most recently freed slot, else a new one at the end. Two indexes reach a slot: by client id
(from creation) and by venue id (once the venue has assigned one). Inserting under a key that
is already indexed moves the key to the new slot; removing a record drops both of its keys
from the indexes, whichever slots they point to.
-/

namespace TradeLedger

/-- Order records in slots, with a stack of free slots and two indexes. -/
structure OrderBook where
  slots : Array (Option OrderRecord)
  /-- Freed slots, the most recently freed first. -/
  free : List Nat
  byClient : KeyMap ClientOrderId Nat
  byVenue : KeyMap VenueOrderId Nat
  deriving DecidableEq, Inhabited

namespace OrderBook

def empty : OrderBook := ⟨#[], [], KeyMap.empty, KeyMap.empty⟩

/-- The record in slot `i`, if the slot holds one. -/
def get? (b : OrderBook) (i : Nat) : Option OrderRecord := (b.slots[i]?).join

/-- Stores a record in the most recently freed slot, or a new one, and indexes it by client id
and, if it has one, by venue id. Returns the slot. -/
def insert (b : OrderBook) (r : OrderRecord) : Nat × OrderBook :=
  let (i, slots, free) := match b.free with
    | i :: rest => (i, b.slots.setIfInBounds i (some r), rest)
    | [] => (b.slots.size, b.slots.push (some r), [])
  let byVenue := match r.order.venueOrderId with
    | some v => b.byVenue.insert v i
    | none => b.byVenue
  (i, { slots, free, byClient := b.byClient.insert r.order.clientOrderId i, byVenue })

/-- Gives the record in slot `i` the venue id `v` and indexes it; the record's previous venue id
leaves the index. A slot without a record is left alone. -/
def assignVenueId (b : OrderBook) (i : Nat) (v : VenueOrderId) : OrderBook :=
  match b.get? i with
  | none => b
  | some r =>
    let byVenue := match r.order.venueOrderId with
      | some old => b.byVenue.erase old
      | none => b.byVenue
    { b with slots := b.slots.setIfInBounds i (some { r with order := { r.order with venueOrderId := some v } }),
             byVenue := byVenue.insert v i }

/-- The client id of the record indexed under venue id `v`, unless that record sits in slot
`except`. -/
def venueOwner (b : OrderBook) (v : VenueOrderId) (except : Option Nat) : Option ClientOrderId := do
  let owner ← b.byVenue.get? v
  if except = some owner then none
  else (b.get? owner).map (·.order.clientOrderId)

def lookup (b : OrderBook) : OrderRef → Option Nat
  | .client c => b.byClient.get? c
  | .venue v => b.byVenue.get? v

def containsClient (b : OrderBook) (c : ClientOrderId) : Bool := b.byClient.contains c

def find? (b : OrderBook) (ref : OrderRef) : Option OrderRecord := b.lookup ref >>= b.get?

/-- Empties slot `i`, drops the record's keys from both indexes and frees the slot. -/
def remove (b : OrderBook) (i : Nat) : Option (OrderRecord × OrderBook) := do
  let r ← b.get? i
  let byVenue := match r.order.venueOrderId with
    | some v => b.byVenue.erase v
    | none => b.byVenue
  pure (r, { slots := b.slots.setIfInBounds i none, free := i :: b.free,
             byClient := b.byClient.erase r.order.clientOrderId, byVenue })

/-- The book without the record of slot `i`; a slot without a record is left alone. -/
def discard (b : OrderBook) (i : Nat) : OrderBook := ((b.remove i).map (·.2)).getD b

/-- Replaces the record in slot `i` by `f` of it; a slot without a record is left alone. -/
def modify (b : OrderBook) (i : Nat) (f : OrderRecord → OrderRecord) : OrderBook :=
  { b with slots := b.slots.modify i (Option.map f) }

def records (b : OrderBook) : List OrderRecord := b.slots.toList.filterMap id

def slotsWhere (b : OrderBook) (p : OrderRecord → Bool) : List Nat :=
  (List.range b.slots.size).filter fun i => (b.get? i).any p

def size (b : OrderBook) : Nat := b.byClient.size

def venueIndexed (b : OrderBook) : Nat := b.byVenue.size

end OrderBook

end TradeLedger
