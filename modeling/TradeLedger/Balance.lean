import TradeLedger.KeyMap
import TradeLedger.Error

/-!
# Asset balances

Balances map assets to decimal quantities; an absent asset has balance zero. The venue decides
whether a balance may go negative, so the ledger records what it is told. Credits and debits are
unchecked: a sum that does not fit is a fault. Listings are sorted by asset name.
-/

namespace TradeLedger

/-- Balances by asset. -/
structure Balances where
  entries : KeyMap String Decimal
  deriving DecidableEq, Inhabited

/-- The balance movements of one spot fill. -/
structure SpotSettlement where
  baseDelta : Decimal
  quoteDelta : Decimal
  commission : Decimal
  deriving DecidableEq

namespace Balances

def empty : Balances := ⟨KeyMap.empty⟩

def get (b : Balances) (asset : String) : Decimal := (b.entries.get? asset).getD Decimal.zero

def set (b : Balances) (asset : String) (q : Decimal) : Balances := ⟨b.entries.insert asset q⟩

def credit (b : Balances) (asset : String) (amount : Decimal) : Except Fault Balances :=
  match (b.get asset).add? amount with
  | some v => .ok (b.set asset v)
  | none => .error .arithmeticOverflow

def debit (b : Balances) (asset : String) (amount : Decimal) : Except Fault Balances :=
  match (b.get asset).sub? amount with
  | some v => .ok (b.set asset v)
  | none => .error .arithmeticOverflow

def all (b : Balances) : List (String × Decimal) :=
  b.entries.entries.mergeSort (fun x y => decide (x.1 ≤ y.1))

def size (b : Balances) : Nat := b.entries.size

/-- Settles a spot fill: a buy adds the quantity to the base asset and takes `price * quantity`
from the quote asset, a sell the reverse; the commission `price * quantity * rate` is taken from
the quote asset too. `none` when the amounts overflow, before anything is credited. -/
def settleSpot (b : Balances) (side : Side) (base quote : String) (price quantity rate : Decimal) :
    Except Fault (Option (SpotSettlement × Balances)) :=
  match price.mul? quantity with
  | none => .ok none
  | some quoteAmount =>
    match quoteAmount.mul? rate with
    | none => .ok none
    | some commission =>
      let (baseDelta, quoteGross) := match side with
        | .buy => (quantity, quoteAmount.neg)
        | .sell => (quantity.neg, quoteAmount)
      match quoteGross.sub? commission with
      | none => .ok none
      | some quoteDelta => do
        let b ← b.credit base baseDelta
        let b ← b.credit quote quoteDelta
        pure (some ({ baseDelta, quoteDelta, commission }, b))

end Balances

end TradeLedger
