import TradeLedger.Basic
import TradeLedger.Precision
import TradeLedger.Error

/-!
# Instruments

A `Security` is the catalogue's description of an instrument. An account keeps an `Instrument`
per security: the security with its tick grid (prices) and lot grid (sizes), derived from the
minimum price increment and the round lot. Margin arithmetic works in the settlement price:
the price itself for linear contracts, its reciprocal for inverse ones.
-/

namespace TradeLedger

/-- How fills on an instrument settle. -/
inductive SecurityType where
  /-- Fills move asset balances. -/
  | spot
  /-- Fills move a margined position; no expiry. -/
  | perpetual
  /-- Fills move a margined position; dated. -/
  | future
  deriving DecidableEq, Repr, Inhabited

def SecurityType.names : List (String × SecurityType) :=
  [("Spot", .spot), ("Perpetual", .perpetual), ("Future", .future)]

/-- Fills on anything but spot move a margined position. -/
def SecurityType.isMargined : SecurityType → Bool
  | .spot => false
  | _ => true

/-- The catalogue record of one instrument. -/
structure Security where
  securityId : SecurityId
  symbol : String
  securityType : SecurityType
  minPriceIncrement : Decimal
  roundLot : Decimal
  /-- Contract multiplier; negative for inverse contracts. -/
  multiplier : Decimal
  isInverse : Bool
  /-- Fee rate for resting fills; negative is a rebate. -/
  makerFee : Decimal
  /-- Fee rate for taking fills. -/
  takerFee : Decimal
  underlying : String
  quoteCurrency : String
  deriving DecidableEq, Inhabited

namespace Security

/-- Coin-margined BTC perpetual: one-dollar contracts settled in BTC. -/
def btcusdPerp : Security :=
  { securityId := 1, symbol := "BTCUSD_PERP", securityType := .perpetual,
    minPriceIncrement := Decimal.ofParts false 1 1, roundLot := Decimal.one,
    multiplier := Decimal.ofParts true 1 0, isInverse := true,
    makerFee := Decimal.ofParts false 1 4, takerFee := Decimal.ofParts false 5 4,
    underlying := "BTC", quoteCurrency := "USD" }

/-- USDT-margined linear ETH perpetual. -/
def ethusdtPerp : Security :=
  { securityId := 2, symbol := "ETHUSDT", securityType := .perpetual,
    minPriceIncrement := Decimal.ofParts false 1 2,
    roundLot := Decimal.ofParts false 1 3, multiplier := Decimal.one, isInverse := false,
    makerFee := Decimal.ofParts false 2 4, takerFee := Decimal.ofParts false 4 4,
    underlying := "ETH", quoteCurrency := "USDT" }

/-- BTC/USDT spot pair. -/
def btcusdtSpot : Security :=
  { securityId := 3, symbol := "BTCUSDT", securityType := .spot,
    minPriceIncrement := Decimal.ofParts false 1 2,
    roundLot := Decimal.ofParts false 1 5, multiplier := Decimal.one, isInverse := false,
    makerFee := Decimal.ofParts false 1 3, takerFee := Decimal.ofParts false 1 3,
    underlying := "BTC", quoteCurrency := "USDT" }

end Security

/-- A security as one account sees it, with its price and size grids. -/
structure Instrument where
  security : Security
  tick : Precision
  lot : Precision
  deriving DecidableEq

namespace Instrument

/-- The grids of a security; an increment that gives no grid is an error naming it. -/
def ofSecurity (s : Security) : Except LedgerError Instrument :=
  match Precision.fromIncrement? s.minPriceIncrement, Precision.fromIncrement? s.roundLot with
  | none, _ => .error (.invalidPrecision s.securityId s.minPriceIncrement)
  | some _, none => .error (.invalidPrecision s.securityId s.roundLot)
  | some tick, some lot => .ok ⟨s, tick, lot⟩

def securityId (i : Instrument) : SecurityId := i.security.securityId

def isMargined (i : Instrument) : Bool := i.security.securityType.isMargined

/-- The price margin arithmetic uses: `none` for a price that is not positive, the reciprocal
for inverse contracts. -/
def settlementPrice? (i : Instrument) (price : Decimal) : Option Decimal :=
  if price ≤ Decimal.zero then none
  else if i.security.isInverse then Decimal.one.div? price else some price

def feeRate (i : Instrument) (taker : Bool) : Decimal :=
  if taker then i.security.takerFee else i.security.makerFee

/-- The price on the nearest tick, ties away from zero. -/
def roundPrice? (i : Instrument) (price : Decimal) : Option Decimal :=
  (i.tick.toRaw? price).map i.tick.fromRaw

end Instrument

end TradeLedger
