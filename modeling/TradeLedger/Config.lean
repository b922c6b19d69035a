import TradeLedger.Decimal.Text
import TradeLedger.Precision

/-!
# Ledger settings

One account's settings: the asset its margin is counted in, the margin grid, how far off the
lot grid a quantity may lie, and how many events are kept. `validate` checks them in that order
and names the first fault.
-/

namespace TradeLedger

/-- Characters with the Unicode `White_Space` property. -/
def isBlank (c : Char) : Bool :=
  let n := c.toNat
  (0x09 ≤ n && n ≤ 0x0D) || n == 0x20 || n == 0x85 || n == 0xA0 || n == 0x1680 ||
    (0x2000 ≤ n && n ≤ 0x200A) || n == 0x2028 || n == 0x2029 || n == 0x202F || n == 0x205F ||
    n == 0x3000

/-- Settings of one account. -/
structure Config where
  /-- The asset the margin is counted in. -/
  marginCurrency : String
  /-- Raw margin units per whole unit of the margin currency. -/
  marginPrecision : Int64
  /-- How far off the lot grid a quantity may be, in raw lot units. -/
  lotTolerance : Decimal
  /-- How many events the log keeps. -/
  maxEvents : Nat
  /-- Whether every event is traced as well. -/
  verbose : Bool
  deriving DecidableEq, Inhabited

/-- What is wrong with a configuration. -/
inductive ConfigError where
  | invalidMarginCurrency
  | invalidPrecision (reason : String)
  | invalidTolerance (reason : String)
  | invalidRetention
  deriving DecidableEq, Repr

namespace ConfigError

def code : ConfigError → String
  | .invalidMarginCurrency => "InvalidMarginCurrency"
  | .invalidPrecision _ => "InvalidPrecision"
  | .invalidTolerance _ => "InvalidTolerance"
  | .invalidRetention => "InvalidRetention"

/-- The fault in words. -/
def message : ConfigError → String
  | .invalidMarginCurrency => "Margin currency must not be empty"
  | .invalidPrecision reason => "Invalid precision: " ++ reason
  | .invalidTolerance reason => "Invalid lot tolerance: " ++ reason
  | .invalidRetention => "Event retention must be at least 1"

end ConfigError

namespace Config

def inverseBtc : Config :=
  { marginCurrency := "BTC", marginPrecision := 100000000,
    lotTolerance := Decimal.ofParts false 1 5, maxEvents := 10000, verbose := false }

/-- The default settings are those of `inverseBtc`. -/
def default : Config := inverseBtc

def linearUsd (marginCurrency : String) : Config :=
  { default with marginCurrency, marginPrecision := 1000000 }

def marginGrid? (c : Config) : Option Precision := Precision.new? c.marginPrecision.toInt

/-- The first fault of the settings, checked in the order currency, precision, tolerance,
retention. -/
def validate (c : Config) : Except ConfigError Unit :=
  if c.marginCurrency.toList.all isBlank then .error .invalidMarginCurrency
  else if c.marginPrecision.toInt ≤ 0 then .error (.invalidPrecision "Margin precision must be positive")
  else if c.lotTolerance < Decimal.zero ∨ Decimal.one ≤ c.lotTolerance then
    .error (.invalidTolerance "Lot tolerance must be in [0, 1)")
  else if c.maxEvents = 0 then .error .invalidRetention
  else .ok ()

end Config

end TradeLedger
