import TradeLedger.Account.Basic
import TradeLedger.Margin

/-!
# Settling fills

What a fill does to the account once its order is known. A spot fill moves the base and quote
balances and records both new balances. A margined fill goes through the position: realized
profit moves into the margin and the commission leaves it; the position and the margin change
only once every step has succeeded, and two events record the position change and the fee.
-/

namespace TradeLedger

namespace AccountM

/-- Settles a spot fill into the balances. -/
def settleSpot (sid : SecurityId) (side : Side) (price quantity : Decimal) (taker : Bool) :
    AccountM Unit := do
  let i ← view sid
  let base := i.security.underlying
  let quote := i.security.quoteCurrency
  let settled ← ofFault ((← get).balances.settleSpot side base quote price quantity (i.feeRate taker))
  let (s, balances) ← orThrow .overflow settled
  modify fun a => { a with balances }
  emit (.balanceChanged base s.baseDelta (balances.get base))
  emit (.balanceChanged quote s.quoteDelta (balances.get quote))

/-- Settles a margined fill into the position and the margin. -/
def settleMargined (sid : SecurityId) (side : Side) (tradeId : TradeId) (price quantity : Decimal)
    (rawFill : Int64) (taker : Bool) : AccountM Unit := do
  let i ← view sid
  let a ← get
  let t := a.terms i
  let sp ← orThrow .overflow (i.settlementPrice? price)
  let rate := i.feeRate taker
  let p := (a.positions.get? sid).getD (Position.create sid false)
  let (p, u) ← ofChecked (applyFill p side rawFill sp t)
  let fee ← orThrow .overflow
    (Margin.notional? quantity sp i.security.multiplier >>= (Margin.commission? rate · a.marginGrid))
  let margin ← orThrow .overflow (Word.add? a.margin u.realizedPnl >>= (Word.sub? · fee))
  modify fun a => { a with margin, positions := a.positions.insert sid p }
  emit (.positionChanged sid u.oldRawSize u.newRawSize p.cost u.realizedPnl)
  emit (.commission sid tradeId rate fee)

/-- Settles a fill of `quantity` (`rawFill` raw lots) at `price`. -/
def settleFill (sid : SecurityId) (side : Side) (tradeId : TradeId) (price quantity : Decimal)
    (rawFill : Int64) (taker : Bool) : AccountM Unit := do
  let i ← view sid
  if i.isMargined then settleMargined sid side tradeId price quantity rawFill taker
  else settleSpot sid side price quantity taker

end AccountM

end TradeLedger
