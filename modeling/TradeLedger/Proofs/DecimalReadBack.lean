import Mathlib
import TradeLedger.Proofs.SnapshotRoundTrip
import TradeLedger.Proofs.RiskMonotone

/-!
# Decimal views read back as raw units

The ledger counts sizes, prices and money in raw units of a grid and shows them as decimals, the
quotient by the grid's scale. Reading a shown decimal back on its grid gives the raw units again
(`Precision.toRaw?_fromRaw`, for every grid and every 64-bit count), so every decimal the ledger
derives is a faithful view of its raw count.

Main statement (`derived_decimals_read_back`): the round trip holds on every grid; rounding a
price to the tick grid is idempotent; a record refreshed on a lot grid, and so every record of a
reachable account on its instrument's lot grid, reads back as its raw quantity, leaves and cum;
and a position shown in decimal units reads back as its raw size and raw cost.
-/

namespace TradeLedger

namespace Instrument

theorem roundPrice?_of_roundPrice? {i : Instrument} {price rounded : Decimal}
    (h : i.roundPrice? price = some rounded) : i.roundPrice? rounded = some rounded := by
  obtain ⟨raw, -, rfl⟩ := Option.map_eq_some_iff.mp h
  rw [roundPrice?, Precision.toRaw?_fromRaw, Option.map_some]

end Instrument

namespace OrderRecord

/-- A record's decimal counts read back, on its instrument's lot grid, as its raw counts. -/
def ReadsBack (ins : KeyMap SecurityId Instrument) (r : OrderRecord) : Prop :=
  ∃ inst, ins.get? r.order.securityId = some inst ∧
    inst.lot.toRaw? r.order.quantity = some r.rawQuantity ∧
    inst.lot.toRaw? r.order.leavesQuantity = some r.rawLeaves ∧
    inst.lot.toRaw? r.order.cumQuantity = some r.rawCum

theorem toRaw?_refresh (r : OrderRecord) (lot : Precision) :
    lot.toRaw? (r.refresh lot).order.quantity = some r.rawQuantity ∧
    lot.toRaw? (r.refresh lot).order.leavesQuantity = some r.rawLeaves ∧
    lot.toRaw? (r.refresh lot).order.cumQuantity = some r.rawCum :=
  ⟨lot.toRaw?_fromRaw _, lot.toRaw?_fromRaw _, lot.toRaw?_fromRaw _⟩

theorem ShownOn.readsBack {ins : KeyMap SecurityId Instrument} {r : OrderRecord}
    (h : r.ShownOn ins) : r.ReadsBack ins := by
  obtain ⟨inst, hinst, hq, hl, hc⟩ := h
  refine ⟨inst, hinst, ?_, ?_, ?_⟩
  · rw [hq, Precision.toRaw?_fromRaw]
  · rw [hl, Precision.toRaw?_fromRaw]
  · rw [hc, Precision.toRaw?_fromRaw]

end OrderRecord

namespace Account

variable {a : Account}

theorem Reachable.recordsReadBack (h : a.Reachable) : a.EveryRecord OrderRecord.ReadsBack :=
  fun i r hr => (ReachableUnder.recordsShown h i r hr).readsBack

theorem positionView?_readsBack {p : Position} {v : PositionView} (h : a.positionView? p = some v) :
    ∃ i, a.instrument? p.securityId = some i ∧ i.lot.toRaw? v.quantity = some p.rawSize ∧
      a.marginGrid.toRaw? v.cost = some p.cost := by
  obtain ⟨i, hi, rfl⟩ := Option.map_eq_some_iff.mp h
  exact ⟨i, hi, i.lot.toRaw?_fromRaw _, a.marginGrid.toRaw?_fromRaw _⟩

end Account

/-- Every decimal the ledger derives from raw units reads back as those units: on every grid the
value of a 64-bit raw count converts back to it; rounding a price to the tick grid twice is
rounding it once; a record refreshed on a lot grid, and every record of a reachable account on
its instrument's lot grid, reads back as its raw quantity, leaves and cum; and a position shown
in decimal units reads back as its raw size and raw cost. -/
theorem derived_decimals_read_back :
    (∀ (p : Precision) (x : Int64), p.toRaw? (p.fromRaw x) = some x) ∧
    (∀ (i : Instrument) (price rounded : Decimal),
      i.roundPrice? price = some rounded → i.roundPrice? rounded = some rounded) ∧
    (∀ (r : OrderRecord) (lot : Precision),
      lot.toRaw? (r.refresh lot).order.quantity = some r.rawQuantity ∧
      lot.toRaw? (r.refresh lot).order.leavesQuantity = some r.rawLeaves ∧
      lot.toRaw? (r.refresh lot).order.cumQuantity = some r.rawCum) ∧
    (∀ a : Account, a.Reachable → a.EveryRecord OrderRecord.ReadsBack) ∧
    (∀ (a : Account) (p : Position) (v : PositionView), a.positionView? p = some v →
      ∃ i, a.instrument? p.securityId = some i ∧ i.lot.toRaw? v.quantity = some p.rawSize ∧
        a.marginGrid.toRaw? v.cost = some p.cost) :=
  ⟨Precision.toRaw?_fromRaw, fun _ _ _ => Instrument.roundPrice?_of_roundPrice?,
    OrderRecord.toRaw?_refresh, fun _ => Account.Reachable.recordsReadBack,
    fun _ _ _ => Account.positionView?_readsBack⟩

/-- Long ten lots of the BTC perpetual, whose tick is 0.1: 100.05 rounds to 100.10, which rounds
to itself; every record reads back as its raw counts; the position reads back as its raw size
and raw cost. -/
theorem long_perpetual_reads_back :
    ∃ a p i v, Sample.session Account.longTenLots = some a ∧ a.positions.get? 1 = some p ∧
      a.instrument? 1 = some i ∧
      i.roundPrice? (Decimal.ofParts false 10005 2) = some (Decimal.ofParts false 10010 2) ∧
      i.roundPrice? (Decimal.ofParts false 10010 2) = some (Decimal.ofParts false 10010 2) ∧
      a.EveryRecord OrderRecord.ReadsBack ∧ a.positionView? p = some v ∧
      ∃ i', a.instrument? p.securityId = some i' ∧ i'.lot.toRaw? v.quantity = some p.rawSize ∧
        a.marginGrid.toRaw? v.cost = some p.cost := by
  obtain ⟨-, hround, -, hrecords, hview⟩ := derived_decimals_read_back
  have hp : Account.longTenAccount.positions.get? 1 = some _ := rfl
  have hi : Account.longTenAccount.instrument? 1 = some _ := rfl
  have hr : ((Account.longTenAccount.instrument? 1).get rfl).roundPrice?
      (Decimal.ofParts false 10005 2) = some (Decimal.ofParts false 10010 2) := rfl
  have hv : Account.longTenAccount.positionView? ((Account.longTenAccount.positions.get? 1).get rfl) =
      some _ := rfl
  exact ⟨_, _, _, _, Account.session_longTenLots, hp, hi, hr, hround _ _ _ hr,
    hrecords _ (Account.Reachable.of_session Account.session_longTenLots), hv, hview _ _ _ hv⟩

end TradeLedger
