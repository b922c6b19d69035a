/-!
# Signed 64-bit words

Raw amounts (lots, margin units, milliseconds) are signed 64-bit integers. Arithmetic on them
is checked: an operation whose exact result leaves the range reports it (`none`) instead of
wrapping, except the saturating addition of times.
-/

namespace TradeLedger

namespace Word

def inRange (x : Int) : Bool := -9223372036854775808 ≤ x && x ≤ 9223372036854775807

def ofInt? (x : Int) : Option Int64 := if inRange x then some (Int64.ofInt x) else none

def add? (a b : Int64) : Option Int64 := ofInt? (a.toInt + b.toInt)

def sub? (a b : Int64) : Option Int64 := ofInt? (a.toInt - b.toInt)

/-- The exact product, when it fits. -/
def mul? (a b : Int64) : Option Int64 := ofInt? (a.toInt * b.toInt)

/-- The magnitude, when it fits: the least word has none. -/
def abs? (a : Int64) : Option Int64 := ofInt? (a.toInt.natAbs : Int)

def saturatingAdd (a b : Int64) : Int64 :=
  let s := a.toInt + b.toInt
  if s < -9223372036854775808 then Int64.ofInt (-9223372036854775808)
  else if s > 9223372036854775807 then Int64.ofInt 9223372036854775807
  else Int64.ofInt s

def signum (a : Int64) : Int := if a.toInt < 0 then -1 else if a.toInt = 0 then 0 else 1

theorem toInt_of_ofInt? {x : Int} {w : Int64} (h : ofInt? x = some w) : w.toInt = x := by
  unfold ofInt? inRange at h
  split at h
  · rename_i hr
    cases h
    simp only [Bool.and_eq_true, decide_eq_true_eq] at hr
    exact Int64.toInt_ofInt_of_le (by omega) (by omega)
  · cases h

theorem ofInt?_isSome {x : Int} (lo : -9223372036854775808 ≤ x) (hi : x ≤ 9223372036854775807) :
    (ofInt? x).isSome := by
  have h : inRange x = true := by simp only [inRange, Bool.and_eq_true, decide_eq_true_eq]; exact ⟨lo, hi⟩
  simp [ofInt?, h]

end Word

end TradeLedger
