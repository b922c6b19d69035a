import TradeLedger.Simulation

/-!
# The tour as a program

Prints the lines of the ledger tour; a tour that stops early ends with status 1.
-/

def main : IO UInt32 := do
  let (lines, completed) := TradeLedger.Simulation.run
  let out ← IO.getStdout
  for line in lines do
    out.putStrLn line
  pure (if completed then 0 else 1)
