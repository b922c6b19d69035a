import TradeLedger.Wire.Session
import TradeLedger.Wire.Document
import TradeLedger.Simulation

/-!
# Requests

A request is an object whose `op` names what to run; its answer is one JSON document. A
request that is not a JSON document or not an object, names no known operation or cannot be
read answers `{"error": "BadInput"}`.
-/

namespace TradeLedger

namespace Wire

open Json

def simulationRequest : Json :=
  let (lines, completed) := Simulation.run
  .obj [("exit_code", int (if completed then 0 else 1)), ("stdout", .arr (lines.map .str))]

/-- The reader of each operation. -/
def operation? (op : String) : Option (Json → Option Json) :=
  match op with
  | "account" => some accountRequest
  | "precision" => some precisionRequest
  | "instrument" => some instrumentRequest
  | "apply_fill" => some applyFillRequest
  | "margin" => some marginRequest
  | "spot" => some spotRequest
  | "config" => some configRequest
  | "filter" => some filterRequest
  | "sim" => some fun _ => some simulationRequest
  | "presets" => some presetsRequest
  | "order_ctor" => some orderRequest
  | "status" => some statusRequest
  | "types" => some typesRequest
  | "position_ops" => some positionRequest
  | "balances" => some balancesRequest
  | "order_ledger" => some orderBookRequest
  | _ => none

def answer (request : Json) : Json :=
  let reply := do
    let run ← req request "op" str? >>= operation?
    run request
  reply.getD badInput

/-- The answer to one line of request text, as text: a line that is not a JSON document answers
`{"error": "BadInput"}`. -/
def respond (line : String) : String :=
  ((Json.read? line).elim badInput answer).render

end Wire

end TradeLedger
