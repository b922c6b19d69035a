import TradeLedger.Decimal.Text
import TradeLedger.Double
import TradeLedger.Word

/-!
# JSON documents

The ledger's messages travel as JSON documents. A whole number that fits a 64-bit word, signed
or unsigned, is kept exactly; any other number is a double, a different kind of value, which no
integer field accepts, whatever its value. Objects keep their fields in order.

A decimal field takes a string, read as decimal text, or a number: an integer as it is, a double
through its shortest text, so `0.1` reads as `0.1` and `1e-30` rounds to zero at 28 places.

Reading a document into a typed value is a partial function (`Option`): a missing field, a
value of the wrong kind or a number out of range reads as nothing. A field of an optional type
may be missing or `null`; fields that no reader asks for are ignored.
-/

namespace TradeLedger

namespace Wire

/-- A JSON document. -/
inductive Json where
  | null
  | bool (b : Bool)
  /-- A whole number from `-2 ^ 63` to `2 ^ 64 - 1`, written without a point or an exponent. -/
  | int (n : Int)
  /-- Any other number, as a double and its sign (`-0` is a negative zero). -/
  | float (negative : Bool) (magnitude : Double)
  | str (s : String)
  | arr (items : List Json)
  | obj (fields : List (String × Json))
  deriving Inhabited

namespace Json

def nat (n : Nat) : Json := .int n

def dec (d : Decimal) : Json := .str d.render

def word (w : Int64) : Json := .int w.toInt

def opt {α : Type} (enc : α → Json) : Option α → Json
  | none => .null
  | some a => enc a

def field? (j : Json) (key : String) : Option Json :=
  match j with
  | .obj fields => (fields.find? (·.1 == key)).map (·.2)
  | _ => none

def fields? : Json → Option (List (String × Json))
  | .obj fields => some fields
  | _ => none

def items? : Json → Option (List Json)
  | .arr items => some items
  | _ => none

def str? : Json → Option String
  | .str s => some s
  | _ => none

def bool? : Json → Option Bool
  | .bool b => some b
  | _ => none

def int? : Json → Option Int
  | .int n => some n
  | _ => none

def word? (j : Json) : Option Int64 := j.int? >>= Word.ofInt?

def nat? (j : Json) : Option Nat := do
  let n ← j.int?
  if 0 ≤ n ∧ n < 18446744073709551616 then some n.toNat else none

/-- A decimal: text, plain or with an exponent; an integer at scale 0; or a double, read from
its shortest text. -/
def dec? : Json → Option Decimal
  | .str s => Decimal.parse? s
  | .int n => Decimal.make? (n < 0) n.natAbs 0
  | .float negative d => Decimal.readPlain (d.render negative)
  | _ => none

def nullable? {α : Type} (read : Json → Option α) : Json → Option (Option α)
  | .null => some none
  | j => (read j).map some

def req {α : Type} (j : Json) (key : String) (read : Json → Option α) : Option α :=
  j.field? key >>= read

def optField {α : Type} (j : Json) (key : String) (read : Json → Option α) : Option (Option α) :=
  match j.field? key with
  | none => some none
  | some v => nullable? read v

/-- A field that may be missing (`none`), but when present reads through `read`; `null` is
read like any other value. -/
def presentField {α : Type} (j : Json) (key : String) (read : Json → Option α) : Option (Option α) :=
  match j.field? key with
  | none => some none
  | some v => (read v).map some

/-- A field that counts only when it can be read: missing, `null` and unreadable values are all
`none`. -/
def looseField {α : Type} (j : Json) (key : String) (read : Json → Option α) : Option α :=
  j.field? key >>= read

/-- A record written as an object, or as an array holding all its fields in declaration order;
either way it comes back as an object keyed by `names`. -/
def record? (names : List String) : Json → Option Json
  | .obj fields => some (.obj fields)
  | .arr items => if items.length = names.length then some (.obj (names.zip items)) else none
  | _ => none

def list? {α : Type} (read : Json → Option α) (j : Json) : Option (List α) :=
  j.items? >>= (·.mapM read)

def pair? {α β : Type} (readA : Json → Option α) (readB : Json → Option β) : Json → Option (α × β)
  | .arr [a, b] => do pure (← readA a, ← readB b)
  | _ => none

/-- An enumeration value written as a tag: a string, or an object with the tag as its only
key. The payload is `none` for a bare string. -/
def tagged? : Json → Option (String × Option Json)
  | .str s => some (s, none)
  | .obj [(k, v)] => some (k, some v)
  | _ => none

/-- A tag without payload: the bare string, or the tag mapped to `null`. -/
def unitTag? (j : Json) : Option String :=
  match j.tagged? with
  | some (t, none) => some t
  | some (t, some .null) => some t
  | _ => none

def name? {α : Type} (table : List (String × α)) (j : Json) : Option α := do
  let s ← j.unitTag?
  (table.find? (·.1 == s)).map (·.2)

def nameOf {α : Type} [DecidableEq α] (table : List (String × α)) (a : α) : Json :=
  .str (((table.find? (·.2 == a)).map (·.1)).getD "")

end Json

end Wire

end TradeLedger
