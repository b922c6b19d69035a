import TradeLedger.Decimal.Arith

/-!
# Decimal text

Writing: the digits of the mantissa with a point before the last `scale` of them, zeros padded
in front as needed, and a minus sign whenever the sign flag is set (`"1.50"`, `"0.000"`, `"-0.5"`).
A fixed number of places cuts the digits after the point (it never rounds) or pads zeros.

Reading: an optional sign, digits with at most one point, and underscores after the first digit.
Digits beyond 28 places, or beyond what 96 bits hold after the point, are not kept: the first
dropped digit rounds the last kept one half up, and what follows it must still be digits and
underscores. Failing that, the text is read as `<decimal>e<exponent>` (or `E`): a negative
exponent of at most 28 raises the scale, rounding half away from zero past 28 places; a positive
one lowers it or, past scale 0, multiplies the digits out.
-/

namespace TradeLedger

namespace Decimal

/-- The digits of the mantissa, at least `scale` of them: zeros are padded in front. A zero
mantissa has no digits of its own. -/
def digitChars (d : Decimal) : List Char :=
  let ds := if d.mantissa = 0 then [] else Nat.toDigits 10 d.mantissa
  List.replicate (d.scale - ds.length) '0' ++ ds

/-- The text of a decimal: all its digits, the point before the last `scale` of them. -/
def render (d : Decimal) : String :=
  let ds := d.digitChars
  let whole := ds.length - d.scale
  let body :=
    if d.scale = 0 then (if ds.isEmpty then "0" else String.ofList ds)
    else (if whole = 0 then "0" else String.ofList (ds.take whole)) ++ "." ++ String.ofList (ds.drop whole)
  (if d.negative then "-" else "") ++ body

/-- The text with exactly `places` digits after the point: further digits are cut off, missing
ones are zeros. -/
def renderPlaces (d : Decimal) (places : Nat) : String :=
  let ds := d.digitChars
  let whole := ds.length - d.scale
  let frac := (ds.drop whole ++ List.replicate places '0').take places
  let body :=
    if places = 0 then (if whole = 0 then "0" else String.ofList (ds.take whole))
    else (if whole = 0 then "0" else String.ofList (ds.take whole)) ++ "." ++ String.ofList frac
  (if d.negative then "-" else "") ++ body

instance : ToString Decimal := ⟨render⟩

/-- Where a reading of plain decimal text stands. -/
structure Reading where
  /-- The digits read so far, as one number. -/
  digits : Nat := 0
  /-- How many of them stand after the point. -/
  scale : Nat := 0
  /-- A point was read. -/
  point : Bool := false
  /-- A minus sign was read. -/
  negative : Bool := false
  /-- A digit was read. -/
  seenDigit : Bool := false
  /-- Nothing has been read yet. -/
  atStart : Bool := true
  /-- The digits came near the 64-bit limit: the reading guards the 96-bit bound from here on. -/
  wide : Bool := false
  /-- The digits fill 28 places: the next character only rounds them. -/
  rounding : Bool := false

/-- Past this many digits a 64-bit reading can no longer take a digit safely. -/
def wideFrom : Nat := 1844674407370954906

def Reading.finish (r : Reading) : Option Decimal :=
  if r.seenDigit then normalized? r.negative r.digits r.scale else none

/-- The character that stops a reading rounds the digits read half up (an underscore counts as
a zero), and the characters after it must be digits or underscores. A carry out of 96 bits
drops one more digit. -/
def Reading.roundBy (r : Reading) (c : Char) (rest : List Char) : Option Decimal :=
  let digit? : Option Nat :=
    if c.isDigit then some (c.toNat - '0'.toNat) else if c = '_' then some 0 else none
  match digit? with
  | none => none
  | some g =>
    if !rest.all (fun c => c.isDigit || c = '_') then none
    else if g < 5 then normalized? r.negative r.digits r.scale
    else if r.digits + 1 < bound then normalized? r.negative (r.digits + 1) r.scale
    else if r.scale = 0 then none
    else normalized? r.negative ((r.digits + 1 + 4) / 10) (r.scale - 1)

/-- Reads plain decimal text; `long` says the text has at least 18 bytes, so that it may hold
more digits than 64 bits. -/
def readPlainChars (long : Bool) : Reading → List Char → Option Decimal
  | r, [] => r.finish
  | r, c :: rest =>
    if r.rounding then
      if r.wide ∧ c = '_' then
        match rest.dropWhile (· = '_') with
        | [] => r.finish
        | d :: tail => r.roundBy d tail
      else r.roundBy c rest
    else if c.isDigit then
      let g := c.toNat - '0'.toNat
      let grown := r.digits * 10 + g
      if r.wide ∧ grown ≥ bound then (if r.point then r.roundBy c rest else none)
      else
        let r : Reading := { r with digits := grown, seenDigit := true, atStart := false,
                                    scale := if r.point then r.scale + 1 else r.scale }
        if r.point ∧ long ∧ r.scale ≥ 28 then readPlainChars long { r with rounding := true } rest
        else if !r.wide ∧ long ∧ r.digits ≥ wideFrom then
          readPlainChars long { r with wide := true } rest
        else readPlainChars long r rest
    else if c = '.' ∧ !r.point then readPlainChars long { r with point := true, atStart := false } rest
    else if !r.wide ∧ r.atStart ∧ (c = '-' ∨ c = '+') then
      readPlainChars long { r with negative := c = '-', atStart := false } rest
    else if c = '_' ∧ r.seenDigit then readPlainChars long { r with atStart := false } rest
    else none

def readPlain (s : String) : Option Decimal :=
  readPlainChars (s.utf8ByteSize ≥ 18) {} s.toList

/-- An unsigned 32-bit number: an optional plus sign and at least one digit. -/
def readExponent (cs : List Char) : Option Nat :=
  let ds := match cs with
    | '+' :: rest => rest
    | _ => cs
  if ds.isEmpty ∨ !ds.all Char.isDigit then none
  else
    let n := ds.foldl (fun acc c => acc * 10 + (c.toNat - '0'.toNat)) 0
    if n < limb then some n else none

def withScale (d : Decimal) (s : Nat) : Option Decimal := make? d.negative d.mantissa s

/-- Reads `<decimal>e<exponent>`, the mark being `e` or `E`. -/
def readScientific (s : String) : Option Decimal :=
  match s.toList.span (fun c => c != 'e' && c != 'E') with
  | (_, []) => none
  | (base, _ :: exp) => do
    let b ← readPlain (String.ofList base)
    match exp with
    | '-' :: e =>
      let e ← readExponent e
      if e > 28 then none
      else if b.scale + e ≤ 28 then b.withScale (b.scale + e)
      else make? b.negative (roundDiv .awayFromZero b.mantissa (b.scale + e - 28)) 28
    | _ =>
      let e ← readExponent exp
      if e ≤ b.scale then b.withScale (b.scale - e)
      else if e > 28 then none
      else if b.mantissa = 0 then some zero
      else make? b.negative (b.mantissa * pow10 (e - b.scale)) 0

def parse? (s : String) : Option Decimal := (readPlain s).orElse fun _ => readScientific s

end Decimal

end TradeLedger
