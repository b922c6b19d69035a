import TradeLedger.Wire.Json

/-!
# JSON text

Reading one line of JSON text into a document, and writing a document as text.

Reading follows the JSON grammar strictly: whitespace is space, tab, line feed and carriage
return; a number has no leading zero, no bare point and no plus sign; a string holds no control
character, and its `\u` escapes of surrogates come in pairs. Beyond the grammar, nesting of
arrays and objects deeper than 127 levels is refused. Of two fields with one key the later
counts.

A whole number that fits a signed or unsigned 64-bit word reads as an integer. Any other number
(`-0` among them) reads as a double, computed the quick way rather than rounded once: the
leading digits that fit in a word make a significand, later whole digits raise the power of ten
and later fraction digits are dropped, and `Double.ofScaled?` scales the significand by that
power. A number whose double comes out infinite is refused.

Text is split into tokens first; the tokens are then read as one value with nothing after it.
Both passes take their fuel from the length of their input, which is always enough.
-/

namespace TradeLedger

namespace Wire

/-- The pieces of JSON text between whitespace. -/
inductive Token where
  | openObject
  | closeObject
  | openArray
  | closeArray
  | colon
  | comma
  /-- A string, its escapes resolved. -/
  | str (s : String)
  /-- A number, `true`, `false` or `null`. -/
  | scalar (j : Json)

namespace Token

def isBlank (c : Char) : Bool := c = ' ' || c = '\t' || c = '\n' || c = '\r'

/-- The largest unsigned 64-bit word: a number's significand takes digits while it stays at
most this. -/
def wordMax : Nat := 18446744073709551615

/-- The largest signed 32-bit integer: an exponent takes digits while it stays at most this. -/
def exponentMax : Nat := 2147483647

def digitValue (c : Char) : Nat := c.toNat - '0'.toNat

def spanDigits (cs : List Char) : List Char × List Char :=
  (cs.takeWhile Char.isDigit, cs.dropWhile Char.isDigit)

/-- Feeds digits into `acc` while it stays at most `limit`: the value, how many digits it took,
and the text from the first digit that did not fit or the first character that is no digit. -/
def absorb (limit acc taken : Nat) : List Char → Nat × Nat × List Char
  | [] => (acc, taken, [])
  | c :: rest =>
    if c.isDigit ∧ acc * 10 + digitValue c ≤ limit then
      absorb limit (acc * 10 + digitValue c) (taken + 1) rest
    else (acc, taken, c :: rest)

/-- Whether a text goes on with a fraction or an exponent. -/
def marksFloat : List Char → Bool
  | '.' :: _ => true
  | 'e' :: _ => true
  | 'E' :: _ => true
  | _ => false

/-- A whole number that fits in a word: an integer, but a double for `-0` and below `-2 ^ 63`. -/
def whole (negative : Bool) (sig : Nat) : Option Json :=
  if !negative then some (.int sig)
  else if sig = 0 ∨ sig > 9223372036854775808 then (Double.ofNat? sig).map (.float true)
  else some (.int (-(sig : Int)))

/-- The double of `sig * 10 ^ e` followed by `rest`; `none` when it is out of range. -/
def float? (negative : Bool) (sig : Nat) (e : Int) (rest : List Char) : Option (Json × List Char) :=
  (Double.ofScaled? sig e).map fun d => (.float negative d, rest)

/-- The optional exponent of a number: `e` or `E`, an optional sign and at least one digit. An
exponent past `2 ^ 31 - 1` is out of range when positive and the significand is not zero, and
makes a zero otherwise. -/
def scanExponent (negative : Bool) (sig : Nat) (e : Int) : List Char → Option (Json × List Char)
  | c :: rest =>
    if c = 'e' || c = 'E' then
      let (up, rest) : Bool × List Char := match rest with
        | '+' :: r => (true, r)
        | '-' :: r => (false, r)
        | r => (true, r)
      let (x, taken, after) := absorb exponentMax 0 0 rest
      let (skipped, after) := spanDigits after
      if taken = 0 then none
      else if skipped.isEmpty then float? negative sig (if up then e + x else e - x) after
      else if sig ≠ 0 && up then none
      else some (.float negative Double.zero, after)
    else float? negative sig e (c :: rest)
  | [] => float? negative sig e []

/-- The optional fraction of a number: a point and at least one digit. Its digits go on into the
significand while it fits in a word; the rest are dropped. -/
def scanFraction (negative : Bool) (sig : Nat) (e : Int) : List Char → Option (Json × List Char)
  | '.' :: rest =>
    let (sig, taken, after) := absorb wordMax sig 0 rest
    let (skipped, after) := spanDigits after
    if taken = 0 ∧ skipped.isEmpty then none
    else scanExponent negative sig (e - taken) after
  | cs => scanExponent negative sig e cs

/-- Reads a number: an optional minus, a whole part without leading zeros, then an optional
fraction and an optional exponent. The significand keeps the leading digits that fit in a word;
each whole digit past them counts as a power of ten. -/
def scanNumber (cs : List Char) : Option (Json × List Char) :=
  let (negative, cs) := match cs with
    | '-' :: rest => (true, rest)
    | _ => (false, cs)
  match cs with
  | c :: more =>
    if !c.isDigit || (c = '0' && (more.head?.map Char.isDigit).getD false) then none
    else
      let (sig, _, rest) := absorb wordMax 0 0 cs
      let (dropped, rest) := spanDigits rest
      if dropped.isEmpty && !marksFloat rest then (whole negative sig).map (·, rest)
      else scanFraction negative sig dropped.length rest
  | [] => none

def hexDigit? (c : Char) : Option Nat :=
  if c.isDigit then some (c.toNat - '0'.toNat)
  else if 'a' ≤ c ∧ c ≤ 'f' then some (c.toNat - 'a'.toNat + 10)
  else if 'A' ≤ c ∧ c ≤ 'F' then some (c.toNat - 'A'.toNat + 10)
  else none

def hexUnit? (a b c d : Char) : Option Nat := do
  pure ((((← hexDigit? a) * 16 + (← hexDigit? b)) * 16 + (← hexDigit? c)) * 16 + (← hexDigit? d))

def isLeadSurrogate (n : Nat) : Bool := 0xD800 ≤ n && n < 0xDC00

def isTrailSurrogate (n : Nat) : Bool := 0xDC00 ≤ n && n < 0xE000

def ofSurrogates (lead trail : Nat) : Char :=
  Char.ofNat (0x10000 + (lead - 0xD800) * 0x400 + (trail - 0xDC00))

/-- The character that a one-letter escape stands for. -/
def escaped? : Char → Option Char
  | '"' => some '"'
  | '\\' => some '\\'
  | '/' => some '/'
  | 'b' => some '\x08'
  | 'f' => some '\x0c'
  | 'n' => some '\n'
  | 'r' => some '\r'
  | 't' => some '\t'
  | _ => none

/-- Reads the rest of a string after its opening quote, through the closing one; `acc` holds
the characters read so far, last first. -/
def scanString (acc : List Char) : List Char → Option (String × List Char)
  | [] => none
  | '"' :: rest => some (String.ofList acc.reverse, rest)
  | '\\' :: 'u' :: a :: b :: c :: d :: rest =>
    match hexUnit? a b c d with
    | none => none
    | some n =>
      if isTrailSurrogate n then none
      else if isLeadSurrogate n then
        match rest with
        | '\\' :: 'u' :: e :: f :: g :: h :: more =>
          match hexUnit? e f g h with
          | some m => if isTrailSurrogate m then scanString (ofSurrogates n m :: acc) more else none
          | none => none
        | _ => none
      else scanString (Char.ofNat n :: acc) rest
  | '\\' :: c :: rest =>
    match escaped? c with
    | some e => scanString (e :: acc) rest
    | none => none
  | c :: rest => if c.toNat < 0x20 then none else scanString (c :: acc) rest

/-- Splits text into tokens, `acc` holding those found so far, last first; `none` at a
character that starts no token. Each step takes at least one character, so the text's length
is fuel enough. -/
def scanWith : Nat → List Token → List Char → Option (List Token)
  | _, acc, [] => some acc.reverse
  | 0, _, _ :: _ => none
  | fuel + 1, acc, c :: rest =>
    if isBlank c then scanWith fuel acc rest
    else if c = '[' then scanWith fuel (.openArray :: acc) rest
    else if c = ']' then scanWith fuel (.closeArray :: acc) rest
    else if c = '\x7b' then scanWith fuel (.openObject :: acc) rest
    else if c = '\x7d' then scanWith fuel (.closeObject :: acc) rest
    else if c = ':' then scanWith fuel (.colon :: acc) rest
    else if c = ',' then scanWith fuel (.comma :: acc) rest
    else if c = '"' then
      match scanString [] rest with
      | some (s, rest) => scanWith fuel (.str s :: acc) rest
      | none => none
    else if c = '-' || c.isDigit then
      match scanNumber (c :: rest) with
      | some (j, rest) => scanWith fuel (.scalar j :: acc) rest
      | none => none
    else
      match c :: rest with
      | 't' :: 'r' :: 'u' :: 'e' :: rest => scanWith fuel (.scalar (.bool true) :: acc) rest
      | 'f' :: 'a' :: 'l' :: 's' :: 'e' :: rest => scanWith fuel (.scalar (.bool false) :: acc) rest
      | 'n' :: 'u' :: 'l' :: 'l' :: rest => scanWith fuel (.scalar .null :: acc) rest
      | _ => none

def scan (cs : List Char) : Option (List Token) := scanWith (cs.length + 1) [] cs

end Token

namespace Json

/-- The fields with `key` set to `value`: an earlier field of that key is replaced. -/
def setField (fields : List (String × Json)) (key : String) (value : Json) : List (String × Json) :=
  if fields.any (·.1 == key) then fields.map fun f => if f.1 == key then (key, value) else f
  else (key, value) :: fields

mutual

/-- Reads one value from the tokens. `room` is how many more arrays or objects may open inside
it; `fuel` bounds the steps, and twice the number of tokens is enough. -/
def readValue : Nat → Nat → List Token → Option (Json × List Token)
  | 0, _, _ => none
  | _ + 1, _, [] => none
  | fuel + 1, room, tok :: rest =>
    match tok with
    | .scalar j => some (j, rest)
    | .str s => some (.str s, rest)
    | .openArray =>
      if room = 0 then none
      else
        match rest with
        | .closeArray :: rest => some (.arr [], rest)
        | _ => readItems fuel (room - 1) [] rest
    | .openObject =>
      if room = 0 then none
      else
        match rest with
        | .closeObject :: rest => some (.obj [], rest)
        | _ => readFields fuel (room - 1) [] rest
    | _ => none

/-- Reads the items of an array from its first item or the one after a comma; `acc` holds the
items read so far, last first. -/
def readItems : Nat → Nat → List Json → List Token → Option (Json × List Token)
  | 0, _, _, _ => none
  | fuel + 1, room, acc, toks =>
    match readValue fuel room toks with
    | some (j, .comma :: rest) => readItems fuel room (j :: acc) rest
    | some (j, .closeArray :: rest) => some (.arr (j :: acc).reverse, rest)
    | _ => none

/-- Reads the fields of an object from its first field or the one after a comma; `acc` holds
the fields read so far, last first. -/
def readFields : Nat → Nat → List (String × Json) → List Token → Option (Json × List Token)
  | 0, _, _, _ => none
  | fuel + 1, room, acc, .str key :: .colon :: toks =>
    match readValue fuel room toks with
    | some (j, .comma :: rest) => readFields fuel room (setField acc key j) rest
    | some (j, .closeObject :: rest) => some (.obj (setField acc key j).reverse, rest)
    | _ => none
  | _ + 1, _, _, _ => none

end

/-- Reads a document from JSON text: one value, with only whitespace around it. -/
def read? (text : String) : Option Json :=
  match Token.scan text.toList with
  | none => none
  | some toks =>
    match readValue (2 * toks.length + 2) 127 toks with
    | some (j, []) => some j
    | _ => none

def hexByte (n : Nat) : String :=
  let digit (d : Nat) : Char := if d < 10 then Char.ofNat (48 + d) else Char.ofNat (87 + d)
  String.ofList [digit (n / 16 % 16), digit (n % 16)]

/-- A character inside a string's quotes: quotes, backslashes and control characters are
escaped. -/
def escapeChar (c : Char) : String :=
  if c = '"' then "\\\""
  else if c = '\\' then "\\\\"
  else if c = '\n' then "\\n"
  else if c = '\r' then "\\r"
  else if c = '\t' then "\\t"
  else if c.toNat < 0x20 then "\\u00" ++ hexByte c.toNat
  else String.singleton c

def quote (s : String) : String := "\"" ++ String.join (s.toList.map escapeChar) ++ "\""

mutual

/-- A document as compact JSON text. -/
def render : Json → String
  | .null => "null"
  | .bool b => if b then "true" else "false"
  | .int n => toString n
  | .float negative d => d.render negative
  | .str s => quote s
  | .arr items => "[" ++ renderItems items ++ "]"
  | .obj fields => "\x7b" ++ renderFields fields ++ "\x7d"

def renderItems : List Json → String
  | [] => ""
  | [j] => render j
  | j :: rest => render j ++ "," ++ renderItems rest

def renderFields : List (String × Json) → String
  | [] => ""
  | [(k, v)] => quote k ++ ":" ++ render v
  | (k, v) :: rest => quote k ++ ":" ++ render v ++ "," ++ renderFields rest

end

end Json

end Wire

end TradeLedger
