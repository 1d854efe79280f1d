import Wiring.Document.Node

/-!
# JSON

Reading JSON. Whole numbers that fit 64 bits are exact, all other numbers are doubles, and lists and
records nest at most 127 deep.
-/

namespace Wiring.Document.Json

/-- Blanks between the parts of a document. -/
def isSpace (c : Char) : Bool := c == ' ' || c == '\n' || c == '\t' || c == '\r'

/-- Drop the blanks in front. -/
def skipSpace (s : List Char) : List Char := s.dropWhile isSpace

/-- The value of a hexadecimal digit. -/
def hexDigit? (c : Char) : Option Nat :=
  if c.isDigit then some (c.toNat - '0'.toNat)
  else if 'a' ≤ c && c ≤ 'f' then some (c.toNat - 'a'.toNat + 10)
  else if 'A' ≤ c && c ≤ 'F' then some (c.toNat - 'A'.toNat + 10)
  else none

/-- Four hexadecimal digits. -/
def hexUnit? : List Char → Option (Nat × List Char)
  | a :: b :: c :: d :: rest => do
    let a ← hexDigit? a
    let b ← hexDigit? b
    let c ← hexDigit? c
    let d ← hexDigit? d
    pure (((a * 16 + b) * 16 + c) * 16 + d, rest)
  | _ => none

/-- The character of an escape by number, which takes two units beyond the first 65536. -/
def unitEscape? (s : List Char) : Option (Char × List Char) := do
  let (unit, rest) ← hexUnit? s
  if 0xD800 ≤ unit && unit < 0xDC00 then
    match rest with
    | '\\' :: 'u' :: rest =>
      let (low, rest) ← hexUnit? rest
      if 0xDC00 ≤ low && low < 0xE000 then
        pure (Char.ofNat (0x10000 + (unit - 0xD800) * 0x400 + (low - 0xDC00)), rest)
      else none
    | _ => none
  else if 0xDC00 ≤ unit && unit < 0xE000 then none
  else pure (Char.ofNat unit, rest)

/-- The character of a short escape. -/
def shortEscape? : Char → Option Char
  | '"' => some '"'
  | '\\' => some '\\'
  | '/' => some '/'
  | 'b' => some '\x08'
  | 'f' => some '\x0c'
  | 'n' => some '\n'
  | 'r' => some '\r'
  | 't' => some '\t'
  | _ => none

/-- Read a text after its opening quote; `seen` holds its characters so far, in reverse. -/
def text? : Nat → List Char → List Char → Option (String × List Char)
  | 0, _, _ => none
  | bound + 1, seen, s =>
    match s with
    | [] => none
    | '"' :: rest => some (String.ofList seen.reverse, rest)
    | '\\' :: 'u' :: rest => do
      let (c, rest) ← unitEscape? rest
      text? bound (c :: seen) rest
    | '\\' :: e :: rest => do
      let c ← shortEscape? e
      text? bound (c :: seen) rest
    | c :: rest => if c.toNat < 0x20 then none else text? bound (c :: seen) rest

/-- The value of decimal digits. -/
def ofDigits (ds : List Char) : Nat :=
  ds.foldl (fun n d => n * 10 + (d.toNat - '0'.toNat)) 0

/-- The digits in front. -/
def spanDigits (s : List Char) : List Char × List Char := s.span Char.isDigit

/-- The largest number of 64 bits. -/
def maxWord : Nat := Nat.pow 2 64 - 1

/-- Append digits to a significand of 64 bits while there is room; the digits that found none are
left. -/
def fill : Nat → List Char → Nat × List Char
  | n, [] => (n, [])
  | n, d :: ds =>
    let m := n * 10 + (d.toNat - '0'.toNat)
    if m ≤ maxWord then fill m ds else (n, d :: ds)

/-- A power of ten as a double. -/
def tenTo (power : Nat) : Float := Float.ofScientific 1 false power

/-- `significand * 10 ^ exponent`, by one multiplication or division of doubles where the power of
ten is a double, else after divisions by the greatest one. No value is given for what is too
large. -/
def scale : Nat → Float → Int → Option Float
  | 0, x, _ => some x
  | bound + 1, x, exponent =>
    if exponent.natAbs ≤ 308 then
      if exponent < 0 then some (x / tenTo exponent.natAbs)
      else
        let y := x * tenTo exponent.natAbs
        if y.isFinite then some y else none
    else if x == 0 then some x
    else if exponent > 0 then none
    else scale bound (x / tenTo 308) (exponent + 308)

/-- The double of a significand and an exponent. A double is zero after a few divisions, so four
steps suffice. -/
def floatOf (negative : Bool) (significand : Nat) (exponent : Int) : Option Float := do
  let x ← scale 4 significand.toUInt64.toFloat exponent
  pure (if negative then -x else x)

/-- Exponents are words of 32 bits. -/
def maxExponent : Nat := Nat.pow 2 31 - 1

/-- Read an exponent, if there is one, and add it. -/
def withExponent (negative : Bool) (significand : Nat) (exponent : Int) (s : List Char) :
    Option (Float × List Char) :=
  match s with
  | [] => (floatOf negative significand exponent).map (·, s)
  | e :: rest =>
    if e == 'e' || e == 'E' then
      let (down, rest) :=
        match rest with
        | '-' :: rest => (true, rest)
        | '+' :: rest => (false, rest)
        | rest => (false, rest)
      let (ds, rest) := spanDigits rest
      if ds.isEmpty then none
      else if ofDigits ds > maxExponent then
        if significand != 0 && !down then none
        else some (if negative then -0.0 else 0.0, rest)
      else
        let exponent := if down then exponent - ofDigits ds else exponent + ofDigits ds
        (floatOf negative significand exponent).map (·, rest)
    else (floatOf negative significand exponent).map (·, s)

/-- Read a number. -/
def number? (s : List Char) : Option (Scalar × List Char) :=
  let (negative, s) :=
    match s with
    | '-' :: s => (true, s)
    | s => (false, s)
  let (whole, rest) := spanDigits s
  if whole.isEmpty || (whole.head? == some '0' && whole.length > 1) then none
  else
    let (significand, dropped) := fill 0 whole
    let (fraction?, rest) :=
      match rest with
      | '.' :: rest =>
        let (ds, rest) := spanDigits rest
        (some ds, rest)
      | rest => (none, rest)
    match fraction? with
    | some [] => none
    | some fraction =>
      let (significand, left) := fill significand fraction
      let taken := fraction.length - left.length
      (withExponent negative significand ((dropped.length : Int) - taken) rest).map
        fun (x, rest) => (.float x, rest)
    | none =>
      let isExponent := rest.head? == some 'e' || rest.head? == some 'E'
      if isExponent || !dropped.isEmpty then
        (withExponent negative significand dropped.length rest).map
          fun (x, rest) => (.float x, rest)
      else if !negative then some (.int significand, rest)
      else if significand == 0 || significand > Nat.pow 2 63 then
        some (.float (-significand.toUInt64.toFloat), rest)
      else some (.int (-(significand : Int)), rest)

/-- Read a word. -/
def word? (word : String) (s : List Char) : Option (List Char) := word.toList.isPrefixOf? s

mutual

/-- Read a value; `depth` more lists and records may be open. -/
def value? : Nat → Nat → List Char → Option (Node × List Char)
  | 0, _, _ => none
  | bound + 1, depth, s =>
    match skipSpace s with
    | [] => none
    | '"' :: rest => (text? bound [] rest).map fun (t, rest) => (.text t, rest)
    | '[' :: rest =>
      if depth ≤ 1 then none
      else
        match skipSpace rest with
        | ']' :: rest => some (.list [], rest)
        | rest => items? bound (depth - 1) [] rest
    | '\x7b' :: rest =>
      if depth ≤ 1 then none
      else
        match skipSpace rest with
        | '\x7d' :: rest => some (.record [], rest)
        | rest => fields? bound (depth - 1) [] rest
    | c :: rest =>
      let s := c :: rest
      if c == 'n' then (word? "null" s).map (Node.null, ·)
      else if c == 't' then (word? "true" s).map (Node.bool true, ·)
      else if c == 'f' then (word? "false" s).map (Node.bool false, ·)
      else (number? s).map fun (x, rest) => (.scalar x, rest)

/-- Read the items of a list and its closing bracket. -/
def items? : Nat → Nat → List Node → List Char → Option (Node × List Char)
  | 0, _, _, _ => none
  | bound + 1, depth, seen, s => do
    let (item, rest) ← value? bound depth s
    match skipSpace rest with
    | ',' :: rest => items? bound depth (item :: seen) rest
    | ']' :: rest => pure (.list (item :: seen).reverse, rest)
    | _ => none

/-- Read the fields of a record and its closing brace. -/
def fields? : Nat → Nat → List (String × Node) → List Char → Option (Node × List Char)
  | 0, _, _, _ => none
  | bound + 1, depth, seen, s =>
    match skipSpace s with
    | '"' :: rest => do
      let (name, rest) ← text? bound [] rest
      match skipSpace rest with
      | ':' :: rest => do
        let (v, rest) ← value? bound depth rest
        match skipSpace rest with
        | ',' :: rest => fields? bound depth ((name, v) :: seen) rest
        | '\x7d' :: rest => pure (.record ((name, v) :: seen).reverse, rest)
        | _ => none
      | _ => none
    | _ => none

end

/-- How deep lists and records may nest, and one more. -/
def nesting : Nat := 128

/-- Read a document. Every step of the reader takes a character or is followed by one that does. -/
def parse? (text : String) : Option Node := do
  let s := text.toList
  let (n, rest) ← value? (2 * s.length + 2) nesting s
  if (skipSpace rest).isEmpty then pure n else none

end Wiring.Document.Json
