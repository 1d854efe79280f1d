import Wiring.Document.Toml

/-!
# What plain scalars mean

A plain scalar is null, a truth value, a whole number, a number with a fraction, or a text, as its
spelling says. Words such as `yes` and numbers with superfluous zeros are texts.
-/

namespace Wiring.Document.Yaml

/-- Spellings of the absent value. -/
def isNullWord (s : String) : Bool := ["null", "Null", "NULL", "~"].contains s

/-- Spellings of truth values. -/
def bool? (s : String) : Option Bool :=
  if ["true", "True", "TRUE"].contains s then some true
  else if ["false", "False", "FALSE"].contains s then some false
  else none

/-- Drop a sign in front. -/
def dropSign : List Char → List Char
  | '-' :: s => s
  | '+' :: s => s
  | s => s

/-- Only digits, of which the first is a zero that another follows. -/
def hasSuperfluousZero (s : List Char) : Bool :=
  match dropSign s with
  | '0' :: d :: rest => (d :: rest).all Char.isDigit
  | _ => false

/-- The value of digits in a base. -/
def digits? (base : Nat) (ds : List Char) : Option Nat :=
  if ds.isEmpty then none
  else
    ds.foldlM (fun n d => do
      let v ← Json.hexDigit? d
      if v < base then some (n * base + v) else none) 0

/-- The value of digits in the base that a mark in front tells. -/
def magnitude? : List Char → Option Nat
  | '0' :: 'x' :: ds => digits? 16 ds
  | '0' :: 'o' :: ds => digits? 8 ds
  | '0' :: 'b' :: ds => digits? 2 ds
  | ds => digits? 10 ds

/-- A whole number of up to 128 bits. -/
def int? (s : List Char) : Option Int :=
  if hasSuperfluousZero s then none
  else
    match s with
    | '-' :: ds =>
      (magnitude? ds).bind fun n => if n ≤ Nat.pow 2 127 then some (-(n : Int)) else none
    | '+' :: ds => (magnitude? ds).bind fun n => if n < Nat.pow 2 128 then some (n : Int) else none
    | ds => (magnitude? ds).bind fun n => if n < Nat.pow 2 128 then some (n : Int) else none

/-- A decimal number with a fraction or an exponent, each of which may be missing. -/
def decimal? (s : List Char) : Option Float := do
  let (negative, s) := Toml.cutSign s
  let (whole, rest) := s.span Char.isDigit
  let (fraction, rest) :=
    match rest with
    | '.' :: rest => rest.span Char.isDigit
    | rest => ([], rest)
  let exponent ← match rest with
    | [] => some 0
    | e :: rest =>
      if e == 'e' || e == 'E' then do
        let (down, ds) := Toml.cutSign rest
        let n ← digits? 10 ds
        pure (if down then -(n : Int) else n)
      else none
  if whole.isEmpty && fraction.isEmpty then none
  else
    let x := Toml.nearest (Json.ofDigits (whole ++ fraction)) (exponent - fraction.length)
    if x.isFinite then pure (if negative then -x else x) else none

/-- A number that is not whole, or one of the words for no number. -/
def float? (s : List Char) : Option Float :=
  let infinite : List (List Char) := [".inf".toList, ".Inf".toList, ".INF".toList]
  let unsigned? :=
    match s with
    | '+' :: '+' :: _ => none
    | '+' :: '-' :: _ => none
    | '+' :: s => some s
    | s => some s
  match unsigned? with
  | none => none
  | some u =>
    if infinite.contains u then some (1.0 / 0.0)
    else if s.head? == some '-' && infinite.contains (s.drop 1) then some (-(1.0 / 0.0))
    else if [".nan".toList, ".NaN".toList, ".NAN".toList].contains s then some (0.0 / 0.0)
    else decimal? u

/-- What a plain scalar means. -/
def meaning (s : String) : Scalar :=
  let chars := s.toList
  if s.isEmpty || isNullWord s then .null
  else
    match bool? s with
    | some b => .bool b
    | none =>
      match int? chars with
      | some i => .int i
      | none =>
        if hasSuperfluousZero chars then .text s
        else
          match float? chars with
          | some x => .float x
          | none => .text s

/-- The beginning of the core types. -/
def coreTag : String := "tag:yaml.org,2002:"

/-- A scalar with the type that its tag tells. One that does not fit its type means nothing. -/
def typed (tag : String) (isPlain : Bool) (s : String) : Node :=
  let chars := s.toList
  if tag == coreTag ++ "bool" then .loose s ((bool? s).map .bool)
  else if tag == coreTag ++ "int" then .loose s ((int? chars).map .int)
  else if tag == coreTag ++ "float" then .loose s ((float? chars).map .float)
  else if tag == coreTag ++ "null" then .loose s (if isNullWord s then some .null else none)
  else
    match tag.toList with
    | '!' :: name =>
      .tagged (String.ofList name) (if isPlain then .loose s (some (meaning s)) else Node.text s)
    | _ => Node.text s

end Wiring.Document.Yaml
