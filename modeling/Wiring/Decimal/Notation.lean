import Wiring.Decimal.Shortest

/-!
# Written numbers

How a double is spelled: with a point between -5 and 15, as the power of ten of the leading digit
goes, and with an exponent beyond.
-/

namespace Wiring.Decimal

/-- The powers of ten of the leading digit for which a number is written without an exponent. -/
structure Notation where
  least : Int
  greatest : Int
deriving DecidableEq, Repr

/-- The notation of numbers in property values. -/
def propertyNotation : Notation := ⟨-5, 15⟩

/-- Decimal digits of a number. -/
def digits (n : Nat) : List Char := (toString n).toList

/-- The digits with a point after the first `whole` of them, and zeros where digits are missing. -/
def positional (ds : List Char) (whole : Int) : List Char :=
  if whole ≤ 0 then '0' :: '.' :: List.replicate (-whole).toNat '0' ++ ds
  else
    let n := whole.toNat
    if ds.length ≤ n then ds ++ List.replicate (n - ds.length) '0' ++ ['.', '0']
    else ds.take n ++ '.' :: ds.drop n

/-- The first digit, a point where more follow, and a signed exponent. -/
def withExponent (ds : List Char) (power : Int) : List Char :=
  let mantissa :=
    match ds with
    | [] => []
    | [d] => [d]
    | d :: rest => d :: '.' :: rest
  mantissa ++ 'e' :: (if power < 0 then '-' else '+') :: digits power.natAbs

/-- Spell a positive decimal. -/
def Notation.render (format : Notation) (s : Scientific) : List Char :=
  let ds := digits s.significand
  let power := s.exponent + (ds.length : Int) - 1
  if format.least ≤ power && power ≤ format.greatest then positional ds (power + 1)
  else withExponent ds power

/-- Spell a finite double with the fewest digits that read back as it. -/
def renderFloat (x : Float) : String :=
  let (negative, b) := partsOf x
  let text :=
    if b.mantissa == 0 then ['0', '.', '0'] else propertyNotation.render (shortest b)
  String.ofList (if negative then '-' :: text else text)

end Wiring.Decimal
