/-!
# The shortest decimal of a binary number

A finite double stands for every real that rounds to it. Of the decimals in that interval the one
with the fewest digits is chosen, and of those the nearest. Everything is computed in exact
arithmetic on natural numbers.
-/

namespace Wiring.Decimal

/-- The number `significand * 10 ^ exponent`. -/
structure Scientific where
  significand : Nat
  exponent : Int
deriving DecidableEq, Repr, Inhabited

/-- The number `mantissa * 2 ^ exponent`. -/
structure Binary where
  mantissa : Nat
  exponent : Int
deriving DecidableEq, Repr, Inhabited

namespace Binary

/-- A fraction equal to `mantissa * 2 ^ exponent / 10 ^ power`. -/
def fractionOf (b : Binary) (power : Int) : Nat × Nat :=
  (b.mantissa * Nat.pow 2 b.exponent.toNat * Nat.pow 10 (-power).toNat,
    Nat.pow 10 power.toNat * Nat.pow 2 (-b.exponent).toNat)

/-- Is the number at least `n * 10 ^ power`? -/
def atLeast (b : Binary) (n : Nat) (power : Int) : Bool :=
  let (num, den) := b.fractionOf power
  n * den ≤ num

/-- Is the number at most `n * 10 ^ power`? -/
def atMost (b : Binary) (n : Nat) (power : Int) : Bool :=
  let (num, den) := b.fractionOf power
  num ≤ n * den

/-- The integral part of the number divided by `10 ^ power`. -/
def floorAt (b : Binary) (power : Int) : Nat :=
  let (num, den) := b.fractionOf power
  num / den

/-- The power of ten of the leading digit. -/
def leadingPower (b : Binary) : Int :=
  let estimate := (b.exponent + b.mantissa.log2) * 30103 / 100000
  if b.atLeast 1 (estimate + 1) then estimate + 1
  else if b.atLeast 1 estimate then estimate
  else estimate - 1

end Binary

/-- The reals that round to one binary number: from `low` to `high`, the ends counting or not. -/
structure Interval where
  low : Binary
  high : Binary
  closed : Bool
deriving Repr

/-- The reals that round to a double of 53 bits and least exponent -1074. -/
def roundingInterval (b : Binary) : Interval :=
  let narrow := b.mantissa == Nat.pow 2 52 && b.exponent > -1074
  { low := ⟨if narrow then 4 * b.mantissa - 1 else 4 * b.mantissa - 2, b.exponent - 2⟩
    high := ⟨4 * b.mantissa + 2, b.exponent - 2⟩
    closed := b.mantissa % 2 == 0 }

/-- Does `n * 10 ^ power` lie in the interval? -/
def Interval.contains (i : Interval) (n : Nat) (power : Int) : Bool :=
  if i.closed then i.low.atMost n power && i.high.atLeast n power
  else !i.low.atLeast n power && !i.high.atMost n power

/-- The point of the grid of step `10 ^ power` that rounds to the number and is nearest to it. Only
the two neighbours of the number come into question. -/
def onGrid? (b : Binary) (power : Int) : Option Scientific :=
  let below := b.floorAt power
  let i := roundingInterval b
  match i.contains below power, i.contains (below + 1) power with
  | true, true =>
    if Binary.atMost ⟨2 * b.mantissa, b.exponent⟩ (2 * below + 1) power then some ⟨below, power⟩
    else some ⟨below + 1, power⟩
  | true, false => some ⟨below, power⟩
  | false, true => some ⟨below + 1, power⟩
  | false, false => none

/-- The first grid with a hit, from the given power of ten downwards. -/
def firstGrid (b : Binary) : Nat → Int → Scientific
  | 0, power => ⟨b.floorAt power, power⟩
  | grids + 1, power => (onGrid? b power).getD (firstGrid b grids (power - 1))

/-- Move the trailing zeros of the significand into the exponent; there are at most `bound`. -/
def dropZeros : Nat → Scientific → Scientific
  | 0, s => s
  | bound + 1, s =>
    if s.significand % 10 == 0 && s.significand != 0 then
      dropZeros bound ⟨s.significand / 10, s.exponent + 1⟩
    else s

/-- The shortest decimal of a positive double; seventeen digits always suffice. -/
def shortest (b : Binary) : Scientific := dropZeros 20 (firstGrid b 17 b.leadingPower)

/-- The parts of a finite double: its sign, and its absolute value. -/
def partsOf (x : Float) : Bool × Binary :=
  let bits := x.toBits.toNat
  let fraction := bits % Nat.pow 2 52
  let biased := bits / Nat.pow 2 52 % Nat.pow 2 11
  let magnitude : Binary :=
    if biased == 0 then ⟨fraction, -1074⟩ else ⟨Nat.pow 2 52 + fraction, Int.ofNat biased - 1075⟩
  (bits / Nat.pow 2 63 == 1, magnitude)

end Wiring.Decimal
