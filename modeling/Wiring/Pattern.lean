import Wiring.Text.Blank
import Wiring.Text.LetterCase

/-!
# Patterns

Regular expressions over class names. A pattern matches a name if it matches some part of it. What a
pattern does to a name is described by sets of positions: those at which a match that starts at a
given set of positions may end. Beyond ASCII, letters are told from signs by the block of characters
that they are in, so combining marks and the digits of other scripts count as letters.
-/

namespace Wiring

/-- Places between characters that a pattern may ask for. -/
inductive Boundary where
  | textStart
  | textEnd
  | lineStart
  | lineEnd
  | word
  | notWord
  | wordStart
  | wordEnd
  | notAfterWord
  | notBeforeWord
deriving DecidableEq, Repr

/-- A regular expression. -/
inductive Pattern where
  | empty
  | char (accepts : Char → Bool)
  | boundary (b : Boundary)
  | seq (first second : Pattern)
  | alt (first second : Pattern)
  /-- At least `low` times, and not more than `high?` times where that is given. -/
  | times (low : Nat) (high? : Option Nat) (body : Pattern)

namespace Pattern

/-! ## Words -/

/-- Letters beyond ASCII: everything from the Latin supplement on but signs and symbols. -/
def isForeignLetter (c : Char) : Bool :=
  let n := c.toNat
  n == 0xAA || n == 0xB5 || n == 0xBA ||
    (0xC0 ≤ n && n != 0xD7 && n != 0xF7 && !(0x2000 ≤ n && n ≤ 0x203E) &&
      !(0x2041 ≤ n && n ≤ 0x2053) && !(0x2055 ≤ n && n ≤ 0x2070) && !(0x20A0 ≤ n && n ≤ 0x20CF) &&
      !(0x2190 ≤ n && n ≤ 0x245F) && !(0x2500 ≤ n && n ≤ 0x2BFF) &&
      !(0x3000 ≤ n && n ≤ 0x3004) && !(0x3008 ≤ n && n ≤ 0x3020) &&
      !(0xE000 ≤ n && n ≤ 0xF8FF) && !(0xFF01 ≤ n && n ≤ 0xFF0F) && !(0x1F000 ≤ n && n ≤ 0x1FAFF))

/-- Letters, digits and the underscore. -/
def isWordChar (c : Char) : Bool := c.isAlphanum || c == '_' || isForeignLetter c

/-- Is the character at a position a word character, if there is one? -/
def isWordAt (s : List Char) (i : Nat) : Bool := s[i]?.any isWordChar

/-- Is the character before a position a word character, if there is one? -/
def isWordBefore (s : List Char) (i : Nat) : Bool := i != 0 && isWordAt s (i - 1)

/-! ## Matching -/

/-- Does the boundary lie at a position of a text? -/
def liesAt (s : List Char) (i : Nat) : Boundary → Bool
  | .textStart => i == 0
  | .textEnd => i == s.length
  | .lineStart => i == 0 || s[i - 1]? == some '\n'
  | .lineEnd => i == s.length || s[i]? == some '\n'
  | .word => isWordBefore s i != isWordAt s i
  | .notWord => isWordBefore s i == isWordAt s i
  | .wordStart => !isWordBefore s i && isWordAt s i
  | .wordEnd => isWordBefore s i && !isWordAt s i
  | .notAfterWord => !isWordBefore s i
  | .notBeforeWord => !isWordAt s i

/-- Join two lists of positions, each of them once. -/
def join (xs ys : List Nat) : List Nat := xs ++ ys.filter (!xs.contains ·)

/-- Take a step on positions so many times. A step that changes nothing ends it. -/
def iterate (step : List Nat → List Nat) : Nat → List Nat → List Nat
  | 0, is => is
  | n + 1, is =>
    let next := step is
    if next == is then is else iterate step n next

/-- The positions that are reached in at most so many steps. A step that finds nothing new ends the
search. -/
def closure (step : List Nat → List Nat) : Nat → List Nat → List Nat
  | 0, is => is
  | n + 1, is =>
    let next := join is (step is)
    if next.length = is.length then is else closure step n next

/-- The positions at which matches end that start at the given positions. Without an upper bound, as
many repetitions count as the text has positions: each of them finds a new one. -/
def ends (s : List Char) : Pattern → List Nat → List Nat
  | empty, is => is
  | char accepts, is => is.filterMap fun i => if s[i]?.any accepts then some (i + 1) else none
  | boundary b, is => is.filter fun i => liesAt s i b
  | seq p q, is => ends s q (ends s p is)
  | alt p q, is => join (ends s p is) (ends s q is)
  | times low high? p, is =>
    let more :=
      match high? with
      | some high => high - low
      | none => s.length + 1
    closure (ends s p) more (iterate (ends s p) low is)

/-- Does the pattern match some part of the text? -/
def isIn (p : Pattern) (text : String) : Bool :=
  let s := text.toList
  !(ends s p (List.range (s.length + 1))).isEmpty

/-- How many characters a pattern asks for when its repetitions are written out. -/
def weight : Pattern → Nat
  | empty => 0
  | char _ => 1
  | boundary _ => 1
  | seq p q => weight p + weight q
  | alt p q => weight p + weight q
  | times low high? p => max 1 (high?.getD (low + 1)) * (weight p + 1)

end Pattern

end Wiring
