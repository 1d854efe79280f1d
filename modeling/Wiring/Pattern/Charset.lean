import Wiring.Pattern

/-!
# Classes of characters

The classes that patterns name: by a letter, by a word between colons, or by a property. By a letter
there are the decimal digits of all scripts, blanks, and word characters; the words between colons
stand for classes within ASCII. Properties are `any`, `ascii`, the general categories of letters
(all, capital, small), decimal digits, punctuation and symbols within ASCII, separators, white
space, and the scripts Latin, Greek, Cyrillic and Han, by their blocks; no other property can be
named.

Where case is ignored, a character stands for all that have the same lower-case form, and ranges and
classes are widened by the other case of ASCII letters.
-/

namespace Wiring.Pattern

/-- A class of characters. -/
abbrev Charset := Char → Bool

namespace Charset

/-- The characters that are not in a class. -/
def complement (p : Charset) : Charset := fun c => !p c

/-- A class and its complement, told apart by a sign. -/
def signed (negated : Bool) (p : Charset) : Charset := fun c => p c != negated

/-- One character, or also the other case of it. -/
def one (ignoreCase : Bool) (c : Char) : Charset :=
  if ignoreCase then fun x => Text.lowercase x == Text.lowercase c else fun x => x == c

/-- A class, or also the other cases of what is in it. -/
def upToCase (ignoreCase : Bool) (p : Charset) : Charset :=
  if ignoreCase then fun x => p x || p x.toLower || p x.toUpper else p

/-- The characters from one to another. -/
def range (a b : Char) : Charset := fun x => a ≤ x && x ≤ b

/-- Every character but line ends. -/
def dot (dotAll carriageReturns : Bool) : Charset := fun c =>
  dotAll || (c != '\n' && !(carriageReturns && c == '\r'))

/-- The digits zero of all scripts; behind each of them are the digits up to nine. -/
def zeros : List Nat := [
  0x30, 0x660, 0x6F0, 0x7C0, 0x966, 0x9E6, 0xA66, 0xAE6, 0xB66, 0xBE6, 0xC66, 0xCE6, 0xD66, 0xDE6,
  0xE50, 0xED0, 0xF20, 0x1040, 0x1090, 0x17E0, 0x1810, 0x1946, 0x19D0, 0x1A80, 0x1A90, 0x1B50,
  0x1BB0, 0x1C40, 0x1C50, 0xA620, 0xA8D0, 0xA900, 0xA9D0, 0xA9F0, 0xAA50, 0xABF0, 0xFF10, 0x104A0,
  0x10D30, 0x10D40, 0x11066, 0x110F0, 0x11136, 0x111D0, 0x112F0, 0x11450, 0x114D0, 0x11650,
  0x116C0, 0x116D0, 0x116DA, 0x11730, 0x118E0, 0x11950, 0x11BF0, 0x11C50, 0x11D50, 0x11DA0,
  0x11F50, 0x16A60, 0x16AC0, 0x16B50, 0x16D70, 0x1CCF0, 0x1D7CE, 0x1D7D8, 0x1D7E2, 0x1D7EC,
  0x1D7F6, 0x1E140, 0x1E2F0, 0x1E4F0, 0x1E5F1, 0x1E950, 0x1FBF0]

/-- Is this a decimal digit of some script? -/
def isDecimalDigit (c : Char) : Bool := zeros.any fun z => z ≤ c.toNat && c.toNat < z + 10

/-- A class by letter; an upper-case letter stands for the complement. -/
def ofLetter? (unicode : Bool) (letter : Char) : Option Charset :=
  let digit : Charset := if unicode then isDecimalDigit else Char.isDigit
  let space : Charset :=
    if unicode then Text.isBlank else fun c => c == ' ' || (9 ≤ c.toNat && c.toNat ≤ 13)
  let word : Charset := if unicode then isWordChar else fun c => c.isAlphanum || c == '_'
  match letter with
  | 'd' => some digit
  | 'D' => some (complement digit)
  | 's' => some space
  | 'S' => some (complement space)
  | 'w' => some word
  | 'W' => some (complement word)
  | _ => none

/-- Is this a hexadecimal digit? -/
def isHexDigit (c : Char) : Bool :=
  c.isDigit || ('a' ≤ c && c ≤ 'f') || ('A' ≤ c && c ≤ 'F')

/-- A class by the word that stands between colons. -/
def ofName? (name : String) : Option Charset :=
  match name with
  | "alnum" => some Char.isAlphanum
  | "alpha" => some Char.isAlpha
  | "ascii" => some fun c => c.toNat < 128
  | "blank" => some fun c => c == ' ' || c == '\t'
  | "cntrl" => some fun c => c.toNat < 32 || c.toNat == 127
  | "digit" => some Char.isDigit
  | "graph" => some fun c => 33 ≤ c.toNat && c.toNat ≤ 126
  | "lower" => some Char.isLower
  | "print" => some fun c => 32 ≤ c.toNat && c.toNat ≤ 126
  | "punct" => some fun c => 33 ≤ c.toNat && c.toNat ≤ 126 && !c.isAlphanum
  | "space" => some fun c => c == ' ' || (9 ≤ c.toNat && c.toNat ≤ 13)
  | "upper" => some Char.isUpper
  | "word" => some fun c => c.isAlphanum || c == '_'
  | "xdigit" => some isHexDigit
  | _ => none

/-- Letters of either case, or of none. -/
def isLetter (c : Char) : Bool := c.isAlpha || isForeignLetter c

/-- Letters that stand for small ones. -/
def isSmallLetter (c : Char) : Bool :=
  c.isLower || (isForeignLetter c && c.toNat < 0x590 && !Text.isUppercase c)

/-- Signs of ASCII that count as symbols and not as punctuation. -/
def isSymbol (c : Char) : Bool := "$+<=>^\x60|~".toList.contains c

/-- A property by its name, in small letters without blanks, hyphens and underscores. -/
def ofProperty? (name : String) : Option Charset :=
  let within (first last : Nat) : Charset := fun c => first ≤ c.toNat && c.toNat ≤ last
  match name with
  | "any" => some fun _ => true
  | "ascii" => some (within 0 0x7F)
  | "l" | "letter" | "alphabetic" | "alpha" => some isLetter
  | "lu" | "uppercaseletter" | "uppercase" | "upper" => some Text.isUppercase
  | "ll" | "lowercaseletter" | "lowercase" | "lower" => some isSmallLetter
  | "n" | "number" | "nd" | "decimalnumber" | "digit" => some isDecimalDigit
  | "p" | "punctuation" | "punct" => some fun c =>
    33 ≤ c.toNat && c.toNat ≤ 126 && !c.isAlphanum && !isSymbol c
  | "s" | "symbol" => some isSymbol
  | "z" | "separator" => some fun c => Text.isBlank c && !(c.toNat < 0x20 || c.toNat == 0x85)
  | "whitespace" | "space" => some Text.isBlank
  | "latin" => some fun c => isLetter c && (c.toNat < 0x250 || within 0x1E00 0x1EFF c)
  | "greek" => some fun c => within 0x370 0x3FF c || within 0x1F00 0x1FFF c
  | "cyrillic" => some (within 0x400 0x52F)
  | "han" => some fun c => within 0x4E00 0x9FFF c || within 0x3400 0x4DBF c
  | _ => none

/-- A property as it is written: its name, with the kind of property in front or not. -/
def ofPropertyText? (text : List Char) : Option Charset :=
  let plain (s : List Char) : String :=
    String.ofList ((s.filter fun c => !(c == ' ' || c == '-' || c == '_')).map Char.toLower)
  let (kind, rest) := text.span fun c => c != ':' && c != '=' && c != '!'
  match rest with
  | [] => ofProperty? (plain kind)
  | '!' :: '=' :: value => (valueOf? (plain kind) (plain value)).map complement
  | _ :: value => valueOf? (plain kind) (plain value)
where
  /-- A value of a kind of property. -/
  valueOf? (kind value : String) : Option Charset :=
    if ["generalcategory", "gc", "script", "sc", "scriptextensions", "scx"].contains kind then
      ofProperty? value
    else none

end Charset

end Wiring.Pattern
