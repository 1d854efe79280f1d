/-!
# Positions in a YAML text

The text still to be read, with the place where it starts, and the classes of characters that the
syntax speaks of.
-/

namespace Wiring.Document.Yaml

/-- A line break: a line feed, a carriage return, or one of the Unicode line ends. -/
def isBreak (c : Char) : Bool :=
  c == '\n' || c == '\r' || c == '\u0085' || c == '\u2028' || c == '\u2029'

/-- A blank within a line. -/
def isBlank (c : Char) : Bool := c == ' ' || c == '\t'

/-- A letter, a digit, a hyphen or an underscore. -/
def isWord (c : Char) : Bool := c.isAlphanum || c == '-' || c == '_'

/-- A character that a document may contain. -/
def isAllowed (c : Char) : Bool :=
  let n := c.toNat
  n == 0x9 || n == 0xA || n == 0xD || (0x20 ≤ n && n ≤ 0x7E) || n == 0x85 ||
    (0xA0 ≤ n && n ≤ 0xFFFD && n != 0xFEFF) || 0x10000 ≤ n

/-- The rest of a text, and the place of its first character. -/
structure Cursor where
  rest : List Char
  line : Nat := 0
  column : Nat := 0
  index : Nat := 0
deriving Repr, Inhabited

namespace Cursor

/-- The next character. -/
def peek? (c : Cursor) : Option Char := c.rest.head?

/-- The character `n` places further on. -/
def peekAt? (c : Cursor) (n : Nat) : Option Char := c.rest[n]?

/-- Is this the next character? -/
def isAt (c : Cursor) (x : Char) : Bool := c.peek? == some x

/-- Is the end reached? -/
def isEnd (c : Cursor) : Bool := c.rest.isEmpty

/-- Is there a line break, or the end, `n` places further on? -/
def isBreakOrEnd (c : Cursor) (n : Nat) : Bool := (c.peekAt? n).all isBreak

/-- Is there a blank, a line break, or the end, `n` places further on? -/
def isGap (c : Cursor) (n : Nat) : Bool := (c.peekAt? n).all fun x => isBlank x || isBreak x

/-- Pass one character that is no line break. -/
def next (c : Cursor) : Cursor :=
  match c.rest with
  | [] => c
  | _ :: rest => { rest, line := c.line, column := c.column + 1, index := c.index + 1 }

/-- Pass `n` characters that are no line breaks. -/
def advance (c : Cursor) (n : Nat) : Cursor :=
  { rest := c.rest.drop n, line := c.line, column := c.column + n, index := c.index + n }

/-- Pass a line break, if there is one. -/
def nextLine (c : Cursor) : Cursor :=
  match c.rest with
  | '\r' :: '\n' :: rest => { rest, line := c.line + 1, column := 0, index := c.index + 2 }
  | x :: rest =>
    if isBreak x then { rest, line := c.line + 1, column := 0, index := c.index + 1 } else c
  | [] => c

/-- What a line break is read as. -/
def breakText (c : Cursor) : List Char :=
  match c.peek? with
  | some x => if x == '\u2028' || x == '\u2029' then [x] else if isBreak x then ['\n'] else []
  | none => []

/-- The characters in front that satisfy `p`, none of which is a line break. -/
def span (c : Cursor) (p : Char → Bool) : List Char × Cursor :=
  let taken := c.rest.takeWhile p
  (taken, c.advance taken.length)

/-- Does a line start here with a marker of a document's start or end? -/
def isAtMarker (c : Cursor) (mark : Char) : Bool :=
  c.column == 0 && c.rest.take 3 == [mark, mark, mark] && c.isGap 3

/-- Does a line start here with either marker? -/
def isAtAnyMarker (c : Cursor) : Bool := c.isAtMarker '-' || c.isAtMarker '.'

end Cursor

end Wiring.Document.Yaml
