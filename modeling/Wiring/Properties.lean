import Wiring.Table
import Wiring.Text.Blank

/-!
# Properties text

One property a line: a key, then `=`, `:` or a blank, then the value. A backslash takes the meaning
from the next character, and at the end of a line continues it on the next one. Lines that start
with `#` or `!` are comments.
-/

namespace Wiring.Properties

/-- The lines of a text. A carriage return before a line feed belongs to the line's end; nothing
after the last line feed is no line. -/
def linesOf (text : List Char) : List (List Char) :=
  go [] text
where
  /-- `line` holds the characters since the last line feed, in reverse. -/
  go (line : List Char) : List Char → List (List Char)
    | [] => if line.isEmpty then [] else [line.reverse]
    | '\n' :: s =>
      (match line with
        | '\r' :: line => line.reverse
        | line => line.reverse) :: go [] s
    | c :: s => go (c :: line) s

/-- Does a line end in an odd number of backslashes, so that the last of them is not itself
escaped? -/
def isContinued (line : List Char) : Bool :=
  (line.reverse.takeWhile (· == '\\')).length % 2 == 1

/-- A comment, or a line with nothing on it. -/
def isIgnored : List Char → Bool
  | [] => true
  | c :: _ => c == '#' || c == '!'

/-- Join continued lines; comments between properties are left out. `begun` holds the lines that
the next one continues. -/
def logicalLines (begun : List Char) : List (List Char) → List (List Char)
  | [] => if begun.isEmpty then [] else [begun]
  | line :: rest =>
    let line := Text.trimStart line
    if begun.isEmpty && isIgnored line then logicalLines begun rest
    else if isContinued line then logicalLines (begun ++ line.dropLast) rest
    else (begun ++ line) :: logicalLines [] rest

/-- Characters that end a key. -/
def endsKey (c : Char) : Bool := c == '=' || c == ':' || Text.isBlank c

/-- Cut a line at the first character that ends the key and has no backslash in front. -/
def cutKey : List Char → List Char × Option (Char × List Char)
  | [] => ([], none)
  | ['\\'] => (['\\'], none)
  | '\\' :: c :: s =>
    let (key, rest) := cutKey s
    ('\\' :: c :: key, rest)
  | c :: s =>
    if endsKey c then ([], some (c, s))
    else
      let (key, rest) := cutKey s
      (c :: key, rest)

/-- Drop one `=` or `:` in front. -/
def dropSeparator : List Char → List Char
  | '=' :: s => s
  | ':' :: s => s
  | s => s

/-- The key and the value of a line, both still with their backslashes. -/
def splitLine (line : List Char) : List Char × List Char :=
  match cutKey line with
  | (key, none) => (key, [])
  | (key, some (c, rest)) =>
    if c == '=' || c == ':' then (Text.trimEnd key, Text.trimStart rest)
    else (key, Text.trimStart (dropSeparator (Text.trimStart rest)))

/-- Resolve backslashes: `\n`, `\t` and `\r` are control characters, any other character stands for
itself, and a backslash at the end is dropped. -/
def unescape : List Char → List Char
  | [] => []
  | ['\\'] => []
  | '\\' :: c :: s =>
    (match c with
      | 'n' => '\n'
      | 't' => '\t'
      | 'r' => '\r'
      | c => c) :: unescape s
  | c :: s => c :: unescape s

/-- The properties of a text; of several values for one key the last one counts. -/
def parse (text : String) : Table String :=
  Table.ofList <| (logicalLines [] (linesOf text.toList)).map fun line =>
    let (key, value) := splitLine line
    (String.ofList (unescape key), String.ofList (unescape value))

/-- Write a character so that reading it gives the character back. -/
def escapeChar (c : Char) : List Char :=
  match c with
  | '\\' => ['\\', '\\']
  | '\n' => ['\\', 'n']
  | '\r' => ['\\', 'r']
  | '\t' => ['\\', 't']
  | c => if endsKey c || c == '#' || c == '!' then ['\\', c] else [c]

/-- Write a text so that reading it gives the text back. -/
def escape (s : List Char) : List Char := s.flatMap escapeChar

/-- The line that a property is written on. -/
def writeLine (e : String × String) : List Char :=
  escape e.1.toList ++ '=' :: escape e.2.toList

/-- Write properties one a line. -/
def write (entries : List (String × String)) : String :=
  String.ofList (entries.flatMap fun e => writeLine e ++ ['\n'])

/-- Write the properties of a table in the order of their keys. -/
def render (t : Table String) : String := write t.toList

end Wiring.Properties
