import Wiring.Decimal.Notation
import Wiring.Document.Node

/-!
# Written JSON

A document written as JSON, on one line or with one item or field a line.
-/

namespace Wiring.Document.Json

/-- A hexadecimal digit. -/
def hexChar (n : Nat) : Char :=
  if n < 10 then Char.ofNat ('0'.toNat + n) else Char.ofNat ('a'.toNat + n - 10)

/-- A character inside quotes. -/
def escapeChar (c : Char) : List Char :=
  match c with
  | '"' => ['\\', '"']
  | '\\' => ['\\', '\\']
  | '\n' => ['\\', 'n']
  | '\r' => ['\\', 'r']
  | '\t' => ['\\', 't']
  | '\x08' => ['\\', 'b']
  | '\x0c' => ['\\', 'f']
  | c =>
    if c.toNat < 0x20 then ['\\', 'u', '0', '0', hexChar (c.toNat / 16), hexChar (c.toNat % 16)]
    else [c]

/-- A text in quotes. -/
def quote (s : String) : String :=
  String.ofList ('"' :: s.toList.flatMap escapeChar ++ ['"'])

/-- The text of a scalar. -/
def scalarText : Scalar → String
  | .null => "null"
  | .bool b => if b then "true" else "false"
  | .int i => toString i
  | .float x => if x.isFinite then Decimal.renderFloat x else "null"
  | .text s => quote s

/-- Texts between brackets, on one line or one a line; `indent` is that of the closing bracket. -/
def enclose (indent? : Option Nat) (opening closing : String) (parts : List String) : String :=
  if parts.isEmpty then opening ++ closing
  else
    match indent? with
    | none => opening ++ ",".intercalate parts ++ closing
    | some indent =>
      let margin (n : Nat) : String := "\n" ++ String.ofList (List.replicate n ' ')
      opening ++ margin (indent + 2) ++ ("," ++ margin (indent + 2)).intercalate parts ++
        margin indent ++ closing

mutual

/-- The text of a document; `indent?` is the current indentation where lines are broken. -/
def renderAt (indent? : Option Nat) : Node → String
  | .scalar s => scalarText s
  | .loose text meaning? => (meaning?.map scalarText).getD (quote text)
  | .list items => enclose indent? "[" "]" (renderItems (indent?.map (· + 2)) items)
  | .record fields =>
    enclose indent? "\x7b" "\x7d" (renderFields (indent?.map (· + 2)) fields)
  | .tagged _ content => renderAt indent? content

/-- The texts of items. -/
def renderItems (indent? : Option Nat) : List Node → List String
  | [] => []
  | n :: rest => renderAt indent? n :: renderItems indent? rest

/-- The texts of fields. -/
def renderFields (indent? : Option Nat) : List (String × Node) → List String
  | [] => []
  | (name, n) :: rest =>
    (quote name ++ (if indent?.isSome then ": " else ":") ++ renderAt indent? n) ::
      renderFields indent? rest

end

/-- A document on one line. -/
def render (n : Node) : String := renderAt none n

/-- A document with one item or field a line, indented by two blanks a level. -/
def renderPretty (n : Node) : String := renderAt (some 0) n

end Wiring.Document.Json
