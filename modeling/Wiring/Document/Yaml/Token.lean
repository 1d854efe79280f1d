import Wiring.Document.Yaml.Scalar
import Wiring.Text.Utf8

/-!
# The tokens of a YAML text

The text is cut into tokens, among them those that indentation stands for. A key is only known to be
one when the colon after it is met; the tokens that say so are then put in front of it.
-/

namespace Wiring.Document.Yaml

/-- How a scalar is written: without quotes, or otherwise. -/
inductive Style where
  | plain
  | other
deriving DecidableEq, Repr, Inhabited

/-- A token. -/
inductive Token where
  | version (major minor : Nat)
  | tagHandle (handle start : String)
  | documentStart
  | documentEnd
  | blockSequenceStart
  | blockMappingStart
  | blockEnd
  | flowSequenceStart
  | flowSequenceEnd
  | flowMappingStart
  | flowMappingEnd
  | blockEntry
  | flowEntry
  | key
  | value
  | alias (name : String)
  | anchor (name : String)
  | tag (handle suffix : String)
  | scalar (text : String) (style : Style)
deriving DecidableEq, Repr, Inhabited

/-- A place that may turn out to be a key: the number of the token there, whether a key must be
there, and where it is. -/
structure KeyPlace where
  token : Nat
  isRequired : Bool
  line : Nat
  column : Nat
  index : Nat
deriving Repr, Inhabited

/-- What has been scanned: the tokens, the columns of the block collections around, the possible key
of each flow level, innermost first, and whether a key may start here. -/
structure Scan where
  cursor : Cursor
  tokens : Array Token := #[]
  /-- Columns of open block collections, one more than each, innermost first. -/
  indents : List Nat := []
  /-- The possible key outside flow collections. -/
  blockKey? : Option KeyPlace := none
  /-- The possible keys of the open flow collections. -/
  flowKeys : List (Option KeyPlace) := []
  keyAllowed : Bool := true

namespace Scan

/-- Is a flow collection open? -/
def inFlow (s : Scan) : Bool := !s.flowKeys.isEmpty

/-- One more than the column of the innermost block collection; zero outside of any. -/
def indent (s : Scan) : Nat := s.indents.headD 0

/-- The possible key of this level. -/
def possibleKey? (s : Scan) : Option KeyPlace :=
  match s.flowKeys with
  | [] => s.blockKey?
  | k :: _ => k

/-- Set the possible key of this level. -/
def setKey (s : Scan) (k? : Option KeyPlace) : Scan :=
  match s.flowKeys with
  | [] => { s with blockKey? := k? }
  | _ :: rest => { s with flowKeys := k? :: rest }

/-- Add a token. -/
def push (s : Scan) (t : Token) : Scan := { s with tokens := s.tokens.push t }

/-- Give up the possible key of this level; it must not be required. -/
def dropKey? (s : Scan) : Option Scan :=
  if s.possibleKey?.any (·.isRequired) then none else some (s.setKey none)

/-- Remember that a key may start here. -/
def saveKey? (s : Scan) : Option Scan :=
  if s.keyAllowed then do
    let isRequired := !s.inFlow && s.indent == s.cursor.column + 1
    let s ← s.dropKey?
    let c := s.cursor
    pure (s.setKey (some ⟨s.tokens.size, isRequired, c.line, c.column, c.index⟩))
  else some s

/-- Give up the keys that are too far back: on another line, or more than 1024 characters. -/
def dropStaleKeys? (s : Scan) : Option Scan :=
  let check (k? : Option KeyPlace) : Option (Option KeyPlace) :=
    match k? with
    | none => some none
    | some k =>
      if k.line < s.cursor.line || k.index + 1024 < s.cursor.index then
        if k.isRequired then none else some none
      else some (some k)
  do
    let blockKey? ← check s.blockKey?
    let flowKeys ← s.flowKeys.mapM check
    pure { s with blockKey?, flowKeys }

/-- Open a block collection at a column, if none is open there, with its token at a place. -/
def rollIndent (s : Scan) (column : Nat) (token : Token) (place : Nat) : Scan :=
  if !s.inFlow && s.indent < column + 1 then
    { s with
      indents := (column + 1) :: s.indents
      tokens := s.tokens.insertIdxIfInBounds place token }
  else s

/-- Close the block collections that start further right than a column; `limit` is one more than the
column. -/
def unrollIndent (s : Scan) (limit : Nat) : Scan :=
  if s.inFlow then s
  else
    let closed := (s.indents.takeWhile (limit < ·)).length
    { s with
      indents := s.indents.drop closed
      tokens := s.tokens ++ Array.replicate closed Token.blockEnd }

/-- Pass blanks, comments and line breaks. Tabs count as blanks where no key may start. -/
def skipSpace (s : Scan) : Nat → Scan
  | 0 => s
  | bound + 1 =>
    let (_, c) := s.cursor.span fun x => x == ' ' || ((s.inFlow || !s.keyAllowed) && x == '\t')
    let c := if c.isAt '#' then (c.span fun x => !isBreak x).2 else c
    let s := { s with cursor := c }
    if c.peek?.any isBreak then
      skipSpace { s with cursor := c.nextLine, keyAllowed := s.keyAllowed || !s.inFlow } bound
    else s

/-! ## Directives, anchors and tags -/

/-- Characters of a tag besides letters, digits, hyphens and underscores. -/
def isTagChar (isFull : Bool) (x : Char) : Bool :=
  isWord x || ";/?:@&=+$.!~*'()".toList.contains x || (isFull && ",[]".toList.contains x)

/-- Read the characters of a tag. A percent sign stands for the bytes of a character. -/
def tagText (isFull : Bool) : Nat → List Char → Cursor → Option (List Char × Cursor)
  | 0, _, _ => none
  | bound + 1, seen, c =>
    match c.peek? with
    | some '%' => do
      let (bytes, c) := percentBytes (c.rest.length + 1) [] c
      let text ← match Text.decodeUtf8 bytes with
        | .ok text => some text
        | .error _ => none
      if bytes.isEmpty then none
      else tagText isFull bound (text.toList.reverse ++ seen) c
    | some x => if isTagChar isFull x then tagText isFull bound (x :: seen) c.next
      else some (seen.reverse, c)
    | none => some (seen.reverse, c)
where
  /-- The bytes that a row of percent signs stands for. -/
  percentBytes : Nat → List UInt8 → Cursor → List UInt8 × Cursor
    | 0, bytes, c => (bytes, c)
    | bound + 1, bytes, c =>
      match c.rest with
      | '%' :: a :: b :: _ =>
        match Json.hexDigit? a, Json.hexDigit? b with
        | some x, some y => percentBytes bound (bytes ++ [(x * 16 + y).toUInt8]) (c.advance 3)
        | _, _ => (bytes, c)
      | _ => (bytes, c)

/-- Read the handle of a tag: an exclamation mark, and perhaps a word and another one. -/
def tagHandle? (c : Cursor) : Option (List Char × Cursor) :=
  if c.isAt '!' then
    let (word, c) := c.next.span isWord
    if c.isAt '!' then some ('!' :: word ++ ['!'], c.next) else some ('!' :: word, c)
  else none

/-- Read a tag. -/
def tag? (inFlow : Bool) (c : Cursor) : Option (Token × Cursor) := do
  let (token, c) ←
    if c.peekAt? 1 == some '<' then do
      let c := c.advance 2
      let (text, c) ← tagText true (c.rest.length + 1) [] c
      if text.isEmpty || !c.isAt '>' then none
      else pure (Token.tag "" (String.ofList text), c.next)
    else do
      let (handle, c) ← tagHandle? c
      if handle.length > 1 && handle.getLast? == some '!' then
        let (text, c) ← tagText false (c.rest.length + 1) [] c
        if text.isEmpty then none
        else pure (Token.tag (String.ofList handle) (String.ofList text), c)
      else
        let (more, c) ← tagText false (c.rest.length + 1) [] c
        let text := handle.drop 1 ++ more
        if text.isEmpty then pure (Token.tag "" "!", c)
        else pure (Token.tag "!" (String.ofList text), c)
  if c.isGap 0 || (inFlow && c.isAt ',') then pure (token, c) else none

/-- Read the name of an anchor or an alias. -/
def anchorName? (c : Cursor) : Option (String × Cursor) :=
  let (name, c) := c.span isWord
  if name.isEmpty then none
  else if c.isGap 0 || c.peek?.any (fun x => "?:,]\x7d%@\x60".toList.contains x) then
    some (String.ofList name, c)
  else none

/-- Read a number of at most nine digits. -/
def versionNumber? (c : Cursor) : Option (Nat × Cursor) :=
  let (ds, c) := c.span Char.isDigit
  if ds.isEmpty || ds.length > 9 then none else some (Json.ofDigits ds, c)

/-- Read a directive after its percent sign, and the rest of its line. -/
def directive? (c : Cursor) : Option (Token × Cursor) := do
  let (name, c) := c.span isWord
  if name.isEmpty || !c.isGap 0 then none
  else
    let (_, c) := c.span isBlank
    let (token, c) ←
      if name == "YAML".toList then do
        let (major, c) ← versionNumber? c
        if !c.isAt '.' then none
        else
          let (minor, c) ← versionNumber? c.next
          pure (Token.version major minor, c)
      else if name == "TAG".toList then do
        let (handle, c) ← tagHandle? c
        if (handle != ['!'] && handle.getLast? != some '!') || !c.peek?.any isBlank then none
        else
          let (_, c) := c.span isBlank
          let (start, c) ← tagText true (c.rest.length + 1) [] c
          if start.isEmpty || !c.isGap 0 then none
          else pure (Token.tagHandle (String.ofList handle) (String.ofList start), c)
      else none
    let (_, c) := c.span isBlank
    let c := if c.isAt '#' then (c.span fun x => !isBreak x).2 else c
    if c.isBreakOrEnd 0 then pure (token, c.nextLine) else none

/-! ## Tokens -/

/-- A token of one character that opens a flow collection. -/
def openFlow? (s : Scan) (t : Token) : Option Scan := do
  let s ← s.saveKey?
  pure { s.push t with
    cursor := s.cursor.next, keyAllowed := true, flowKeys := none :: s.flowKeys }

/-- A token of one character that closes a flow collection. -/
def closeFlow? (s : Scan) (t : Token) : Option Scan := do
  let s ← s.dropKey?
  pure { s.push t with
    cursor := s.cursor.next, keyAllowed := false, flowKeys := s.flowKeys.drop 1 }

/-- A comma between the parts of a flow collection. -/
def flowEntry? (s : Scan) : Option Scan := do
  let s ← s.dropKey?
  pure { s.push .flowEntry with cursor := s.cursor.next, keyAllowed := true }

/-- A hyphen before an item of a block sequence. -/
def blockEntry? (s : Scan) : Option Scan := do
  if !s.inFlow && !s.keyAllowed then none
  else
    let s := s.rollIndent s.cursor.column .blockSequenceStart s.tokens.size
    let s ← s.dropKey?
    pure { s.push .blockEntry with cursor := s.cursor.next, keyAllowed := true }

/-- A question mark before a key. -/
def explicitKey? (s : Scan) : Option Scan := do
  if !s.inFlow && !s.keyAllowed then none
  else
    let s := s.rollIndent s.cursor.column .blockMappingStart s.tokens.size
    let s ← s.dropKey?
    pure { s.push .key with cursor := s.cursor.next, keyAllowed := !s.inFlow }

/-- A colon before a value, after a key or on its own. -/
def value? (s : Scan) : Option Scan :=
  match s.possibleKey? with
  | some k =>
    let s := { s with tokens := s.tokens.insertIdxIfInBounds k.token .key }
    let s := (s.rollIndent k.column .blockMappingStart k.token).setKey none
    some { s.push .value with cursor := s.cursor.next, keyAllowed := false }
  | none =>
    if !s.inFlow && !s.keyAllowed then none
    else
      let s := s.rollIndent s.cursor.column .blockMappingStart s.tokens.size
      some { s.push .value with cursor := s.cursor.next, keyAllowed := !s.inFlow }

/-- A token that starts where a key may start. -/
def keyed? (s : Scan) (read : Cursor → Option (Token × Cursor)) : Option Scan := do
  let s ← s.saveKey?
  let (t, cursor) ← read s.cursor
  pure { s.push t with cursor, keyAllowed := false }

/-- A block scalar. -/
def blockScalar? (s : Scan) (literal : Bool) : Option Scan := do
  let s ← s.dropKey?
  let (text, cursor) ← block literal s.indent s.cursor.next
  pure { s.push (.scalar (String.ofList text) .other) with cursor, keyAllowed := true }

/-- A plain scalar. After a line break another key may start. -/
def plainScalar? (s : Scan) : Option Scan := do
  let s ← s.saveKey?
  let (text, broken, cursor) ←
    plain s.inFlow s.indent (s.cursor.rest.length + 1) {} [] s.cursor
  pure { s.push (.scalar (String.ofList text) .plain) with cursor, keyAllowed := broken }

/-- A token of a line of its own, which closes all block collections. -/
def lineToken? (s : Scan) (read : Cursor → Option (Token × Cursor)) : Option Scan := do
  let s ← (s.unrollIndent 0).dropKey?
  let (t, cursor) ← read s.cursor
  pure { s.push t with cursor, keyAllowed := false }

/-- May a plain scalar start here? -/
def startsPlain (s : Scan) (x : Char) : Bool :=
  !(isBlank x || isBreak x || "-?:,[]\x7b\x7d#&*!|>'\"%@\x60".toList.contains x) ||
    (x == '-' && !(s.cursor.peekAt? 1).any isBlank) ||
    (!s.inFlow && (x == '?' || x == ':') && !s.cursor.isGap 1)

/-- Read the next token, which starts with this character. -/
def token? (s : Scan) (x : Char) : Option Scan :=
  let c := s.cursor
  if c.column == 0 && x == '%' then s.lineToken? fun c => directive? c.next
  else if c.isAtMarker '-' then s.lineToken? fun c => some (.documentStart, c.advance 3)
  else if c.isAtMarker '.' then s.lineToken? fun c => some (.documentEnd, c.advance 3)
  else if x == '[' then s.openFlow? .flowSequenceStart
  else if x == '\x7b' then s.openFlow? .flowMappingStart
  else if x == ']' then s.closeFlow? .flowSequenceEnd
  else if x == '\x7d' then s.closeFlow? .flowMappingEnd
  else if x == ',' then s.flowEntry?
  else if x == '-' && c.isGap 1 then s.blockEntry?
  else if x == '?' && (s.inFlow || c.isGap 1) then s.explicitKey?
  else if x == ':' && (s.inFlow || c.isGap 1) then s.value?
  else if x == '*' then s.keyed? fun c => (anchorName? c.next).map fun (n, c) => (.alias n, c)
  else if x == '&' then s.keyed? fun c => (anchorName? c.next).map fun (n, c) => (.anchor n, c)
  else if x == '!' then s.keyed? (tag? s.inFlow)
  else if x == '|' && !s.inFlow then s.blockScalar? true
  else if x == '>' && !s.inFlow then s.blockScalar? false
  else if x == '\'' || x == '"' then
    s.keyed? fun c => (quoted x (c.rest.length + 1) [] c.next).map fun (t, c) =>
      (.scalar (String.ofList t) .other, c)
  else if s.startsPlain x then s.plainScalar?
  else none

/-- Read all tokens. -/
def run : Nat → Scan → Option Scan
  | 0, _ => none
  | bound + 1, s => do
    let s := s.skipSpace (s.cursor.rest.length + 1)
    let s ← s.dropStaleKeys?
    let s := s.unrollIndent (s.cursor.column + 1)
    match s.cursor.peek? with
    | none => (s.unrollIndent 0).dropKey?
    | some x => do
      let s ← s.token? x
      run bound s

end Scan

/-- The tokens of a text. -/
def tokens? (text : List Char) : Option (List Token) :=
  let text := if text.head? == some '\ufeff' then text.drop 1 else text
  if text.all isAllowed then
    (Scan.run (2 * text.length + 2) { cursor := { rest := text } }).map (·.tokens.toList)
  else none

end Wiring.Document.Yaml
