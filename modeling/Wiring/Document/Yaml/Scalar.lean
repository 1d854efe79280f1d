import Wiring.Document.Json
import Wiring.Document.Yaml.Cursor

/-!
# Scalars in a YAML text

The text of plain, quoted and block scalars. Line breaks inside a scalar are folded: one becomes a
blank, and of several all but the first stay.
-/

namespace Wiring.Document.Yaml

/-- The blanks between two parts of a scalar: those within a line, or the line breaks. -/
structure Gap where
  blanks : List Char := []
  /-- The first line break, if there is one; an escaped one leaves nothing. -/
  first? : Option (List Char) := none
  /-- All further line breaks. -/
  further : List Char := []
deriving Repr, Inhabited

namespace Gap

/-- The text that the blanks between two parts stand for. -/
def fold (g : Gap) : List Char :=
  match g.first? with
  | none => g.blanks
  | some first =>
    if first == ['\n'] then if g.further.isEmpty then [' '] else g.further
    else first ++ g.further

end Gap

/-- Pass blanks and line breaks. `indent?` is the least column of a plain scalar's lines, before
which no tab may stand. -/
def skipGap (indent? : Option Nat) : Nat → Gap → Cursor → Option (Gap × Cursor)
  | 0, _, _ => none
  | bound + 1, g, c =>
    match c.peek? with
    | none => some (g, c)
    | some x =>
      if isBlank x then
        if g.first?.isSome then
          if x == '\t' && indent?.any (c.column < ·) then none
          else skipGap indent? bound g c.next
        else skipGap indent? bound { g with blanks := g.blanks ++ [x] } c.next
      else if isBreak x then
        match g.first? with
        | none =>
          skipGap indent? bound { g with blanks := [], first? := some c.breakText } c.nextLine
        | some _ => skipGap indent? bound { g with further := g.further ++ c.breakText } c.nextLine
      else some (g, c)

/-! ## Plain scalars -/

/-- Characters that separate the parts of a flow collection. -/
def isFlowMark (x : Char) : Bool :=
  x == ',' || x == '[' || x == ']' || x == '\x7b' || x == '\x7d'

/-- The characters of a plain scalar up to the next gap. In a flow collection a colon may not stand
directly before a character with a meaning. -/
def plainPart (inFlow : Bool) : Nat → List Char → Cursor → Option (List Char × Cursor)
  | 0, _, _ => none
  | bound + 1, seen, c =>
    match c.peek? with
    | none => some (seen.reverse, c)
    | some x =>
      if isBlank x || isBreak x then some (seen.reverse, c)
      else if inFlow && x == ':' && (c.peekAt? 1).any (fun y => isFlowMark y || y == '?') then none
      else if (x == ':' && c.isGap 1) || (inFlow && isFlowMark x) then some (seen.reverse, c)
      else plainPart inFlow bound (x :: seen) c.next

/-- Read a plain scalar whose lines after the first start at `indent` or further right. The flag
says whether it ends after a line break. -/
def plain (inFlow : Bool) (indent : Nat) : Nat → Gap → List Char → Cursor →
    Option (List Char × Bool × Cursor)
  | 0, _, _, _ => none
  | bound + 1, g, seen, c =>
    if c.isAtAnyMarker || c.isAt '#' then some (seen, g.first?.isSome, c)
    else do
      let (part, c) ← plainPart inFlow (c.rest.length + 1) [] c
      let broken := part.isEmpty && g.first?.isSome
      let seen := if part.isEmpty then seen else seen ++ g.fold ++ part
      if c.isGap 0 && !c.isEnd then
        let g := if part.isEmpty then g else {}
        let (g, c) ← skipGap (some indent) (c.rest.length + 1) g c
        if !inFlow && c.column < indent then pure (seen, g.first?.isSome, c)
        else plain inFlow indent bound g seen c
      else pure (seen, broken, c)

/-! ## Quoted scalars -/

/-- The character of a short escape. -/
def shortEscape? : Char → Option Char
  | '0' => some '\x00'
  | 'a' => some '\x07'
  | 'b' => some '\x08'
  | 't' => some '\t'
  | '\t' => some '\t'
  | 'n' => some '\n'
  | 'v' => some '\x0b'
  | 'f' => some '\x0c'
  | 'r' => some '\r'
  | 'e' => some '\x1b'
  | ' ' => some ' '
  | '"' => some '"'
  | '/' => some '/'
  | '\\' => some '\\'
  | 'N' => some '\u0085'
  | '_' => some '\u00a0'
  | 'L' => some '\u2028'
  | 'P' => some '\u2029'
  | _ => none

/-- The number of digits of an escape by number. -/
def escapeWidth? : Char → Option Nat
  | 'x' => some 2
  | 'u' => some 4
  | 'U' => some 8
  | _ => none

/-- Read what follows a backslash. -/
def escape? (c : Cursor) : Option (Char × Cursor) := do
  let x ← c.peek?
  match escapeWidth? x with
  | none => (shortEscape? x).map (·, c.next)
  | some width =>
    let digits := c.next.rest.take width
    if digits.length ≠ width then none
    else
      let n ← digits.foldlM (fun v d => (Json.hexDigit? d).map fun y => v * 16 + y) 0
      if n < 0xD800 || (0xE000 ≤ n && n < 0x110000) then
        pure (Char.ofNat n, c.advance (width + 1))
      else none

/-- The characters of a quoted scalar up to the next gap or the closing quote. The flag says whether
a line break was escaped. -/
def quotedPart (quote : Char) : Nat → List Char → Cursor → Option (List Char × Bool × Cursor)
  | 0, _, _ => none
  | bound + 1, seen, c =>
    match c.peek? with
    | none => some (seen.reverse, false, c)
    | some x =>
      if isBlank x || isBreak x then some (seen.reverse, false, c)
      else if quote == '\'' && x == '\'' && c.peekAt? 1 == some '\'' then
        quotedPart quote bound ('\'' :: seen) (c.advance 2)
      else if x == quote then some (seen.reverse, false, c)
      else if quote == '"' && x == '\\' then
        if (c.peekAt? 1).any isBreak then some (seen.reverse, true, c.next.nextLine)
        else do
          let (e, c) ← escape? c.next
          quotedPart quote bound (e :: seen) c
      else quotedPart quote bound (x :: seen) c.next

/-- Read a quoted scalar after its opening quote. -/
def quoted (quote : Char) : Nat → List Char → Cursor → Option (List Char × Cursor)
  | 0, _, _ => none
  | bound + 1, seen, c =>
    if c.isAtAnyMarker || c.isEnd then none
    else do
      let (part, escaped, c) ← quotedPart quote (c.rest.length + 1) [] c
      let seen := seen ++ part
      if c.isAt quote && !escaped then pure (seen, c.next)
      else
        let g : Gap := if escaped then { first? := some [] } else {}
        let (g, c) ← skipGap none (c.rest.length + 1) g c
        quoted quote bound (seen ++ g.fold) c

/-! ## Block scalars -/

/-- What happens to the line breaks at the end of a block scalar. -/
inductive Chomping where
  | strip
  | clip
  | keep
deriving DecidableEq, Repr, Inhabited

/-- The chomping that a character asks for. -/
def chomping? : Char → Option Chomping
  | '+' => some .keep
  | '-' => some .strip
  | _ => none

/-- A digit other than zero; none stands for a zero, which is refused. -/
def increment? (c : Cursor) : Option (Option Nat × Cursor) :=
  match c.peek? with
  | some x =>
    if x == '0' then none
    else if x.isDigit then some (some (x.toNat - '0'.toNat), c.next)
    else some (none, c)
  | none => some (none, c)

/-- The chomping and the indentation that a block scalar asks for, in either order. -/
def blockHeader (c : Cursor) : Option (Chomping × Option Nat × Cursor) :=
  match c.peek?.bind chomping? with
  | some chomping => do
    let (increment, c) ← increment? c.next
    pure (chomping, increment, c)
  | none => do
    let (increment, c) ← increment? c
    match increment, c.peek?.bind chomping? with
    | some n, some chomping => pure (chomping, some n, c.next)
    | increment, _ => pure (.clip, increment, c)

/-- Pass blanks, a comment, and the end of the line. -/
def blockHeaderEnd (c : Cursor) : Option Cursor :=
  let (_, c) := c.span isBlank
  let c := if c.isAt '#' then (c.span fun x => !isBreak x).2 else c
  if c.isBreakOrEnd 0 then some c.nextLine else none

/-- Pass the indentation and the empty lines before the next line with text. Where the indentation
is not known yet, the widest one met is given. -/
def blockBreaks (indent? : Option Nat) : Nat → Nat → List Char → Cursor →
    Option (Nat × List Char × Cursor)
  | 0, _, _, _ => none
  | bound + 1, widest, breaks, c =>
    let room := (indent?.map (· - c.column)).getD c.rest.length
    let blanks := ((c.rest.take room).takeWhile (· == ' ')).length
    let c := c.advance blanks
    let widest := max widest c.column
    if c.isAt '\t' && indent?.all (c.column < ·) then none
    else if !c.isEnd && c.isBreakOrEnd 0 then
      blockBreaks indent? bound widest (breaks ++ c.breakText) c.nextLine
    else some (widest, breaks, c)

/-- What has been read of a block scalar: its text, the line break after it, and the empty lines
after that. -/
structure BlockText where
  text : List Char := []
  lineBreak : List Char := []
  emptyLines : List Char := []
  startsBlank : Bool := false

/-- Read the lines of a block scalar. -/
def blockLines (literal : Bool) (indent : Nat) : Nat → BlockText → Cursor →
    Option (BlockText × Cursor)
  | 0, _, _ => none
  | bound + 1, t, c =>
    if c.column != indent || c.isEnd then some (t, c)
    else do
      let startsBlank := c.peek?.any isBlank
      let joint :=
        if !literal && t.lineBreak.head? == some '\n' && !t.startsBlank && !startsBlank then
          if t.emptyLines.isEmpty then [' '] else []
        else t.lineBreak
      let (line, c) := c.span fun x => !isBreak x
      let lineBreak := c.breakText
      let (_, emptyLines, c) ← blockBreaks (some indent) (c.rest.length + 2) 0 [] c.nextLine
      let text := t.text ++ joint ++ t.emptyLines ++ line
      blockLines literal indent bound { text, lineBreak, emptyLines, startsBlank } c

/-- Read a block scalar after its mark; `parentIndent` is one more than the column of the collection
around it, or zero. -/
def block (literal : Bool) (parentIndent : Nat) (c : Cursor) : Option (List Char × Cursor) := do
  let (chomping, increment?, c) ← blockHeader c
  let c ← blockHeaderEnd c
  let given? := increment?.map fun n => parentIndent - 1 + n
  let (widest, emptyLines, c) ← blockBreaks given? (c.rest.length + 2) 0 [] c
  let indent := given?.getD (max (max widest parentIndent) 1)
  let (t, c) ← blockLines literal indent (c.rest.length + 1) { emptyLines } c
  let ending :=
    match chomping with
    | .strip => []
    | .clip => t.lineBreak
    | .keep => t.lineBreak ++ t.emptyLines
  pure (t.text ++ ending, c)

end Wiring.Document.Yaml
