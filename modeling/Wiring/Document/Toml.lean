import Wiring.Document.Json
import Wiring.Document.TomlDate

/-!
# TOML

Reading TOML. Tables that were written out cannot be written out again, and what was written by
dotted keys cannot be extended by a header of the same table. Whole numbers have 64 bits.
-/

namespace Wiring.Document.Toml

open Json (hexDigit?)

/-! ## Tables under construction -/

/-- An entry of a table under construction. -/
inductive Item where
  | value (n : Node)
  /-- A table: whether it exists only because of what is in it, and whether dotted keys made it. -/
  | table (implicit dotted : Bool) (entries : List (String × Item))
  | tables (ts : List (List (String × Item)))

mutual

/-- The document that an entry describes. -/
def Item.toNode : Item → Node
  | .value n => n
  | .table _ _ entries => .record (entryNodes entries)
  | .tables ts => .list (tableNodes ts)

/-- The documents of entries. -/
def entryNodes : List (String × Item) → List (String × Node)
  | [] => []
  | (name, item) :: rest => (name, item.toNode) :: entryNodes rest

/-- The documents of tables. -/
def tableNodes : List (List (String × Item)) → List Node
  | [] => []
  | t :: rest => .record (entryNodes t) :: tableNodes rest

end

/-- Put an entry in place of the one under the same name, or at the end. -/
def put (name : String) (item : Item) : List (String × Item) → List (String × Item)
  | [] => [(name, item)]
  | e :: rest => if e.1 = name then (name, item) :: rest else e :: put name item rest

/-- A table: its two marks and its entries. -/
abbrev Marked := Bool × Bool × List (String × Item)

/-- Change the table that a path leads to, making the tables on the way that do not exist. The last
table of an array of tables stands for the array. Dotted keys do not reach into tables that were
written out. -/
def change (byDots : Bool) (f : Marked → Option Marked) : List String → Marked → Option Marked
  | [], t => f t
  | name :: path, (implicit, dotted, entries) => do
    let item ← match entries.lookup name with
      | none => do
        let (i, d, es) ← change byDots f path (true, byDots, [])
        pure (Item.table i d es)
      | some (.value _) => none
      | some (.table i d es) =>
        if byDots && !i then none
        else do
          let (i, d, es) ← change byDots f path (i, d, es)
          pure (Item.table i d es)
      | some (.tables ts) =>
        match ts.getLast? with
        | none => none
        | some es => do
          let (_, _, es) ← change byDots f path (false, false, es)
          pure (Item.tables (ts.dropLast ++ [es]))
    pure (implicit, dotted, put name item entries)

/-- Cut the last name off a path. -/
def cutPath? (path : List String) : Option (List String × String) :=
  path.getLast?.map (path.dropLast, ·)

/-- Open a table by its header. A table that exists only because of what is in it may be opened. -/
def openTable (path : List String) (root : Marked) : Option Marked := do
  let (way, name) ← cutPath? path
  change false (fun (i, d, es) =>
    match es.lookup name with
    | none => some (i, d, put name (.table false false []) es)
    | some (.table true false inner) => some (i, d, put name (.table false false inner) es)
    | some _ => none) way root

/-- Open another table of an array of tables by its header. -/
def openElement (path : List String) (root : Marked) : Option Marked := do
  let (way, name) ← cutPath? path
  change false (fun (i, d, es) =>
    match es.lookup name with
    | none => some (i, d, put name (.tables [[]]) es)
    | some (.tables ts) => some (i, d, put name (.tables (ts ++ [[]])) es)
    | some _ => none) way root

/-- Write a value under a dotted key in a table. -/
def define (key : List String) (n : Node) (t : Marked) : Option Marked := do
  let (way, name) ← cutPath? key
  change true (fun (i, d, es) =>
    if d == way.isEmpty then none
    else
      match es.lookup name with
      | none => some (i, d, put name (.value n) es)
      | some _ => none) way t

/-! ## Texts -/

/-- A character that may stand in a text or a comment. -/
def isPrintable (c : Char) : Bool := c == '\t' || (0x20 ≤ c.toNat && c.toNat ≠ 0x7F)

/-- A number of hexadecimal digits. -/
def hex? (n : Nat) (s : List Char) : Option (Nat × List Char) := do
  let ds := s.take n
  if ds.length ≠ n then none
  else
    let v ← ds.foldlM (fun v d => (hexDigit? d).map fun x => v * 16 + x) 0
    pure (v, s.drop n)

/-- The character of a number, which must be one. -/
def scalar? (n : Nat) : Option Char :=
  if n < 0xD800 || (0xE000 ≤ n && n < 0x110000) then some (Char.ofNat n) else none

/-- The character after a backslash. -/
def escape? : List Char → Option (Char × List Char)
  | 'b' :: rest => some ('\x08', rest)
  | 't' :: rest => some ('\t', rest)
  | 'n' :: rest => some ('\n', rest)
  | 'f' :: rest => some ('\x0c', rest)
  | 'r' :: rest => some ('\r', rest)
  | '"' :: rest => some ('"', rest)
  | '\\' :: rest => some ('\\', rest)
  | 'u' :: rest => do
    let (n, rest) ← hex? 4 rest
    (scalar? n).map (·, rest)
  | 'U' :: rest => do
    let (n, rest) ← hex? 8 rest
    (scalar? n).map (·, rest)
  | _ => none

/-- A text on one line, after its opening quote. -/
def lineText? (quote : Char) : Nat → List Char → List Char → Option (String × List Char)
  | 0, _, _ => none
  | bound + 1, seen, s =>
    match s with
    | [] => none
    | c :: rest =>
      if c == quote then some (String.ofList seen.reverse, rest)
      else if c == '\\' && quote == '"' then do
        let (e, rest) ← escape? rest
        lineText? quote bound (e :: seen) rest
      else if isPrintable c then lineText? quote bound (c :: seen) rest
      else none

/-- Drop a line break. -/
def newline? : List Char → Option (List Char)
  | '\n' :: rest => some rest
  | '\r' :: '\n' :: rest => some rest
  | _ => none

/-- Blanks within a line. -/
def skipBlanks (s : List Char) : List Char := s.dropWhile fun c => c == ' ' || c == '\t'

/-- Drop blanks and line breaks. -/
def skipLines : Nat → List Char → List Char
  | 0, s => s
  | bound + 1, s =>
    let s := skipBlanks s
    match newline? s with
    | some rest => skipLines bound rest
    | none => s

/-- A text on several lines, after its opening quotes. It ends with the last three of up to five
quotes in a row. -/
def blockText? (quote : Char) : Nat → List Char → List Char → Option (String × List Char)
  | 0, _, _ => none
  | bound + 1, seen, s =>
    match s with
    | [] => none
    | c :: rest =>
      if c == quote then
        let (quotes, behind) := s.span (· == quote)
        if quotes.length < 3 then blockText? quote bound (c :: seen) rest
        else if quotes.length ≤ 5 then
          some (String.ofList (quotes.drop 3 ++ seen).reverse, behind)
        else none
      else if c == '\\' && quote == '"' then
        match newline? (skipBlanks rest) with
        | some rest => blockText? quote bound seen (skipLines rest.length rest)
        | none => do
          let (e, rest) ← escape? rest
          blockText? quote bound (e :: seen) rest
      else
        match newline? s with
        | some rest => blockText? quote bound ('\n' :: seen) rest
        | none => if isPrintable c then blockText? quote bound (c :: seen) rest else none

/-- Drop a line break directly after opening quotes. -/
def dropNewline (s : List Char) : List Char := (newline? s).getD s

/-- A text, if there is one. -/
def text? (s : List Char) : Option (String × List Char) :=
  match s with
  | '"' :: '"' :: '"' :: rest => blockText? '"' (rest.length + 1) [] (dropNewline rest)
  | '\'' :: '\'' :: '\'' :: rest => blockText? '\'' (rest.length + 1) [] (dropNewline rest)
  | '"' :: rest => lineText? '"' (rest.length + 1) [] rest
  | '\'' :: rest => lineText? '\'' (rest.length + 1) [] rest
  | _ => none

/-! ## Numbers -/

/-- Digits, with single underscores between them. -/
def digitsOf? (isDigit : Char → Bool) (s : List Char) : Option (List Char) :=
  let groups := s.splitOn '_'
  if groups.all fun g => !g.isEmpty && g.all isDigit then some groups.flatten else none

/-- The value of digits in a base. -/
def valueOf (base : Nat) (ds : List Char) : Nat :=
  ds.foldl (fun n d => n * base + (hexDigit? d).getD 0) 0

/-- A sign in front. -/
def cutSign : List Char → Bool × List Char
  | '-' :: s => (true, s)
  | '+' :: s => (false, s)
  | s => (false, s)

/-- No zero before another digit. -/
def isCanonical (ds : List Char) : Bool := ds.length ≤ 1 || ds.head? != some '0'

/-- A whole number of 64 bits. -/
def int? (s : List Char) : Option Int :=
  let within (n : Int) : Option Int :=
    if -(Nat.pow 2 63 : Int) ≤ n && n < Nat.pow 2 63 then some n else none
  match s with
  | '0' :: 'x' :: ds =>
    (digitsOf? (fun c => (hexDigit? c).isSome) ds).bind fun ds => within (valueOf 16 ds)
  | '0' :: 'o' :: ds =>
    (digitsOf? (fun c => '0' ≤ c && c ≤ '7') ds).bind fun ds => within (valueOf 8 ds)
  | '0' :: 'b' :: ds =>
    (digitsOf? (fun c => c == '0' || c == '1') ds).bind fun ds => within (valueOf 2 ds)
  | s => do
    let (negative, s) := cutSign s
    let ds ← digitsOf? Char.isDigit s
    if isCanonical ds then
      let n : Int := valueOf 10 ds
      within (if negative then -n else n)
    else none

/-- The double nearest to `significand * 10 ^ exponent`; what lies far outside the range of doubles
is infinite or zero. -/
def nearest (significand : Nat) (exponent : Int) : Float :=
  let size : Int := exponent + (toString significand).length
  if significand == 0 || size < -400 then 0.0
  else if size > 400 then 1.0 / 0.0
  else if exponent < 0 then Float.ofScientific significand true exponent.natAbs
  else Float.ofScientific significand false exponent.natAbs

/-- A number with a fraction or an exponent, or one of the words for no number. -/
def float? (s : List Char) : Option Float := do
  let (negative, s) := cutSign s
  let signed (x : Float) : Float := if negative then -x else x
  if s == "inf".toList then pure (signed (1.0 / 0.0))
  else if s == "nan".toList then pure (0.0 / 0.0)
  else
    let (mantissa, exponentPart) := s.span fun c => c != 'e' && c != 'E'
    let (whole, fractionPart) := mantissa.span (· != '.')
    let whole ← digitsOf? Char.isDigit whole
    let fraction ← match fractionPart with
      | [] => some []
      | _ :: ds => digitsOf? Char.isDigit ds
    let exponent ← match exponentPart with
      | [] => some 0
      | _ :: e => do
        let (down, e) := cutSign e
        let ds ← digitsOf? Char.isDigit e
        let n : Int := valueOf 10 ds
        pure (if down then -n else n)
    if !isCanonical whole || (fractionPart.isEmpty && exponentPart.isEmpty) then none
    else
      let x := nearest (valueOf 10 (whole ++ fraction)) (exponent - fraction.length)
      if !negative && x.isInf then none else pure (signed x)

/-! ## Values -/

/-- Characters of numbers, words, dates and times. -/
def isWordChar (c : Char) : Bool := c.isAlphanum || "_+-.:".toList.contains c

/-- A number, a word, a date or a time. A blank may stand between a date and a time. -/
def word? (s : List Char) : Option (Node × List Char) :=
  let (word, rest) := s.span isWordChar
  let (word, rest) :=
    match rest with
    | ' ' :: a :: b :: ':' :: more =>
      if (date? word).any (·.2.isEmpty) && a.isDigit && b.isDigit then
        let (time, rest) := (a :: b :: ':' :: more).span isWordChar
        (word ++ ' ' :: time, rest)
      else (word, rest)
    | rest => (word, rest)
  if word == "true".toList then some (Node.bool true, rest)
  else if word == "false".toList then some (Node.bool false, rest)
  else
    match int? word with
    | some i => some (Node.int i, rest)
    | none =>
      match float? word with
      | some x => some (.scalar (.float x), rest)
      | none =>
        (dateTime? word).map fun t =>
          (.record [("$__toml_private_datetime", Node.text t)], rest)

/-- Drop a comment; none, if it holds a control character. -/
def skipComment? (s : List Char) : Option (List Char) :=
  match s with
  | '#' :: rest =>
    let (comment, behind) := rest.span fun c => c != '\n' && c != '\r'
    if comment.all isPrintable then some behind else none
  | s => some s

/-- Drop blanks, line breaks and comments. -/
def skipAll? : Nat → List Char → Option (List Char)
  | 0, s => some s
  | bound + 1, s => do
    let s ← skipComment? (skipBlanks s)
    match newline? s with
    | some rest => skipAll? bound rest
    | none => pure s

/-- A part of a key. -/
def simpleKey? (s : List Char) : Option (String × List Char) :=
  match s with
  | '"' :: rest => lineText? '"' (rest.length + 1) [] rest
  | '\'' :: rest => lineText? '\'' (rest.length + 1) [] rest
  | s =>
    let (name, rest) := s.span fun c => c.isAlphanum || c == '_' || c == '-'
    if name.isEmpty then none else some (String.ofList name, rest)

/-- A key: parts joined by points. -/
def key? : Nat → List Char → Option (List String × List Char)
  | 0, _ => none
  | bound + 1, s => do
    let (name, rest) ← simpleKey? (skipBlanks s)
    match skipBlanks rest with
    | '.' :: rest => do
      let (names, rest) ← key? bound rest
      pure (name :: names, rest)
    | rest => pure ([name], rest)

mutual

/-- Read a value; `depth` more arrays and tables may be open. -/
def value? : Nat → Nat → List Char → Option (Node × List Char)
  | 0, _, _ => none
  | bound + 1, depth, s =>
    match s with
    | '[' :: rest =>
      if depth = 0 then none
      else do
        let rest ← skipAll? rest.length rest
        items? bound (depth - 1) [] rest
    | '\x7b' :: rest =>
      if depth = 0 then none
      else
        match skipBlanks rest with
        | '\x7d' :: rest => some (.record [], rest)
        | rest => inline? bound (depth - 1) (false, false, []) rest
    | s =>
      match text? s with
      | some (t, rest) => some (Node.text t, rest)
      | none => if s.head? == some '"' || s.head? == some '\'' then none else word? s

/-- Read the items of an array and its closing bracket. -/
def items? : Nat → Nat → List Node → List Char → Option (Node × List Char)
  | 0, _, _, _ => none
  | bound + 1, depth, seen, s =>
    match s with
    | ']' :: rest => some (.list seen.reverse, rest)
    | s => do
      let (n, rest) ← value? bound depth s
      let rest ← skipAll? rest.length rest
      match rest with
      | ',' :: rest => do
        let rest ← skipAll? rest.length rest
        items? bound depth (n :: seen) rest
      | ']' :: rest => pure (.list (n :: seen).reverse, rest)
      | _ => none

/-- Read the entries of a table on one line and its closing brace. -/
def inline? : Nat → Nat → Marked → List Char → Option (Node × List Char)
  | 0, _, _, _ => none
  | bound + 1, depth, t, s => do
    let (key, rest) ← key? bound s
    let rest ← expect? (· == '=') (skipBlanks rest)
    let (n, rest) ← value? bound depth (skipBlanks rest)
    let t ← define key n t
    match skipBlanks rest with
    | ',' :: rest => inline? bound depth t rest
    | '\x7d' :: rest => pure (.record (entryNodes t.2.2), rest)
    | _ => none

end

/-! ## Documents -/

/-- How deep arrays and tables may nest inside a value. -/
def nesting : Nat := 80

/-- A comment and a line break, or the end. -/
def endOfLine? (s : List Char) : Option (List Char) := do
  let s ← skipComment? (skipBlanks s)
  if s.isEmpty then pure [] else newline? s

/-- Read the lines of a document; `path` leads to the table that was opened last. -/
def lines? : Nat → List String → Marked → List Char → Option Marked
  | 0, _, _, _ => none
  | bound + 1, path, root, s => do
    let s ← skipAll? s.length s
    match s with
    | [] => pure root
    | '[' :: '[' :: rest => do
      let (key, rest) ← key? bound rest
      let rest ← expect? (· == ']') (skipBlanks rest)
      let rest ← expect? (· == ']') rest
      let rest ← endOfLine? rest
      let root ← openElement key root
      lines? bound key root rest
    | '[' :: rest => do
      let (key, rest) ← key? bound rest
      let rest ← expect? (· == ']') (skipBlanks rest)
      let rest ← endOfLine? rest
      let root ← openTable key root
      lines? bound key root rest
    | s => do
      let (key, rest) ← key? bound s
      let rest ← expect? (· == '=') (skipBlanks rest)
      let (n, rest) ← value? bound nesting (skipBlanks rest)
      let rest ← endOfLine? rest
      let root ← change false (define key n) path root
      lines? bound path root rest

/-- Read a document. -/
def parse? (text : String) : Option Node :=
  let s := text.toList
  let s := if s.head? == some '\ufeff' then s.drop 1 else s
  (lines? (2 * s.length + 2) [] (false, false, []) s).map fun (_, _, entries) =>
    .record (entryNodes entries)

end Wiring.Document.Toml
