import Wiring.Pattern.Charset

/-!
# Reading patterns

The written form of patterns: characters and classes in a row, alternatives between bars, groups in
parentheses, repetitions behind what they repeat. A text is no pattern if something is left open or
has nothing to apply to.

What is read:
* a character, or after a backslash a sign, one of `a f t n r v`, or a number of a character
  (`\x41`, `\u0041`, `\U00000041`, with braces for any number of digits);
* `.`, and the classes `\d \s \w`, `\p` with a property, and their complements in capitals;
* classes in brackets: ranges, classes within classes, `[:alpha:]` and its like, `^` in front for
  the complement, and `&&`, `--`, `~~` between two classes;
* the places `^ $ \A \z \b \B \< \>` and `\b` with `start`, `end`, `start-half` or `end-half` in
  braces;
* groups, which may have a name (`?P<name>`, `?<name>`) or flags (`?i:`), and flags by themselves
  (`?i`), out of `i m s x R u U`, of which the last only says what a repetition prefers;
* the repetitions `* + ?` and numbers in braces, with `?` behind them or not.

There are no references to groups and no places that look ahead or behind. A pattern is too large if
it asks for more than `weightLimit` characters with its repetitions written out.
-/

namespace Wiring.Pattern

/-- What the letters behind a question mark switch on and off. -/
structure Flags where
  ignoreCase : Bool := false
  multiLine : Bool := false
  dotAll : Bool := false
  ignoreBlanks : Bool := false
  carriageReturns : Bool := false
  unicode : Bool := true
deriving Repr

namespace Flags

/-- Switch the flag of a letter. -/
def set? (flags : Flags) (on : Bool) : Char → Option Flags
  | 'i' => some { flags with ignoreCase := on }
  | 'm' => some { flags with multiLine := on }
  | 's' => some { flags with dotAll := on }
  | 'x' => some { flags with ignoreBlanks := on }
  | 'R' => some { flags with carriageReturns := on }
  | 'u' => some { flags with unicode := on }
  | 'U' => some flags
  | _ => none

/-- Read flags up to a colon or a closing parenthesis, each letter at most once; those behind a
hyphen are switched off. `seen` holds what has been read, the last first. -/
def read? (flags : Flags) (seen : List Char) : List Char → Option (Flags × List Char)
  | [] => none
  | c :: rest =>
    if c == ':' || c == ')' then
      if seen.head? == some '-' then none else some (flags, c :: rest)
    else if seen.contains c then none
    else if c == '-' then read? flags ('-' :: seen) rest
    else
      match flags.set? (!seen.contains '-') c with
      | some flags => read? flags (c :: seen) rest
      | none => none

/-- Drop blanks and comments in front, where they do not count. -/
def skipBlanks (flags : Flags) (s : List Char) : List Char :=
  if flags.ignoreBlanks then go false s else s
where
  /-- `inComment` says whether a comment is open. -/
  go (inComment : Bool) : List Char → List Char
    | [] => []
    | c :: s =>
      if inComment then go (c != '\n') s
      else if Text.isBlank c then go false s
      else if c == '#' then go true s
      else c :: s

/-- The pattern of a class. Where characters are bytes, a class may not reach beyond ASCII. -/
def charset? (flags : Flags) (p : Charset) : Option Pattern :=
  if !flags.unicode && (List.range 128).any fun i => p (Char.ofNat (128 + i)) then none
  else some (.char p)

end Flags

/-! ## Escapes -/

/-- What stands behind a backslash. -/
inductive Escape where
  | literal (c : Char)
  | charset (accepts : Charset)
  | boundary (b : Boundary)

/-- The value of a hexadecimal digit. -/
def hexValue? (c : Char) : Option Nat :=
  if c.isDigit then some (c.toNat - '0'.toNat)
  else if 'a' ≤ c && c ≤ 'f' then some (c.toNat - 'a'.toNat + 10)
  else if 'A' ≤ c && c ≤ 'F' then some (c.toNat - 'A'.toNat + 10)
  else none

/-- The character of hexadecimal digits. -/
def ofHex? (ds : List Char) : Option Char := do
  if ds.isEmpty then none
  else
    let n ← ds.foldlM (fun v d => (hexValue? d).map fun x => v * 16 + x) 0
    if n < 0xD800 || (0xE000 ≤ n && n < 0x110000) then some (Char.ofNat n) else none

/-- What stands in braces, and what follows them. -/
def braced? (s : List Char) : Option (List Char × List Char) :=
  let (inner, rest) := s.span (· != '\x7d')
  match rest with
  | [] => none
  | _ :: rest => some (inner, rest)

/-- A character by number: so many digits, or any number of them in braces. -/
def numbered? (width : Nat) (s : List Char) : Option (Escape × List Char) :=
  match s with
  | '\x7b' :: rest => do
    let (ds, rest) ← braced? rest
    let c ← ofHex? ds
    pure (.literal c, rest)
  | s =>
    if (s.take width).length = width then (ofHex? (s.take width)).map (.literal ·, s.drop width)
    else none

/-- A property: one letter, or a name in braces. -/
def property? (negated : Bool) (s : List Char) : Option (Escape × List Char) := do
  let (name, rest) ←
    match s with
    | [] => none
    | '\\' :: _ => none
    | '\x7b' :: rest => braced? rest
    | c :: rest => some ([c], rest)
  let p ← Charset.ofPropertyText? name
  pure (.charset (p.signed negated), rest)

/-- A word boundary, perhaps with its kind in braces. -/
def wordBoundary? (s : List Char) : Option (Escape × List Char) :=
  let isKind (c : Char) : Bool := c.isAlpha || c == '-'
  match s with
  | '\x7b' :: c :: rest =>
    if !isKind c then some (.boundary .word, s)
    else
      match (c :: rest).span isKind with
      | (kind, '\x7d' :: rest) =>
        match String.ofList kind with
        | "start" => some (.boundary .wordStart, rest)
        | "end" => some (.boundary .wordEnd, rest)
        | "start-half" => some (.boundary .notAfterWord, rest)
        | "end-half" => some (.boundary .notBeforeWord, rest)
        | _ => none
      | _ => none
  | s => some (.boundary .word, s)

/-- Read what stands behind a backslash. Signs stand for themselves. -/
def escape? (flags : Flags) : List Char → Option (Escape × List Char)
  | [] => none
  | c :: rest =>
    match c with
    | 'x' => numbered? 2 rest
    | 'u' => numbered? 4 rest
    | 'U' => numbered? 8 rest
    | 'p' => if flags.unicode then property? false rest else none
    | 'P' => if flags.unicode then property? true rest else none
    | 'a' => some (.literal '\x07', rest)
    | 'f' => some (.literal '\x0c', rest)
    | 't' => some (.literal '\t', rest)
    | 'n' => some (.literal '\n', rest)
    | 'r' => some (.literal '\r', rest)
    | 'v' => some (.literal '\x0b', rest)
    | 'A' => some (.boundary .textStart, rest)
    | 'z' => some (.boundary .textEnd, rest)
    | 'b' => wordBoundary? rest
    | 'B' => some (.boundary .notWord, rest)
    | '<' => some (.boundary .wordStart, rest)
    | '>' => some (.boundary .wordEnd, rest)
    | c =>
      match Charset.ofLetter? flags.unicode c with
      | some p => some (.charset p, rest)
      | none => if c.toNat < 128 && !c.isAlphanum then some (.literal c, rest) else none

/-! ## Classes in brackets -/

/-- An operation on classes. -/
inductive ClassOperator where
  | intersection
  | difference
  | symmetricDifference
deriving DecidableEq, Repr

namespace ClassOperator

/-- Apply an operation. -/
def apply (p q : Charset) : ClassOperator → Charset
  | intersection => fun c => p c && q c
  | difference => fun c => p c && !q c
  | symmetricDifference => fun c => p c != q c

/-- The operation that a sign, written twice, stands for. -/
def ofSign? : Char → Option ClassOperator
  | '&' => some intersection
  | '-' => some difference
  | '~' => some symmetricDifference
  | _ => none

end ClassOperator

/-- Finish the operation that waits for its second class. -/
def settle (pending? : Option (ClassOperator × Charset)) (p : Charset) : Charset :=
  match pending? with
  | some (op, q) => op.apply q p
  | none => p

/-- A named class, behind its opening bracket and colon. -/
def named? (flags : Flags) (s : List Char) : Option (Charset × List Char) :=
  let (negated, s) :=
    match s with
    | '^' :: s => (true, s)
    | s => (false, s)
  match s.span (· != ':') with
  | (name, ':' :: ']' :: rest) =>
    (Charset.ofName? (String.ofList name)).map fun p =>
      ((p.upToCase flags.ignoreCase).signed negated, rest)
  | _ => none

/-- One part of a class: a character or a class behind a backslash, or a character. -/
def classPart? (flags : Flags) : List Char → Option (Escape × List Char)
  | [] => none
  | '\\' :: rest => escape? flags rest
  | c :: rest => some (.literal c, rest)

/-- A part of a class by itself. Where characters are bytes, only ASCII may be written. -/
def Escape.toCharset? (flags : Flags) : Escape → Option Charset
  | literal c => if flags.unicode || c.toNat < 128 then some (.one flags.ignoreCase c) else none
  | charset p => some p
  | boundary _ => none

/-- One or two parts of a class: with a hyphen between them they are the ends of a range. -/
def classRange? (flags : Flags) (s : List Char) : Option (Charset × List Char) := do
  let (first, rest) ← classPart? flags s
  let rest := flags.skipBlanks rest
  let isRange :=
    match rest with
    | '-' :: more =>
      let next? := (flags.skipBlanks more).head?
      next? != some ']' && next? != some '-'
    | _ => false
  if !isRange then
    let p ← first.toCharset? flags
    pure (p, rest)
  else
    let (second, rest) ← classPart? flags (flags.skipBlanks (rest.drop 1))
    match first, second with
    | .literal a, .literal b =>
      if b < a || (!flags.unicode && !(b.toNat < 128)) then none
      else pure (Charset.upToCase flags.ignoreCase (Charset.range a b), rest)
    | _, _ => none

/-- Drop the hyphens in front of a class, and a bracket if there are none; they are literal. -/
def literalFront (flags : Flags) (s : List Char) : List Char × List Char :=
  match go s with
  | ([], ']' :: rest) => ([']'], flags.skipBlanks rest)
  | front => front
where
  /-- The hyphens in front. -/
  go : List Char → List Char × List Char
    | '-' :: s =>
      let (hyphens, rest) := go s
      ('-' :: hyphens, rest)
    | s => ([], flags.skipBlanks s)

mutual

/-- Read a class behind its opening bracket. -/
def bracketed? (flags : Flags) : Nat → List Char → Option (Charset × List Char)
  | 0, _ => none
  | bound + 1, s =>
    let s := flags.skipBlanks s
    let (negated, s) :=
      match s with
      | '^' :: s => (true, flags.skipBlanks s)
      | s => (false, s)
    let (front, rest) := literalFront flags s
    (classItems? flags bound none (fun c => front.contains c) rest).map fun (p, rest) =>
      (p.signed negated, rest)

/-- Read the parts of a class; `accepts` holds those since the last operation. -/
def classItems? (flags : Flags) : Nat → Option (ClassOperator × Charset) → Charset → List Char →
    Option (Charset × List Char)
  | 0, _, _, _ => none
  | bound + 1, pending?, accepts, s =>
    let add (part : Charset × List Char) : Option (Charset × List Char) :=
      classItems? flags bound pending? (fun c => accepts c || part.1 c) part.2
    let s := flags.skipBlanks s
    let operator? : Option (ClassOperator × List Char) :=
      match s with
      | a :: b :: rest => if a == b then (ClassOperator.ofSign? a).map (·, rest) else none
      | _ => none
    match operator?, s with
    | some (op, rest), _ =>
      classItems? flags bound (some (op, settle pending? accepts)) (fun _ => false) rest
    | none, [] => none
    | none, ']' :: rest => some (settle pending? accepts, rest)
    | none, '[' :: rest =>
      let namedClass? :=
        match rest with
        | ':' :: rest => named? flags rest
        | _ => none
      match namedClass? with
      | some part => add part
      | none => (bracketed? flags bound rest).bind add
    | none, s => (classRange? flags s).bind add

end

/-! ## Repetitions -/

/-- Bounds of a repetition, behind the opening brace: a number, or a number with a comma, or two
numbers with a comma between them. -/
def bounds? (s : List Char) : Option (Nat × Option Nat × List Char) := do
  let skip (s : List Char) : List Char := s.dropWhile Text.isBlank
  let number (s : List Char) : Option Nat × List Char :=
    let (ds, rest) := (skip s).span Char.isDigit
    let n := ds.foldl (fun n d => n * 10 + (d.toNat - '0'.toNat)) 0
    (if ds.isEmpty || Nat.pow 2 32 ≤ n then none else some n, skip rest)
  let (low?, rest) := number s
  let low ← low?
  match rest with
  | '\x7d' :: rest => pure (low, some low, rest)
  | ',' :: rest =>
    match skip rest with
    | '\x7d' :: rest => pure (low, none, rest)
    | rest =>
      let (high?, rest) := number rest
      let high ← high?
      match rest with
      | '\x7d' :: rest => if low ≤ high then pure (low, some high, rest) else none
      | _ => none
  | _ => none

/-- The bounds of the repetition that a text starts with. -/
def repetition? : List Char → Option (Option (Nat × Option Nat × List Char))
  | '*' :: rest => some (some (0, none, rest))
  | '+' :: rest => some (some (1, none, rest))
  | '?' :: rest => some (some (0, some 1, rest))
  | '\x7b' :: rest => some (bounds? rest)
  | _ => none

/-- Drop the sign of a repetition that prefers few: it decides what is found and not whether. -/
def dropLazy : List Char → List Char
  | '?' :: rest => rest
  | rest => rest

/-! ## Groups and alternatives -/

/-- The name of a group, up to its closing bracket, and what follows. -/
def groupName? (s : List Char) : Option (List Char × List Char) :=
  let isLater (c : Char) : Bool :=
    Charset.isLetter c || c.isDigit || c == '_' || c == '.' || c == '[' || c == ']'
  match s.span isLater with
  | (first :: name, '>' :: rest) =>
    if Charset.isLetter first || first == '_' then some (first :: name, rest) else none
  | _ => none

/-- What a part may depend on: the flags, and the names that groups have taken. -/
structure Scope where
  flags : Flags := {}
  names : List (List Char) := []

/-- Read the beginning of a group behind its parenthesis: the scope inside it and the rest, where it
is more than a change of flags. -/
def groupStart? (scope : Scope) (s : List Char) : Option (Bool × Scope × List Char) :=
  let named (s : List Char) : Option (Bool × Scope × List Char) := do
    let (name, rest) ← groupName? s
    if scope.names.contains name then none
    else pure (true, { scope with names := name :: scope.names }, rest)
  match s with
  | '?' :: '<' :: '=' :: _ => none
  | '?' :: '<' :: '!' :: _ => none
  | '?' :: 'P' :: '<' :: rest => named rest
  | '?' :: '<' :: rest => named rest
  | '?' :: rest => do
    let (flags, more) ← scope.flags.read? [] rest
    match more with
    | ':' :: more => pure (true, { scope with flags }, more)
    | ')' :: more =>
      if rest.head? == some ')' then none else pure (false, { scope with flags }, more)
    | _ => none
  | s => some (true, scope, s)

mutual

/-- Read alternatives up to a closing parenthesis or the end. Flags that are switched on the way
stay on. -/
def alternatives? : Nat → Scope → List Char → Option (Pattern × Scope × List Char)
  | 0, _, _ => none
  | bound + 1, scope, s => do
    let (p, scope, rest) ← row? bound scope none s
    match rest with
    | '|' :: rest => do
      let (q, scope, rest) ← alternatives? bound scope rest
      pure (alt p q, scope, rest)
    | rest => pure (p, scope, rest)

/-- Read what stands in a row; `last?` is the part that a repetition would apply to. -/
def row? : Nat → Scope → Option Pattern → List Char → Option (Pattern × Scope × List Char)
  | 0, _, _, _ => none
  | bound + 1, scope, last?, s =>
    let s := scope.flags.skipBlanks s
    match repetition? s, last? with
    | some none, _ => none
    | some (some _), none => none
    | some (some (low, high?, rest)), some p =>
      row? bound scope (some (times low high? p)) (dropLazy rest)
    | none, _ =>
      if s.isEmpty || s.head? == some '|' || s.head? == some ')' then
        some (last?.getD empty, scope, s)
      else do
        let (part?, scope, rest) ← part? bound scope s
        let (p, scope, rest) ← row? bound scope part? rest
        pure (last?.elim p (seq · p), scope, rest)

/-- Read one part, or a change of flags. -/
def part? : Nat → Scope → List Char → Option (Option Pattern × Scope × List Char)
  | 0, _, _ => none
  | bound + 1, scope, s =>
    let flags := scope.flags
    let charset? (p : Charset) (rest : List Char) : Option (Option Pattern × Scope × List Char) :=
      (flags.charset? p).map (some ·, scope, rest)
    match s with
    | [] => none
    | '(' :: rest => do
      let (isGroup, inner, rest) ← groupStart? scope (flags.skipBlanks rest)
      if !isGroup then pure (none, inner, rest)
      else
        let (p, inner, rest) ← alternatives? bound inner rest
        match rest with
        | ')' :: rest => pure (some p, { inner with flags }, rest)
        | _ => none
    | '[' :: rest => (bracketed? flags bound rest).bind fun (p, rest) => charset? p rest
    | '.' :: rest => charset? (.dot flags.dotAll flags.carriageReturns) rest
    | '^' :: rest =>
      some (some (boundary (if flags.multiLine then .lineStart else .textStart)), scope, rest)
    | '$' :: rest =>
      some (some (boundary (if flags.multiLine then .lineEnd else .textEnd)), scope, rest)
    | '\\' :: rest => do
      match ← escape? flags rest with
      | (.literal c, rest) => pure (some (char (Charset.one flags.ignoreCase c)), scope, rest)
      | (.charset p, rest) => charset? p rest
      | (.boundary b, rest) => pure (some (boundary b), scope, rest)
    | c :: rest => some (some (char (Charset.one flags.ignoreCase c)), scope, rest)

end

/-- The greatest weight of a pattern. -/
def weightLimit : Nat := 400000

/-- Read a pattern. Each level of the reader takes a character or is the one of two between
characters, so four times the length bounds its depth. -/
def parse? (text : String) : Option Pattern := do
  let s := text.toList
  let (p, _, rest) ← alternatives? (4 * s.length + 4) {} s
  if rest.isEmpty && p.weight ≤ weightLimit then pure p else none

end Wiring.Pattern
