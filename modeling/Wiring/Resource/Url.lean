import Wiring.Text.LetterCase
import Wiring.Text.Utf8

/-!
# URLs

As much of URL syntax as locations need: the scheme, whether there is a host, and for `file` URLs
the path, with its written form and the file that it names.
-/

namespace Wiring

/-- A parsed URL. The path and what follows it are kept for `file` URLs only. -/
structure Url where
  scheme : String
  /-- The host as it is written; `none` where there is none. -/
  host? : Option (List Char)
  segments : List (List Char) := []
  query? : Option (List Char) := none
  fragment? : Option (List Char) := none
deriving DecidableEq, Repr

namespace Url

/-! ## Percent encoding -/

/-- An upper-case hexadecimal digit. -/
def hexChar (n : Nat) : Char :=
  if n < 10 then Char.ofNat ('0'.toNat + n) else Char.ofNat ('A'.toNat + n - 10)

/-- The value of a hexadecimal digit. -/
def hexDigit? (c : Char) : Option Nat :=
  if c.isDigit then some (c.toNat - '0'.toNat)
  else if 'a' ≤ c && c ≤ 'f' then some (c.toNat - 'a'.toNat + 10)
  else if 'A' ≤ c && c ≤ 'F' then some (c.toNat - 'A'.toNat + 10)
  else none

/-- A character as its bytes, each with a percent sign. -/
def encodeChar (c : Char) : List Char :=
  (String.singleton c).toUTF8.toList.flatMap fun b =>
    ['%', hexChar (b.toNat / 16), hexChar (b.toNat % 16)]

/-- Controls and everything beyond ASCII. -/
def isControl (c : Char) : Bool := c.toNat < 0x20 || 0x7F ≤ c.toNat

/-- Characters that are encoded in a path. -/
def encodedInPath (c : Char) : Bool :=
  isControl c || " \"#<>?^\x60\x7b\x7d".toList.contains c

/-- Characters that are encoded in the query of a `file` URL. -/
def encodedInQuery (c : Char) : Bool := isControl c || " \"#<>\x27".toList.contains c

/-- Characters that are encoded in a fragment. -/
def encodedInFragment (c : Char) : Bool := isControl c || " \"<>\x60".toList.contains c

/-- Encode the characters that satisfy `p`. -/
def encode (p : Char → Bool) (s : List Char) : List Char :=
  s.flatMap fun c => if p c then encodeChar c else [c]

/-- The bytes of a text in which percent signs stand for bytes. -/
def decodeBytes : List Char → List UInt8
  | [] => []
  | '%' :: a :: b :: rest =>
    match hexDigit? a, hexDigit? b with
    | some x, some y => (x * 16 + y).toUInt8 :: decodeBytes rest
    | _, _ => '%'.toNat.toUInt8 :: decodeBytes (a :: b :: rest)
  | c :: rest => (String.singleton c).toUTF8.toList ++ decodeBytes rest

/-! ## Hosts -/

/-- Characters that no host may contain. -/
def isForbiddenInHost (c : Char) : Bool :=
  c.toNat == 0 || " \t\n\r#/:<>?@[\\]^|".toList.contains c

/-- Characters that no domain may contain. -/
def isForbiddenInDomain (c : Char) : Bool :=
  isForbiddenInHost c || c.toNat < 0x20 || c.toNat == 0x7F || c == '%'

/-- The value of a number in a dotted address: octal after `0`, hexadecimal after `0x`. -/
def addressNumber? (s : List Char) : Option Nat :=
  let digits? (base : Nat) (ds : List Char) : Option Nat :=
    ds.foldlM (fun n d => do
      let v ← hexDigit? d
      if v < base then some (n * base + v) else none) 0
  match s with
  | [] => none
  | '0' :: x :: rest =>
    if x == 'x' || x == 'X' then digits? 16 rest else digits? 8 (x :: rest)
  | s => digits? 10 s

/-- Cut a text at every occurrence of a character. -/
def splitAt (c : Char) (s : List Char) : List (List Char) := s.splitOn c

/-- Is the last label of a domain a number, so that the domain must be an address? -/
def endsInNumber (labels : List (List Char)) : Bool :=
  let labels := if labels.getLast? == some [] && labels.length > 1 then labels.dropLast else labels
  match labels.getLast? with
  | some label =>
    !label.isEmpty &&
      (label.all Char.isDigit ||
        (label.take 2 == ['0', 'x'] || label.take 2 == ['0', 'X']) && (addressNumber? label).isSome)
  | none => false

/-- Is this an address of four bytes, the last of which may stand for several? -/
def isDottedAddress (labels : List (List Char)) : Bool :=
  let labels := if labels.getLast? == some [] && labels.length > 1 then labels.dropLast else labels
  labels.length ≤ 4 &&
    match labels.mapM addressNumber? with
    | some numbers =>
      numbers.dropLast.all (· ≤ 255) &&
        (numbers.getLast?.getD 0) < Nat.pow 256 (5 - numbers.length)
    | none => false

/-- Is this a group of an address of sixteen bytes? -/
def isAddressGroup (s : List Char) : Bool :=
  !s.isEmpty && s.length ≤ 4 && s.all fun c => (hexDigit? c).isSome

/-- The number of groups that a list of groups makes, if it is one; a dotted address at the end
counts for two. -/
def groupCount? (atEnd : Bool) (groups : List (List Char)) : Option Nat :=
  if groups == [[]] then some 0
  else
    match groups.getLast? with
    | none => some 0
    | some last =>
      if groups.dropLast.all isAddressGroup then
        if isAddressGroup last then some groups.length
        else
          let parts := splitAt '.' last
          let isByte (s : List Char) : Bool :=
            !s.isEmpty && s.all Char.isDigit && (s.length == 1 || s.head? != some '0') &&
              (addressNumber? s).any (· ≤ 255)
          if atEnd && parts.length == 4 && parts.all isByte then some (groups.length + 1) else none
      else none

/-- Cut a text at the first two colons in a row. -/
def cutDoubleColon : List Char → Option (List Char × List Char)
  | ':' :: ':' :: rest => some ([], rest)
  | c :: rest => (cutDoubleColon rest).map fun (before, after) => (c :: before, after)
  | [] => none

/-- Is this an address of sixteen bytes? -/
def isLongAddress (s : List Char) : Bool :=
  match cutDoubleColon s with
  | none => groupCount? true (splitAt ':' s) == some 8
  | some (before, after) =>
    match groupCount? false (splitAt ':' before), groupCount? true (splitAt ':' after) with
    | some m, some n => m + n ≤ 7
    | _, _ => false

/-- Is this a host of a scheme with known rules? -/
def isHost (s : List Char) : Bool :=
  match s with
  | '[' :: rest => rest.getLast? == some ']' && isLongAddress rest.dropLast
  | s =>
    match Text.decodeUtf8 (decodeBytes s) with
    | .error _ => false
    | .ok domain =>
      let labels := splitAt '.' domain.toList
      !domain.isEmpty && !domain.toList.any isForbiddenInDomain &&
        (!endsInNumber labels || isDottedAddress labels)

/-- Is this a host of any other scheme? -/
def isOpaqueHost (s : List Char) : Bool :=
  match s with
  | '[' :: rest => rest.getLast? == some ']' && isLongAddress rest.dropLast
  | s => !s.any isForbiddenInHost

/-! ## Authorities -/

/-- Schemes whose URLs have a host and slashes that may lean either way. -/
def knownSchemes : List String := ["http", "https", "ws", "wss", "ftp"]

/-- Cut a host from the port after it. The colons of an address in brackets do not count. -/
def cutPort (s : List Char) : List Char × Option (List Char) :=
  go false s
where
  /-- `inside` says whether a bracket is open. -/
  go (inside : Bool) : List Char → List Char × Option (List Char)
    | [] => ([], none)
    | c :: rest =>
      if c == ':' && !inside then ([], some rest)
      else
        let inside := c == '[' || (inside && c != ']')
        let (host, port?) := go inside rest
        (c :: host, port?)

/-- Is this a port, or nothing? -/
def isPort (s : List Char) : Bool :=
  s.all Char.isDigit && s.foldl (fun n d => n * 10 + (d.toNat - '0'.toNat)) 0 ≤ 65535

/-- The host of an authority, if the authority is well formed. -/
def authorityHost? (known : Bool) (authority : List Char) : Option (List Char) :=
  let hasUser := authority.contains '@'
  let hostAndPort := (authority.reverse.takeWhile (· != '@')).reverse
  let (host, port?) := cutPort hostAndPort
  let hostGood :=
    if host.isEmpty then !known && !hasUser && port?.isNone
    else if known then isHost host
    else isOpaqueHost host
  if hostGood && port?.all isPort then some host else none

/-! ## Paths -/

/-- A slash of either direction. -/
def isSlash (c : Char) : Bool := c == '/' || c == '\\'

/-- A letter with a colon or a bar. -/
def isDriveLetter : List Char → Bool
  | [c, d] => c.isAlpha && (d == ':' || d == '|')
  | _ => false

/-- A segment that stands for the same directory. -/
def isSingleDot (s : List Char) : Bool :=
  s == ['.'] || s.map Char.toLower == "%2e".toList

/-- A segment that stands for the directory above. -/
def isDoubleDot (s : List Char) : Bool :=
  let s := s.map Char.toLower
  s == "..".toList || s == ".%2e".toList || s == "%2e.".toList || s == "%2e%2e".toList

/-- Leave the last directory; a drive letter stays. -/
def leave (path : List (List Char)) : List (List Char) :=
  match path with
  | [d] => if isDriveLetter d then path else []
  | path => path.dropLast

/-- Walk along the segments of a path. -/
def walk (path : List (List Char)) : List (List Char) → List (List Char)
  | [] => path
  | s :: rest =>
    let isLast := rest.isEmpty
    let path :=
      if isDoubleDot s then if isLast then leave path ++ [[]] else leave path
      else if isSingleDot s then if isLast then path ++ [[]] else path
      else if path.isEmpty && isDriveLetter s then path ++ [[s.headD ' ', ':']]
      else path ++ [encode encodedInPath s]
    walk path rest

/-- Cut a path into the parts between slashes. -/
def splitSlashes : List Char → List (List Char)
  | [] => [[]]
  | c :: s =>
    if isSlash c then [] :: splitSlashes s
    else
      match splitSlashes s with
      | [] => [[c]]
      | first :: rest => (c :: first) :: rest

/-- The URL of a `file` scheme with this host and the text behind it. -/
def fileUrl (host? : Option (List Char)) (s : List Char) : Url :=
  let (path, behind) := s.span fun c => c != '?' && c != '#'
  let (query?, behind) :=
    match behind with
    | '?' :: rest =>
      let (q, rest) := rest.span (· != '#')
      (some (encode encodedInQuery q), rest)
    | rest => (none, rest)
  let fragment? :=
    match behind with
    | '#' :: rest => some (encode encodedInFragment rest)
    | _ => none
  let path :=
    match path with
    | c :: rest => if isSlash c then rest else path
    | [] => []
  { scheme := "file", host?, segments := walk [] (splitSlashes path), query?, fragment? }

/-- Read what follows `file:`. -/
def parseFile? (s : List Char) : Option Url :=
  match s with
  | a :: b :: rest =>
    if isSlash a && isSlash b then
      let (host, behind) := rest.span fun c => !isSlash c && c != '?' && c != '#'
      if host.isEmpty then some (fileUrl none behind)
      else if isDriveLetter host then some (fileUrl none rest)
      else if isHost host then
        if Text.asciiLowercase (String.ofList host) == "localhost" then some (fileUrl none behind)
        else some (fileUrl (some host) behind)
      else none
    else some (fileUrl none s)
  | s => some (fileUrl none s)

/-! ## Reading and writing -/

/-- May the character stand in a scheme after the first one? -/
def isSchemeChar (c : Char) : Bool := c.isAlphanum || c == '+' || c == '-' || c == '.'

/-- Drop the controls and blanks at both ends, and the line breaks and tabs anywhere. -/
def clean (s : List Char) : List Char :=
  let edge (c : Char) : Bool := c.toNat ≤ 0x20
  (((s.dropWhile edge).reverse.dropWhile edge).reverse).filter fun c =>
    !(c == '\t' || c == '\n' || c == '\r')

/-- Read a URL. -/
def parse? (text : String) : Option Url :=
  let s := clean text.toList
  let (scheme, rest) := s.span isSchemeChar
  match scheme, rest with
  | first :: _, ':' :: rest =>
    if !first.isAlpha then none
    else
      let scheme := Text.asciiLowercase (String.ofList scheme)
      if scheme == "file" then parseFile? rest
      else if knownSchemes.contains scheme then
        let rest := rest.dropWhile isSlash
        let authority := rest.takeWhile fun c => !isSlash c && c != '?' && c != '#'
        (authorityHost? true authority).map fun host => { scheme, host? := some host }
      else
        match rest with
        | '/' :: '/' :: rest =>
          let authority := rest.takeWhile fun c => c != '/' && c != '?' && c != '#'
          (authorityHost? false authority).map fun host =>
            { scheme, host? := if host.isEmpty then none else some host }
        | _ => some { scheme, host? := none }
  | _, _ => none

/-- The written form of a `file` URL. -/
def renderFile (u : Url) : String :=
  let path := u.segments.flatMap fun s => '/' :: s
  let part (mark : Char) (p? : Option (List Char)) : List Char :=
    match p? with
    | some p => mark :: p
    | none => []
  String.ofList ("file://".toList ++ u.host?.getD [] ++ path ++ part '?' u.query? ++
    part '#' u.fragment?)

/-- The path of the file that a `file` URL without a host names, where it is a text. -/
def filePath? (u : Url) : Option String :=
  let path := u.segments.flatMap fun s => '/' :: s
  match Text.decodeUtf8 (decodeBytes path) with
  | .ok path => some path
  | .error _ => none

end Url

end Wiring
