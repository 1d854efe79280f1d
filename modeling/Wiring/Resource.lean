import Wiring.Error
import Wiring.Resource.FileTree
import Wiring.Resource.Url
import Wiring.Table
import Wiring.Text.Blank
import Wiring.Text.Name

/-!
# Resources

What a location leads to: a resource given by its text, or a file, named by a path or by a URL.
-/

namespace Wiring

/-- The content found at a location. -/
structure Resource where
  location : String
  description : String
  content : List UInt8
deriving DecidableEq, Repr, Inhabited

namespace Resource

/-- What follows the last point of the last part of a location, in lower case. -/
def extension? (r : Resource) : Option String :=
  let fileName := Text.afterLast (fun c => c == '/' || c == ':') r.location.toList
  (Text.cutLast (· == '.') fileName).map fun (_, extension) =>
    Text.asciiLowercase (String.ofList extension)

/-- The text of a resource in an encoding, by default UTF-8. -/
def text (r : Resource) (encoding? : Option String) : Except Error String :=
  let name := encoding?.map fun e =>
    String.ofList ((Text.trim e.toList).map fun c => if c == '_' then '-' else c.toUpper)
  let utf8 : Except Error String :=
    match Text.decodeUtf8 r.content with
    | .ok text => .ok text
    | .error fault => .error (.propertySource r.location s!"invalid UTF-8: {fault.message}")
  match name with
  | none => utf8
  | some name =>
    if ["", "UTF-8", "UTF8"].contains name then utf8
    else if ["ISO-8859-1", "LATIN1", "LATIN-1"].contains name then
      .ok (Text.decodeLatin1 r.content)
    else .error (.unsupportedEncoding r.location (encoding?.getD ""))

end Resource

/-- The beginning of locations on the class path. -/
def classPathScheme : List Char := "classpath:".toList

/-- Drop the slashes in front. -/
def dropSlashes (s : List Char) : List Char := s.dropWhile (· == '/')

/-- Reads the files of a tree; relative locations start at a base. -/
structure FileLoader where
  base : String
  files : FileTree

namespace FileLoader

/-- Read a file. -/
def read (l : FileLoader) (location path description : String) : Except Error Resource :=
  match l.files.read? path with
  | some content => .ok { location, description, content }
  | none => .error (.resourceNotFound location)

/-- Does a text contain another one? -/
def isInfix (part : List Char) : List Char → Bool
  | [] => part.isEmpty
  | c :: s => part.isPrefixOf (c :: s) || isInfix part s

/-- Read what a URL names. -/
def getUrl (l : FileLoader) (location : String) : Except Error Resource :=
  match Url.parse? location with
  | none => .error (.url "not a URL")
  | some u =>
    if u.scheme == "file" then
      if u.host?.isSome then .error (.unsupportedLocation location)
      else
        match u.filePath? with
        | some path => l.read location path s!"URL [{u.renderFile}]"
        | none => .error (.resourceNotFound location)
    else if u.host?.isSome then .error (.unsupportedLocation location)
    else .error (.unknownHost location "")

/-- Read what a location names. -/
def get (l : FileLoader) (location : String) : Except Error Resource :=
  let chars := location.toList
  match classPathScheme.isPrefixOf? chars with
  | some rest =>
    let relative := String.ofList (dropSlashes rest)
    l.read location (FileTree.join l.base relative) s!"class path resource [{relative}]"
  | none =>
    if isInfix "://".toList chars || "file:".toList.isPrefixOf chars then l.getUrl location
    else
      let path := FileTree.join l.base location
      l.read location path s!"file [{path}]"

end FileLoader

/-- Resources given by their content, and perhaps files for all other locations. -/
structure ResourceLoader where
  inline : Table (List UInt8) := Table.empty
  fallback? : Option FileLoader := none

namespace ResourceLoader

/-- The key of a location: without the class path scheme and the slashes in front. -/
def key (location : String) : String :=
  let chars := location.toList
  String.ofList (dropSlashes ((classPathScheme.isPrefixOf? chars).getD chars))

/-- Add a resource, in place of an earlier one with the same key. -/
def add (l : ResourceLoader) (location : String) (content : List UInt8) : ResourceLoader :=
  { l with inline := l.inline.insert (key location) content }

/-- Find what a location names. -/
def get (l : ResourceLoader) (location : String) : Except Error Resource :=
  match l.inline.get? (key location), l.fallback? with
  | some content, _ =>
    .ok { location, description := s!"in-memory resource [{key location}]", content }
  | none, some files => files.get location
  | none, none => .error (.resourceNotFound location)

end ResourceLoader

end Wiring
