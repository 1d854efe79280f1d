/-!
# File trees

The files that locations may name, under absolute paths, and a working directory. A directory exists
if it is on the way to a file or to the working directory.
-/

namespace Wiring

/-- Files under absolute paths, and the working directory. -/
structure FileTree where
  workingDirectory : List String
  files : List (List String × List UInt8)

namespace FileTree

instance : Inhabited FileTree := ⟨⟨[], []⟩⟩

/-- Is there a directory at this path? -/
def isDirectory (t : FileTree) (path : List String) : Bool :=
  path.isPrefixOf t.workingDirectory ||
    t.files.any fun (file, _) => path.length < file.length && path.isPrefixOf file

/-- Walk along the parts of a path. Every part but the first starts in a directory that exists. -/
def walk (t : FileTree) (path : List String) : List String → Option (List String)
  | [] => some path
  | part :: rest =>
    if !t.isDirectory path then none
    else if part.isEmpty || part == "." then walk t path rest
    else if part == ".." then walk t path.dropLast rest
    else walk t (path ++ [part]) rest

/-- Is this an absolute path? -/
def isAbsolute (path : String) : Bool := path.toList.head? == some '/'

/-- The path that a text names, if the directories along it exist. -/
def locate? (t : FileTree) (path : String) : Option (List String) :=
  let parts := (path.toList.splitOn '/').map String.ofList
  t.walk (if isAbsolute path then [] else t.workingDirectory) parts

/-- The content of the file that a text names. -/
def read? (t : FileTree) (path : String) : Option (List UInt8) :=
  if path.isEmpty then none else (t.locate? path).bind fun p => t.files.lookup p

/-- A path that starts at a base, unless it is absolute. -/
def join (base path : String) : String :=
  if isAbsolute path || base.isEmpty then path
  else if base.toList.getLast? == some '/' then base ++ path
  else s!"{base}/{path}"

/-- Cut a path into its beginning, which is a slash, a point or nothing, and the parts after it. -/
def cutParts (path : String) : List Char × List (List Char) :=
  let (start, body) :=
    match path.toList with
    | '/' :: body => (['/'], body)
    | ['.'] => (['.'], [])
    | '.' :: '/' :: body => (['.'], '/' :: body)
    | body => ([], body)
  (start, trim (body.splitOn '/'))
where
  /-- Parts without those at the end that lead nowhere. -/
  trim (parts : List (List Char)) : List (List Char) :=
    (parts.reverse.dropWhile fun part => part.isEmpty || part == ['.']).reverse

/-- The last part of a path, unless it leads back. -/
def fileName? (path : String) : Option String :=
  match (cutParts path).2.getLast? with
  | some ['.', '.'] => none
  | part? => part?.map String.ofList

/-- The directory that a path is in, `.` where it is not told. -/
def parent (path : String) : String :=
  let (start, parts) := cutParts path
  let directory := start ++ List.intercalate ['/'] (cutParts.trim parts.dropLast)
  if parts.isEmpty || directory.isEmpty then "." else String.ofList directory

end FileTree

end Wiring
