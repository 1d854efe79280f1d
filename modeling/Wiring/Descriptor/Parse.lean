import Wiring.Descriptor.Decode
import Wiring.Document.Toml
import Wiring.Document.Yaml
import Wiring.Resource.FileTree
import Wiring.Text.Blank
import Wiring.Text.Utf8

/-!
# Reading descriptors

A descriptor is read in one of three formats and then checked.
-/

namespace Wiring.Descriptor

open Wiring.Document

/-- The formats of descriptors. -/
inductive Format where
  | yaml
  | json
  | toml
deriving DecidableEq, Repr, Inhabited

/-- The extension of the last part of a path, if it has one. A point in front starts no
extension. -/
def extension? (path : String) : Option String :=
  (FileTree.fileName? path).bind fun name =>
    match Text.cutLast (· == '.') name.toList with
    | some (_ :: _, extension) => some (String.ofList extension)
    | _ => none

/-- The format of the file at a path. -/
def Format.ofPath (path : String) : Format :=
  match (extension? path).map Text.asciiLowercase with
  | some "json" => .json
  | some "toml" => .toml
  | _ => .yaml

/-- Read a descriptor without checking it. -/
def read (format : Format) (text : String) : Except Error Descriptor :=
  match format with
  | .yaml =>
    if Text.isBlankText text then .ok {}
    else
      match (Yaml.parse? text).bind (ofNode? .yaml) with
      | some d => .ok d
      | none => .error (.yaml "not a descriptor")
  | .json =>
    match (Json.parse? text).bind (ofNode? .json) with
    | some d => .ok d
    | none => .error (.json "not a descriptor")
  | .toml =>
    match (Toml.parse? text).bind (ofNode? .toml) with
    | some d => .ok d
    | none => .error (.toml "not a descriptor")

/-- Read and check a descriptor. -/
def parse (format : Format) (text : String) : Except Error Descriptor := do
  let d ← read format text
  match d.fault? with
  | some fault => throw fault
  | none => pure d

/-- Read and check the descriptor in a file. -/
def ofFile (files : FileTree) (path : String) : Except Error Descriptor :=
  match files.read? path with
  | none => .error (.inputOutput "no such file")
  | some bytes =>
    match Text.decodeUtf8 bytes with
    | .ok text => parse (.ofPath path) text
    | .error fault => .error (.inputOutput fault.message)

end Wiring.Descriptor
