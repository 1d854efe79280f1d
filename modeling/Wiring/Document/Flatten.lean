import Wiring.Decimal.Notation
import Wiring.Document.Node

/-!
# Flattened documents

A document becomes properties: one per scalar, under the path that leads to it. Field names are
joined by points, and list positions stand in brackets.
-/

namespace Wiring.Document

/-- The path of a field. -/
def fieldPath (path field : String) : String :=
  if path.isEmpty then field else s!"{path}.{field}"

/-- The path of a list item. -/
def itemPath (path : String) (index : Nat) : String := s!"{path}[{index}]"

mutual

/-- The scalars of a document with their paths, in the order of the document. -/
def Value.leaves (path : String) : Value → List (String × String)
  | .list items => itemLeaves path 0 items
  | .record fields => fieldLeaves path fields
  | .null => [(path, "")]
  | .bool b => [(path, if b then "true" else "false")]
  | .int i => [(path, toString i)]
  | .float x => [(path, Decimal.renderFloat x)]
  | .text s => [(path, s)]

/-- The scalars of list items, the first of which has this index. -/
def itemLeaves (path : String) (index : Nat) : List Value → List (String × String)
  | [] => []
  | v :: rest => v.leaves (itemPath path index) ++ itemLeaves path (index + 1) rest

/-- The scalars of fields. -/
def fieldLeaves (path : String) : List (String × Value) → List (String × String)
  | [] => []
  | (name, v) :: rest => v.leaves (fieldPath path name) ++ fieldLeaves path rest

end

/-- Add the scalars of a document to properties; of two with the same path the later one stays. -/
def Value.flattenInto (path : String) (v : Value) (properties : Table String) : Table String :=
  (v.leaves path).foldl (fun t e => t.insert e.1 e.2) properties

/-- The properties of a document. -/
def Value.flatten (v : Value) (path : String) : Table String := v.flattenInto path Table.empty

end Wiring.Document
