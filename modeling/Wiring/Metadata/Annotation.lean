import Wiring.Table
import Wiring.Text.Name

/-!
# Annotations

What a class or a method is marked with: annotations with attributes, either declared on it or
reached through the types of those annotations.
-/

namespace Wiring

/-- The value of an annotation's attribute. -/
inductive Attribute where
  | bool (value : Bool)
  | int (value : Int)
  | text (value : String)
  | list (values : List String)
deriving DecidableEq, Repr, Inhabited

/-- An annotation: its type, and the attributes given. -/
structure Annotation where
  type : String
  attributes : Table Attribute := Table.empty
deriving DecidableEq

namespace Annotation

/-- A text attribute. A list with one item counts as that item. -/
def text? (a : Annotation) (key : String) : Option String :=
  match a.attributes.get? key with
  | some (.text s) => some s
  | some (.list [s]) => some s
  | _ => none

/-- A text attribute that is not empty. -/
def nonEmptyText? (a : Annotation) (key : String) : Option String :=
  (a.text? key).filter (!·.isEmpty)

/-- A list attribute. A text counts as a list with one item, anything else as an empty list. -/
def texts (a : Annotation) (key : String) : List String :=
  match a.attributes.get? key with
  | some (.list ss) => ss
  | some (.text s) => [s]
  | _ => []

/-- A truth value, or the text of one. -/
def bool? (a : Annotation) (key : String) : Option Bool :=
  match a.attributes.get? key with
  | some (.bool b) => some b
  | some (.text "true") => some true
  | some (.text "false") => some false
  | _ => none

/-- A whole number of 64 bits, or the text of one. -/
def int? (a : Annotation) (key : String) : Option Int :=
  match a.attributes.get? key with
  | some (.int i) => some i
  | some (.text s) => (Text.int? s).filter (Text.fitsSigned 64)
  | _ => none

end Annotation

/-- The annotations of a class or a method: those declared on it, and those that the types of its
annotations carry in turn. -/
structure Marks where
  declared : List Annotation := []
  inherited : List Annotation := []
deriving DecidableEq

namespace Marks

/-- All annotations, the declared ones first. -/
def all (m : Marks) : List Annotation := m.declared ++ m.inherited

/-- Is there an annotation of this type? -/
def has (m : Marks) (type : String) : Bool := m.all.any (·.type == type)

/-- The first annotation of a type. -/
def first? (m : Marks) (type : String) : Option Annotation := m.all.find? (·.type == type)

/-- All annotations of a type. -/
def ofType (m : Marks) (type : String) : List Annotation := m.all.filter (·.type == type)

/-- The declared annotations of a type. -/
def declaredOfType (m : Marks) (type : String) : List Annotation :=
  m.declared.filter (·.type == type)

theorem has_iff {m : Marks} {type : String} :
    m.has type = true ↔ ∃ a ∈ m.all, a.type = type := by
  simp [has]

theorem mem_ofType {m : Marks} {type : String} {a : Annotation} :
    a ∈ m.ofType type ↔ a ∈ m.all ∧ a.type = type := by
  simp [ofType]

end Marks

end Wiring
