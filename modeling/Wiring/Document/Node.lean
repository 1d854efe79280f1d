import Wiring.Table

/-!
# Documents

A document as it is read, before anything is known of what it describes: scalars, lists and
records, with the fields of a record in their order and repeated ones kept. A `Value` is what is
left of it when the fields of a record are a table.
-/

namespace Wiring.Document

/-- A single value. -/
inductive Scalar where
  | null
  | bool (value : Bool)
  | int (value : Int)
  | float (value : Float)
  | text (value : String)
deriving Repr, Inhabited

/-- A document as it is written. -/
inductive Node where
  | scalar (value : Scalar)
  /-- A scalar that may be read as the text it is written with; what it means otherwise may be
  nothing that exists. -/
  | loose (text : String) (meaning? : Option Scalar)
  | list (items : List Node)
  | record (fields : List (String × Node))
  /-- A node with a type of its own, which only a reader that looks through it understands. -/
  | tagged (tag : String) (content : Node)
deriving Repr, Inhabited

namespace Node

/-- The absent value. -/
def null : Node := .scalar .null

/-- A truth value. -/
def bool (b : Bool) : Node := .scalar (.bool b)

/-- A whole number. -/
def int (i : Int) : Node := .scalar (.int i)

/-- A text. -/
def text (s : String) : Node := .scalar (.text s)

/-- An optional node, the absent value standing for none. -/
def ofOption (n? : Option Node) : Node := n?.getD null

/-- A node where a text is asked for. -/
def text? : Node → Option String
  | scalar (.text s) => some s
  | loose s _ => some s
  | tagged _ n => n.text?
  | _ => none

/-- A list of texts. -/
def texts (xs : List String) : Node := .list (xs.map text)

end Node

/-- A document whose records are tables. -/
inductive Value where
  | null
  | bool (value : Bool)
  | int (value : Int)
  | float (value : Float)
  | text (value : String)
  | list (items : List Value)
  | record (fields : List (String × Value))
deriving Repr, Inhabited

/-- The value of a scalar. A number without a finite value is none. -/
def Scalar.toValue : Scalar → Value
  | null => .null
  | bool b => .bool b
  | int i => .int i
  | float x => if x.isFinite then .float x else .null
  | text s => .text s

/-- Integers that a value can hold: those of 64 bits, with or without a sign. -/
def isWord (i : Int) : Bool := -(Nat.pow 2 63 : Int) ≤ i && i < Nat.pow 2 64

/-- The value of a scalar, if it holds a number of at most 64 bits. -/
def Scalar.toValue? (s : Scalar) : Option Value :=
  match s with
  | int i => if isWord i then some s.toValue else none
  | s => some s.toValue

/-- Put the fields of a record in order; of repeated ones the last counts. -/
def orderFields {β : Type} (fields : List (String × β)) : List (String × β) :=
  (Table.ofList fields).toList

mutual

/-- The value that a node stands for, if it stands for one. -/
def Node.toValue? : Node → Option Value
  | .scalar s => s.toValue?
  | .loose _ meaning? => meaning?.bind Scalar.toValue?
  | .list items => (toValues? items).map .list
  | .record fields => (toFields? fields).map fun fs => .record (orderFields fs)
  | .tagged .. => none

/-- The values of nodes. -/
def toValues? : List Node → Option (List Value)
  | [] => some []
  | n :: rest => do
    let v ← n.toValue?
    let vs ← toValues? rest
    pure (v :: vs)

/-- The values of fields. -/
def toFields? : List (String × Node) → Option (List (String × Value))
  | [] => some []
  | (k, n) :: rest => do
    let v ← n.toValue?
    let vs ← toFields? rest
    pure ((k, v) :: vs)

end

end Wiring.Document
