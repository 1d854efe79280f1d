import Wiring.Error
import Wiring.Metadata.Vocabulary

/-!
# Reading classes

A catalogue holds the classes that are known. Reading one of them adds what its annotation types
are annotated with, and so on, as far as those types are known and not foundational.
-/

namespace Wiring

/-- The known classes, and the declared order of the methods of some of them. -/
structure Catalogue where
  classes : Table ClassDecl := Table.empty
  methodOrders : Table (List String) := Table.empty

namespace Catalogue

/-- Add a class, in place of an earlier one of the same name. -/
def add (c : Catalogue) (decl : ClassDecl) : Catalogue :=
  let decl := { decl with methods := decl.methods.map (·.declaredIn decl.name) }
  { c with classes := c.classes.insert decl.name decl }

/-- The catalogue of the given classes and the annotation types of the vocabulary. -/
def ofClasses (decls : List ClassDecl) (methodOrders : Table (List String)) : Catalogue :=
  (vocabulary ++ decls).foldl add { methodOrders }

/-- The names of the known classes, in order. -/
def names (c : Catalogue) : List String := c.classes.names

/-- The number of annotations declared on known classes. -/
def annotationCount (c : Catalogue) : Nat :=
  (c.classes.toList.map fun e => e.2.marks.declared.length).foldl (· + ·) 0

end Catalogue

/-- A catalogue, and the beginnings of the names of foundational classes, which are not looked
into. -/
structure Reader where
  catalogue : Catalogue
  foundational : List String

namespace Reader

/-- Is this a foundational class? -/
def isFoundational (r : Reader) (className : String) : Bool :=
  r.foundational.any fun start => start.toList.isPrefixOf className.toList

/-- The annotations declared on an annotation type, as far as it is looked into. -/
def declaredOn (r : Reader) (type : String) : List Annotation :=
  if r.isFoundational type then []
  else ((r.catalogue.classes.get? type).map (·.marks.declared)).getD []

/-- The types among `found` that have not been met, each once. -/
def freshTypes (met : List String) : List Annotation → List String
  | [] => []
  | a :: found =>
    if a.type ∈ met then freshTypes met found else a.type :: freshTypes (a.type :: met) found

/-- Go through annotation types in the order in which they are met, and gather what they are
annotated with. -/
def gather (r : Reader) : Nat → List String → List String → List Annotation
  | 0, _, _ => []
  | _ + 1, _, [] => []
  | bound + 1, met, type :: queue =>
    let found := r.declaredOn type
    let fresh := freshTypes met found
    found ++ gather r bound (fresh ++ met) (queue ++ fresh)

/-- The annotations reached from declared ones through their types. A type is met at most once
beyond those declared, so the number of declared annotations bounds the types gone through. -/
def inheritedFrom (r : Reader) (declared : List Annotation) : List Annotation :=
  let types := declared.map (·.type)
  r.gather (types.length + r.catalogue.annotationCount + 1) types types

/-- The marks with the inherited annotations filled in. -/
def completeMarks (r : Reader) (m : Marks) : Marks :=
  { m with inherited := r.inheritedFrom m.declared }

/-- A class with the inherited annotations filled in. -/
def complete (r : Reader) (c : ClassDecl) : ClassDecl :=
  { c with
    marks := r.completeMarks c.marks
    methods := c.methods.map fun m => { m with marks := r.completeMarks m.marks } }

/-- Read a class, if it is known. -/
def read? (r : Reader) (className : String) : Option ClassDecl :=
  (r.catalogue.classes.get? className).map r.complete

/-- Read a class that must be known. -/
def read (r : Reader) (className : String) : Except Error ClassDecl :=
  match r.read? className with
  | some c => .ok c
  | none => .error (.classNotFound className)

/-- The declared order of a class's methods, if it is known. -/
def methodOrder? (r : Reader) (className : String) : Option (List String) :=
  r.catalogue.methodOrders.get? className

/-- The names of the known classes, in order. -/
def classNames (r : Reader) : List String := r.catalogue.names

end Reader

end Wiring
