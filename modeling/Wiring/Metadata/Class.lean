import Wiring.Metadata.Annotation

/-!
# Declared classes

What is known of a class without loading it: its kind, its relatives, its annotations and its
methods.
-/

namespace Wiring

/-- What a class is. -/
inductive ClassKind where
  | concrete
  | abstract
  | interface
  | annotationType
deriving DecidableEq, Repr, Inhabited

/-- How a class was read, which decides whether the declared order of its methods is known. -/
inductive Introspection where
  | structural
  | reflective
deriving DecidableEq, Repr, Inhabited

/-- A declared method. -/
structure MethodDecl where
  name : String
  declaringClass : String := ""
  marks : Marks := {}
  isAbstract : Bool := false
  isStatic : Bool := false
  isFinal : Bool := false
  isPrivate : Bool := false
  returnType? : Option String := none
deriving DecidableEq

instance : Inhabited MethodDecl := ⟨{ name := "" }⟩

namespace MethodDecl

/-- The full name of a method. -/
def displayName (m : MethodDecl) : String := s!"{m.declaringClass}.{m.name}()"

/-- The method as one of a class, unless it already belongs to one. -/
def declaredIn (m : MethodDecl) (className : String) : MethodDecl :=
  if m.declaringClass.isEmpty then { m with declaringClass := className } else m

end MethodDecl

/-- A declared class. -/
structure ClassDecl where
  name : String
  kind : ClassKind := .concrete
  isFinal : Bool := false
  superclass? : Option String := none
  interfaces : List String := []
  memberClasses : List String := []
  marks : Marks := {}
  methods : List MethodDecl := []
  introspection : Introspection := .structural
deriving DecidableEq

instance : Inhabited ClassDecl := ⟨{ name := "" }⟩

namespace ClassDecl

/-- Interfaces and annotation types are not instantiated. -/
def isInterface (c : ClassDecl) : Bool := c.kind == .interface || c.kind == .annotationType

/-- The package of the class. -/
def packageName (c : ClassDecl) : String := Text.packageName c.name

/-- The name of the class alone. -/
def simpleName (c : ClassDecl) : String := Text.simpleName c.name

/-- The methods with an annotation of this type. -/
def methodsWith (c : ClassDecl) (type : String) : List MethodDecl :=
  c.methods.filter (·.marks.has type)

/-- Has a method an annotation of this type? -/
def hasMethodWith (c : ClassDecl) (type : String) : Bool :=
  c.methods.any (·.marks.has type)

end ClassDecl

/-- Something that annotations stand on. -/
inductive Element where
  | ofClass (c : ClassDecl)
  | ofMethod (m : MethodDecl)

namespace Element

/-- The annotations of an element. -/
def marks : Element → Marks
  | ofClass c => c.marks
  | ofMethod m => m.marks

end Element

end Wiring
