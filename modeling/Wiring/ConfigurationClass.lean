import Wiring.Candidate
import Wiring.Problem

/-!
# Configuration classes

What is gathered about a configuration class: how it came in, and the bean methods, resources and
registrars it brings.
-/

namespace Wiring

/-- A resource with definitions, and who reads it. -/
structure ImportedResource where
  location : String
  reader? : Option String
deriving DecidableEq, Repr, Inhabited

/-- A registrar, and the class whose annotation names it. -/
structure RegistrarBinding where
  className : String
  definitions : List (String × String)
  importing : String
deriving DecidableEq, Repr, Inhabited

/-- A configuration class. -/
structure ConfigurationClass where
  decl : ClassDecl
  beanName? : Option String := none
  importedBy : List String := []
  beanMethods : List MethodDecl := []
  importedResources : List ImportedResource := []
  registrars : List RegistrarBinding := []
deriving DecidableEq

namespace ConfigurationClass

instance : Inhabited ConfigurationClass := ⟨{ decl := default }⟩

/-- A class registered under a bean name. -/
def explicit (decl : ClassDecl) (beanName : String) : ConfigurationClass :=
  { decl, beanName? := some beanName }

/-- A class imported by another one. -/
def imported (decl : ClassDecl) (importer : String) : ConfigurationClass :=
  { decl, importedBy := [importer] }

/-- The name of the class. -/
def name (c : ConfigurationClass) : String := c.decl.name

/-- Did the class come in by an import? -/
def isImported (c : ConfigurationClass) : Bool := !c.importedBy.isEmpty

/-- The kind of the class. -/
def kind? (c : ConfigurationClass) : Option ConfigurationKind := c.decl.configurationKind?

/-- Append the names that are not there yet. -/
def mergeNames (names : List String) : List String → List String
  | [] => names
  | n :: rest => mergeNames (if n ∈ names then names else names ++ [n]) rest

/-- Add the importers of another class. -/
def mergeImporters (c other : ConfigurationClass) : ConfigurationClass :=
  { c with importedBy := mergeNames c.importedBy other.importedBy }

/-- What is wrong with a class whose bean methods go through the container: it or one of these
methods cannot be overridden. -/
def problems (c : ConfigurationClass) : List Problem :=
  if c.kind? != some .full then []
  else
    (if c.decl.isFinal then
      [Problem.invalidConfiguration c.name
        s!"Configuration class '{c.decl.simpleName}' may not be final"]
    else []) ++
    (c.beanMethods.filter fun m => !m.isStatic && (m.isFinal || m.isPrivate)).map fun m =>
      Problem.invalidConfiguration c.name
        (s!"Bean method '{m.name}' must not be private or final; " ++
          "change the method's modifiers to continue")

@[simp] theorem isImported_explicit (decl : ClassDecl) (beanName : String) :
    (explicit decl beanName).isImported = false := rfl

@[simp] theorem isImported_imported (decl : ClassDecl) (importer : String) :
    (imported decl importer).isImported = true := rfl

@[simp] theorem name_mergeImporters (c other : ConfigurationClass) :
    (c.mergeImporters other).name = c.name := rfl

end ConfigurationClass

end Wiring
