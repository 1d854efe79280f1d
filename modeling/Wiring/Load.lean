import Wiring.Condition
import Wiring.ConfigurationClass

/-!
# Loading definitions

The definitions that configuration classes bring are put into the registry: those of imported
classes, of bean methods and of registrars. A class is skipped if its own conditions say so, or if
all classes that import it are skipped.
-/

namespace Wiring

/-- What loading did. -/
structure LoadReport where
  registered : List String := []
  skippedClasses : List String := []
  skippedMethods : List String := []
deriving DecidableEq, Repr, Inhabited

/-- The state of loading: the registry, the report, and which classes are known to be skipped or
not. -/
structure LoadState where
  registry : Registry
  report : LoadReport := {}
  decisions : List (String × Bool) := []
deriving Inhabited

/-- A step of loading. A failure keeps the state. -/
abbrev Load (α : Type) := ExceptT Error (StateM LoadState) α

namespace Load

/-- An outcome as a step. -/
def ofExcept {α : Type} (outcome : Except Error α) : Load α :=
  match outcome with
  | .ok a => pure a
  | .error e => throw e

/-- Decide whether a class is skipped. -/
def noteDecision (name : String) (skipped : Bool) : Load Unit :=
  modify fun s => { s with decisions := (name, skipped) :: s.decisions }

/-- Put a definition into the registry. -/
def register (name : String) (definition : Definition) : Load Unit := do
  let registry ← ofExcept ((← get).registry.register name definition)
  modify ({ · with registry })

/-- Note a name that was registered. -/
def noteRegistered (names : List String) : Load Unit :=
  modify fun s => { s with report.registered := s.report.registered ++ names }

/-- Are all of these skipped? Those after one that is not are not looked at. -/
def allSkipped (skips : String → Load Bool) : List String → Load Bool
  | [] => pure true
  | name :: rest => do
    if ← skips name then allSkipped skips rest else pure false

section Classes

variable (ctx : Context) (env : Environment) (known : List ConfigurationClass)

/-- Is a class skipped? While that is being found out, the class counts as not skipped. An importer
that is not known is not skipped. -/
def skips : Nat → ConfigurationClass → Load Bool
  | 0, _ => throw (.exhausted "the search of importers")
  | bound + 1, c => do
    match (← get).decisions.lookup c.name with
    | some skipped => pure skipped
    | none => do
      noteDecision c.name false
      let unsupported ←
        if c.isImported then
          allSkipped (fun importer =>
            match known.find? (·.name == importer) with
            | some k => skips bound k
            | none => pure false) c.importedBy
        else pure false
      let skipped ←
        if unsupported then pure true
        else ofExcept (ctx.skips env (.ofClass c.decl) (some .register))
      noteDecision c.name skipped
      pure skipped

/-- The bean name of a method: the first that its annotation gives, or that of the method. -/
def beanMethodName (m : MethodDecl) : String :=
  match m.marks.first? AnnotationType.bean with
  | some a => ((a.texts "name" ++ a.texts "value").find? (!·.isEmpty)).getD m.name
  | none => m.name

/-- Put the definition of an imported class into the registry. -/
def loadImported (c : ConfigurationClass) : Load Unit := do
  register c.name (.ofClass c.name .imported)
  modify fun s => { s with registry := (s.registry.markCandidate ctx.reader c.name).2 }
  noteRegistered [c.name]

/-- Put the definition of a bean method into the registry. A definition that is there already stays,
unless a scan put it there. -/
def loadBeanMethod (c : ConfigurationClass) (factoryBean : String) (m : MethodDecl) :
    Load Unit := do
  let skipped ← ofExcept (ctx.skips env (.ofMethod m) (some .register))
  if skipped then
    modify fun s =>
      { s with report.skippedMethods := s.report.skippedMethods ++ [s!"{c.name}.{m.name}"] }
  else
    let name := beanMethodName m
    let definition := Definition.ofMethod factoryBean m.name
    let definition :=
      if m.isStatic then { definition with className? := some c.name } else definition
    match (← get).registry.get? name with
    | none => do
      register name definition
      noteRegistered [name]
    | some existing =>
      if existing.factoryBean? == some factoryBean && existing.factoryMethod? == some m.name then
        pure ()
      else if existing.origin != .scanned then
        if ctx.settings.allowsOverriding then pure () else throw (.definitionOverride name)
      else do
        register name definition
        noteRegistered [name]

/-- Put the definitions of a registrar into the registry, but for those whose names are taken. What
was registered before a failure stays. -/
def runRegistrar (r : Registry) : List (String × String) → Except Error Unit × Registry
  | [] => (.ok (), r)
  | (name, className) :: rest =>
    if r.contains name then runRegistrar r rest
    else
      match r.register name (.ofClass className .registrar) with
      | .ok r => runRegistrar r rest
      | .error e => (.error e, r)

/-- Run a registrar of a class. -/
def loadRegistrar (c : ConfigurationClass) (b : RegistrarBinding) : Load Unit := do
  let before := (← get).registry.names
  let (outcome, registry) := runRegistrar (← get).registry b.definitions
  modify ({ · with registry })
  ofExcept (outcome.mapError (Error.during
    s!"Failed to invoke registrar [{b.className}] for configuration class [{c.name}]"))
  noteRegistered (registry.names.filter (!before.contains ·))

/-- Put the definitions of a class into the registry. -/
def loadClass (c : ConfigurationClass) : Load Unit := do
  if ← skips ctx env known (known.length + 2) c then
    modify fun s =>
      { s with
        registry :=
          match c.beanName? with
          | some name => s.registry.remove name
          | none => s.registry
        report.skippedClasses := s.report.skippedClasses ++ [c.name] }
  else
    if c.beanName?.isNone && c.isImported then loadImported ctx c
    let factoryBean := c.beanName?.getD c.name
    c.beanMethods.forM (loadBeanMethod ctx env c factoryBean)
    c.registrars.forM (loadRegistrar c)

end Classes

end Load

namespace World

/-- Load the definitions of a batch of classes, of which `known` are all. What was registered before
a failure stays. -/
def load (w : World) (ctx : Context) (batch known : List ConfigurationClass) :
    Except Error LoadReport × World :=
  let (outcome, s) := (batch.forM (Load.loadClass ctx w.environment known)).run.run
    { registry := w.registry }
  (outcome.map fun _ => s.report, { w with registry := s.registry })

end World

end Wiring
