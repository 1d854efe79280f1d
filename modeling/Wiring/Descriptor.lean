import Wiring.Document.Flatten
import Wiring.Metadata.Class
import Wiring.Plugin
import Wiring.Text.LetterCase

/-!
# Descriptors

A descriptor says everything that a resolution starts from: settings, the environment, resources,
the classes, the roots among them, and plugin classes.
-/

namespace Wiring

/-- What is done about problems: stop at the first one, or collect them. -/
inductive ProblemPolicy where
  | failFast
  | lenient
deriving DecidableEq, Repr, Inhabited

/-- The settings of a resolution. -/
structure Settings where
  problemPolicy : ProblemPolicy := .failFast
  foundational : List String := ["java.", "javax."]
  maxImportDepth : Nat := 256
  allowsOverriding : Bool := true
deriving DecidableEq, Repr, Inhabited

/-- The environment that a descriptor asks for. -/
structure EnvironmentSpec where
  activeProfiles : List String := []
  defaultProfiles? : Option (List String) := none
  /-- Documents under names, in order of the names. -/
  properties : List (String × Document.Value) := []
  includesSystemEnvironment : Bool := false
deriving Inhabited

/-- The properties, flattened. -/
def EnvironmentSpec.flatProperties (e : EnvironmentSpec) : Table String :=
  e.properties.foldl (fun t p => p.2.flattenInto p.1 t) Table.empty

/-- A class to start from, perhaps with the name of its bean. -/
inductive RootSpec where
  | ofClass (className : String)
  | named (className : String) (name? : Option String)
deriving DecidableEq, Repr, Inhabited

namespace RootSpec

/-- The class of a root. -/
def className : RootSpec → String
  | ofClass c => c
  | named c _ => c

/-- The bean name of a root; by default it is made from the name of the class. -/
def beanName : RootSpec → String
  | named _ (some name) => name
  | root => String.ofList (Text.decapitalize (Text.simpleName root.className).toList)

end RootSpec

/-- A declared plugin class. -/
inductive PluginSpec where
  | selector (className : String) (imports : List String)
  | deferredSelector (className : String) (imports : List String) (group? : Option String)
      (order? : Option Int) (priority : Bool)
  | registrar (className : String) (definitions : List (String × String))
  | group (className : String) (strategy : GroupStrategy)
  | condition (className : String) (outcome? : Option Bool) (property? having? : Option String)
      (phase? : Option Phase) (order? : Option Int) (priority : Bool)
deriving DecidableEq, Repr

namespace PluginSpec

/-- The name of a declared plugin class. -/
def className : PluginSpec → String
  | selector c _ => c
  | deferredSelector c .. => c
  | registrar c _ => c
  | group c _ => c
  | condition c .. => c

/-- The precedence of a declared order. -/
def precedence (order? : Option Int) (priority : Bool) : Precedence :=
  if priority then .priority (order?.getD lowestPrecedence) else .ofValue? order?

/-- A plugin class that can do with and without the environment. -/
def withEnvironment (name : String) (capability : Capability) (build : Bool → Plugin) :
    PluginClass :=
  { name, capability
    constructors :=
      [⟨[], fun _ => .ok (build false)⟩,
        ⟨[.environment], fun given => .ok (build (given.contains .environment))⟩] }

/-- The plugin class that is declared. -/
def toClass : PluginSpec → PluginClass
  | selector c imports =>
    withEnvironment c .selector fun expands => .selector { imports, expands }
  | deferredSelector c imports group? order? priority =>
    withEnvironment c .deferredSelector fun expands =>
      .deferredSelector { imports, expands, group?, precedence := precedence order? priority }
  | registrar c definitions => .simple c (.registrar definitions)
  | group c strategy => .simple c (.group strategy)
  | condition c outcome? property? having? phase? order? priority =>
    .simple c
      (.condition (.declared outcome? property? having? phase? (precedence order? priority)))

end PluginSpec

/-- Everything that a resolution starts from. -/
structure Descriptor where
  settings : Settings := {}
  environment : EnvironmentSpec := {}
  /-- The directory of the resources. -/
  resources? : Option String := none
  /-- Resources given by their text. -/
  inlineResources : Table String := Table.empty
  roots : List RootSpec := []
  classes : List ClassDecl := []
  methodOrders : Table (List String) := Table.empty
  plugins : List PluginSpec := []
deriving Inhabited

namespace Descriptor

/-- The first element that an earlier one equals. -/
def firstRepeated : List String → List String → Option String
  | _, [] => none
  | seen, x :: rest => if x ∈ seen then some x else firstRepeated (x :: seen) rest

/-- The first fault among the classes: one without a name, or a repeated one. -/
def classFault? : List String → List ClassDecl → Option Error
  | _, [] => none
  | seen, c :: rest =>
    if c.name.isEmpty then
      some (.descriptor "Class entry without a name"
        (some "Every entry under 'classes' needs a 'name'"))
    else if c.name ∈ seen then
      some (.descriptor s!"Class '{c.name}' is declared more than once"
        (some "Merge the duplicate entries under 'classes'"))
    else classFault? (c.name :: seen) rest

/-- The first thing in a descriptor that makes no sense. -/
def fault? (d : Descriptor) : Option Error :=
  classFault? [] d.classes <|>
    (if d.roots.any (·.className.isEmpty) then
      some (.descriptor "Root entry without a class name" none)
    else none) <|>
    ((firstRepeated [] (d.plugins.map (·.className))).map fun name =>
      .descriptor s!"Plugin '{name}' is declared more than once"
        (some "Each plugin class may be declared once")) <|>
    if d.settings.maxImportDepth = 0 then
      some (.descriptor "max_import_depth must be at least 1" none)
    else none

end Descriptor

end Wiring
