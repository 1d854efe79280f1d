import Wiring.Environment
import Wiring.Metadata.Vocabulary
import Wiring.Precedence
import Wiring.Registry

/-!
# Plugins

Classes that take part in a resolution by what they can do: decide conditions, select imports, now
or later, order deferred imports, register definitions, or make property sources. A plugin class has
constructors that ask for parts of the context; the one that asks for most of what is available
makes the instance.
-/

namespace Wiring

/-- The part of a resolution during which a condition may be decided. -/
inductive Phase where
  | parse
  | register
deriving DecidableEq, Repr, Inhabited

/-- What a plugin can do. -/
inductive Capability where
  | condition
  | selector
  | deferredSelector
  | registrar
  | group
  | sourceFactory
deriving DecidableEq, Repr, Inhabited

/-- The name of a capability. -/
def Capability.display : Capability → String
  | condition => "Condition"
  | selector => "ImportSelector"
  | deferredSelector => "DeferredImportSelector"
  | registrar => "ImportBeanDefinitionRegistrar"
  | group => "ImportGroup"
  | sourceFactory => "PropertySourceFactory"

/-- How the entries of a group of deferred imports are ordered. -/
inductive GroupStrategy where
  | declared
  | reverse
  | sorted
deriving DecidableEq, Repr, Inhabited

/-- A condition on the environment. -/
inductive Condition where
  /-- The profile annotations of the element are accepted. -/
  | profile
  /-- The property annotations of the element hold. -/
  | onProperty
  /-- A fixed outcome, or a property with a value. -/
  | declared (outcome? : Option Bool) (property? having? : Option String) (phase? : Option Phase)
      (precedence : Precedence)
deriving DecidableEq, Repr

/-- Names of classes to import; where `expands` is set, with placeholders. -/
structure Selection where
  imports : List String
  expands : Bool
deriving DecidableEq, Repr

/-- Names of classes to import once everything else has been gone through, perhaps as part of a
group. -/
structure DeferredSelection extends Selection where
  group? : Option String
  precedence : Precedence
deriving DecidableEq, Repr

/-- An instance of a plugin class. -/
inductive Plugin where
  | condition (c : Condition)
  | selector (s : Selection)
  | deferredSelector (s : DeferredSelection)
  /-- Definitions to register: bean names and classes. -/
  | registrar (definitions : List (String × String))
  | group (strategy : GroupStrategy)
  | sourceFactory
deriving DecidableEq, Repr

/-- What an instance can do. -/
def Plugin.capability : Plugin → Capability
  | condition _ => .condition
  | selector _ => .selector
  | deferredSelector _ => .deferredSelector
  | registrar _ => .registrar
  | group _ => .group
  | sourceFactory => .sourceFactory

/-- The classes that a selection names in an environment. -/
def Selection.names (s : Selection) (env : Environment) : Except Error (List String) :=
  if s.expands then s.imports.mapM env.expandRequired else .ok s.imports

/-- Parts of the context that a constructor may ask for. -/
inductive Dependency where
  | environment
  | resourceLoader
  | registry
deriving DecidableEq, Repr, Inhabited

/-- A constructor of a plugin class: what it asks for, and what it makes of what it gets. -/
structure Constructor where
  parameters : List Dependency
  build : List Dependency → Except Error Plugin

/-- A plugin class. -/
structure PluginClass where
  name : String
  capability : Capability
  constructors : List Constructor

namespace PluginClass

/-- The first constructor among the satisfiable ones that no later one outdoes in the number of its
parameters, with its position. -/
def choose? (p : PluginClass) (available : List Dependency) : Option (Nat × Constructor) :=
  p.constructors.zipIdx.foldl (fun chosen? (c, i) =>
    let richer := chosen?.all fun chosen => chosen.2.parameters.length < c.parameters.length
    if c.parameters.all available.contains && richer then some (i, c) else chosen?) none

/-- Make an instance from what is available; a constructor sees only what it asks for. -/
def instantiate (p : PluginClass) (available : List Dependency) : Except Error Plugin :=
  match p.choose? available with
  | none =>
    .error (.instantiation p.name "no constructor can be satisfied from the available context")
  | some (_, c) => do
    let plugin ← c.build (available.filter c.parameters.contains)
    if plugin.capability = p.capability then pure plugin
    else
      throw (.instantiation p.name
        (s!"constructor produced a {plugin.capability.display} but the class is declared as " ++
          s!"a {p.capability.display}"))

/-- A plugin class whose only constructor asks for nothing. -/
def simple (name : String) (plugin : Plugin) : PluginClass :=
  { name, capability := plugin.capability, constructors := [⟨[], fun _ => .ok plugin⟩] }

end PluginClass

/-- The plugin classes under their names. -/
structure PluginCatalogue where
  classes : Table PluginClass := Table.empty

namespace PluginCatalogue

/-- Add a plugin class, in place of an earlier one of the same name. -/
def add (c : PluginCatalogue) (p : PluginClass) : PluginCatalogue :=
  ⟨c.classes.insert p.name p⟩

/-- The plugin classes that always exist. -/
def builtin : PluginCatalogue :=
  [PluginClass.simple profileConditionClass (.condition .profile),
    PluginClass.simple onPropertyConditionClass (.condition .onProperty),
    PluginClass.simple propertySourceFactoryClass .sourceFactory].foldl add {}

/-- Is this a plugin class? -/
def contains (c : PluginCatalogue) (name : String) : Bool := c.classes.contains name

/-- What the plugin class of this name can do. -/
def capability? (c : PluginCatalogue) (name : String) : Option Capability :=
  (c.classes.get? name).map (·.capability)

/-- Make an instance of a plugin class. -/
def instantiate (c : PluginCatalogue) (name : String) (available : List Dependency) :
    Except Error Plugin :=
  match c.classes.get? name with
  | some p => p.instantiate available
  | none => .error (.classNotFound name)

end PluginCatalogue

end Wiring
