import Wiring.Descriptor
import Wiring.Metadata.Reader
import Wiring.Plugin
import Wiring.Resource

/-!
# What a resolution works with

A context holds what a resolution reads: classes, resources, plugin classes and settings. A world
holds what it changes: the environment and the registry.
-/

namespace Wiring

/-- What a resolution reads. -/
structure Context where
  reader : Reader
  resources : ResourceLoader
  plugins : PluginCatalogue
  settings : Settings

/-- What a resolution changes. -/
structure World where
  environment : Environment := {}
  registry : Registry := {}

instance : Inhabited World := ⟨{}⟩

namespace Context

/-- All parts of the context, which plugin classes may ask for. -/
def available : List Dependency := [.environment, .resourceLoader, .registry]

/-- Make an instance of a plugin class from all parts of the context. -/
def instantiate (c : Context) (name : String) : Except Error Plugin :=
  c.plugins.instantiate name available

/-- A plugin class that turns out to do something else than what it is used for. -/
def mismatch (name : String) (expected : String) (found : Plugin) : Error :=
  .instantiation name s!"expected {expected}, found {found.capability.display}"

/-- The name of the source with the properties of the descriptor. -/
def descriptorProperties : String := "descriptorProperties"

/-- The environment of a descriptor. -/
def environmentOf (spec : EnvironmentSpec) (exported : Table String) : Environment :=
  let env : Environment :=
    { activeProfiles := spec.activeProfiles
      defaultProfiles := spec.defaultProfiles?.getD [defaultProfile] }
  let flat := spec.flatProperties
  let env := if flat.isEmpty then env else env.withProperties descriptorProperties flat
  if spec.includesSystemEnvironment then env.withProperties systemEnvironmentName exported
  else env

/-- The resources of a descriptor in a directory. -/
def resourcesOf (d : Descriptor) (directory : String) (files : FileTree) : ResourceLoader :=
  let base :=
    match d.resources? with
    | some path => FileTree.join directory path
    | none => directory
  d.inlineResources.toList.foldl (fun l (location, text) => l.add location text.toUTF8.toList)
    { fallback? := some { base, files } }

/-- The definitions of the roots. -/
def registerRoots (d : Descriptor) : Except Error Registry :=
  d.roots.foldlM (fun r root => r.register root.beanName (.ofClass root.className .root))
    { allowsOverriding := d.settings.allowsOverriding }

/-- The context and the world of a descriptor in a directory. -/
def ofDescriptor (d : Descriptor) (directory : String) (files : FileTree)
    (exported : Table String) : Except Error (Context × World) := do
  let registry ← registerRoots d
  pure
    ({ reader := ⟨Catalogue.ofClasses d.classes d.methodOrders, d.settings.foundational⟩
       resources := resourcesOf d directory files
       plugins := (d.plugins.map PluginSpec.toClass).foldl PluginCatalogue.add .builtin
       settings := d.settings },
      { environment := environmentOf d.environment exported, registry })

end Context

end Wiring
