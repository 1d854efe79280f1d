import Wiring.Descriptor.Decode

/-!
# Encoding descriptors

A descriptor is written as a document with every field it has, so that decoding the document gives
the descriptor back.
-/

namespace Wiring.Document

mutual

/-- A value as a document. -/
def Value.toNode : Value → Node
  | .null => .null
  | .bool b => .bool b
  | .int i => .int i
  | .float x => .scalar (.float x)
  | .text s => .text s
  | .list items => .list (valueNodes items)
  | .record fields => .record (fieldNodes fields)

/-- Values as documents. -/
def valueNodes : List Value → List Node
  | [] => []
  | v :: rest => v.toNode :: valueNodes rest

/-- Fields as fields of a document. -/
def fieldNodes : List (String × Value) → List (String × Node)
  | [] => []
  | (name, v) :: rest => (name, v.toNode) :: fieldNodes rest

end

namespace Node

/-- An optional text. -/
def ofText? (text? : Option String) : Node := ofOption (text?.map text)

/-- An optional whole number. -/
def ofInt? (value? : Option Int) : Node := ofOption (value?.map int)

/-- The name among alternatives that stands for a value. -/
def ofOne {α : Type} [DecidableEq α] (alternatives : List (String × α)) (a : α) : Node :=
  ofOption ((alternatives.find? (·.2 = a)).map fun (name, _) => text name)

/-- A table, each value encoded. -/
def ofTable {α : Type} (encode : α → Node) (t : Table α) : Node :=
  record (t.toList.map fun (name, a) => (name, encode a))

end Node

end Wiring.Document

namespace Wiring

open Document

/-- An attribute as a document. -/
def Attribute.toNode : Attribute → Node
  | bool b => Node.bool b
  | int i => Node.int i
  | text s => Node.text s
  | list ss => Node.texts ss

/-- An annotation as a document. -/
def Annotation.toNode (a : Annotation) : Node :=
  .record [("type", Node.text a.type), ("attributes", Node.ofTable Attribute.toNode a.attributes)]

/-- The fields of a method, with its declared annotations. -/
def MethodDecl.fields (m : MethodDecl) : List (String × Node) :=
  [("name", Node.text m.name), ("declaring_class", Node.text m.declaringClass),
    ("annotations", .list (m.marks.declared.map Annotation.toNode)),
    ("abstract", Node.bool m.isAbstract), ("static", Node.bool m.isStatic),
    ("final", Node.bool m.isFinal), ("private", Node.bool m.isPrivate),
    ("return_type", Node.ofText? m.returnType?)]

/-- The fields of a class, with its declared annotations and without its methods. -/
def ClassDecl.fields (c : ClassDecl) : List (String × Node) :=
  [("name", Node.text c.name), ("kind", Node.ofOne Descriptor.classKinds c.kind),
    ("final", Node.bool c.isFinal), ("superclass", Node.ofText? c.superclass?),
    ("interfaces", Node.texts c.interfaces), ("member_classes", Node.texts c.memberClasses),
    ("annotations", .list (c.marks.declared.map Annotation.toNode)),
    ("introspection", Node.ofOne Descriptor.introspections c.introspection)]

/-- A class as a document. -/
def ClassDecl.toNode (c : ClassDecl) : Node :=
  .record (c.fields ++ [("methods", .list (c.methods.map fun m => .record m.fields))])

/-- A root as a document. -/
def RootSpec.toNode : RootSpec → Node
  | ofClass className => Node.text className
  | named className name? =>
    .record [("class", Node.text className), ("name", Node.ofText? name?)]

namespace PluginSpec

/-- The kind of a declared plugin class. -/
def kind : PluginSpec → String
  | selector .. => "selector"
  | deferredSelector .. => "deferred_selector"
  | registrar .. => "registrar"
  | group .. => "group"
  | condition .. => "condition"

/-- The fields of a declared plugin class beside its kind and its name. -/
def details : PluginSpec → List (String × Node)
  | selector _ imports => [("imports", Node.texts imports)]
  | deferredSelector _ imports group? order? priority =>
    [("imports", Node.texts imports), ("group", Node.ofText? group?),
      ("order", Node.ofInt? order?), ("priority", Node.bool priority)]
  | registrar _ definitions =>
    [("definitions",
      .list (definitions.map fun (name, className) =>
        .record [("name", Node.text name), ("class", Node.text className)]))]
  | group _ strategy => [("strategy", Node.ofOne Descriptor.strategies strategy)]
  | condition _ outcome? property? having? phase? order? priority =>
    [("matches", Node.ofOption (outcome?.map Node.bool)), ("property", Node.ofText? property?),
      ("having_value", Node.ofText? having?),
      ("phase", Node.ofOption (phase?.map (Node.ofOne Descriptor.phases))),
      ("order", Node.ofInt? order?), ("priority", Node.bool priority)]

/-- A declared plugin class as a document. -/
def toNode (p : PluginSpec) : Node :=
  .record (("kind", Node.text p.kind) :: ("class", Node.text p.className) :: p.details)

end PluginSpec

/-- Settings as a document. -/
def Settings.toNode (s : Settings) : Node :=
  .record
    [("problem_policy", Node.ofOne Descriptor.policies s.problemPolicy),
      ("foundational_prefixes", Node.texts s.foundational),
      ("max_import_depth", Node.int s.maxImportDepth),
      ("allow_definition_overriding", Node.bool s.allowsOverriding)]

/-- The environment of a descriptor as a document. -/
def EnvironmentSpec.toNode (e : EnvironmentSpec) : Node :=
  .record
    [("active_profiles", Node.texts e.activeProfiles),
      ("default_profiles", Node.ofOption (e.defaultProfiles?.map Node.texts)),
      ("properties", .record (fieldNodes e.properties)),
      ("include_system_environment", Node.bool e.includesSystemEnvironment)]

/-- A descriptor as a document. -/
def Descriptor.toNode (d : Descriptor) : Node :=
  .record
    [("settings", d.settings.toNode), ("environment", d.environment.toNode),
      ("resources", Node.ofText? d.resources?),
      ("resources_inline", Node.ofTable Node.text d.inlineResources),
      ("roots", .list (d.roots.map RootSpec.toNode)),
      ("classes", .list (d.classes.map ClassDecl.toNode)),
      ("method_order", Node.ofTable Node.texts d.methodOrders),
      ("plugins", .list (d.plugins.map PluginSpec.toNode))]

end Wiring
