import Wiring.Descriptor
import Wiring.Document.Node

/-!
# Decoding descriptors

A document is decoded field by field. What is told apart is how strict the document's format is:
whether a record may be written as the list of its fields, and what stands for a name that is one of
a few.
-/

namespace Wiring.Document

/-- How records and names of alternatives may be written. -/
inductive Dialect where
  | json
  | yaml
  | toml
  /-- Inside a value that was read whole before it was known what it describes. -/
  | settled
deriving DecidableEq, Repr

namespace Node

/-- The node without the type it may have of its own. -/
def content : Node → Node
  | tagged _ n => n.content
  | n => n

/-- Is this a plain scalar without any text? It stands for any empty collection. -/
def isVoid : Node → Bool
  | loose "" (some .null) => true
  | _ => false

mutual

/-- The node with every scalar taken as what it means. It is none where a scalar means nothing that
exists, or a node has a type of its own. -/
def settle? : Node → Option Node
  | scalar s => some (scalar s)
  | loose _ meaning? => meaning?.map scalar
  | list items => (settleItems? items).map list
  | record fields => (settleFields? fields).map record
  | tagged .. => none

/-- `settle?` on the items of a list. -/
def settleItems? : List Node → Option (List Node)
  | [] => some []
  | n :: rest => do
    let n ← n.settle?
    let rest ← settleItems? rest
    pure (n :: rest)

/-- `settle?` on the fields of a record. -/
def settleFields? : List (String × Node) → Option (List (String × Node))
  | [] => some []
  | (k, n) :: rest => do
    let n ← n.settle?
    let rest ← settleFields? rest
    pure ((k, n) :: rest)

end

/-- A node where a truth value is asked for. -/
def bool? : Node → Option Bool
  | scalar (.bool b) => some b
  | loose _ (some (.bool b)) => some b
  | _ => none

/-- A node where a whole number is asked for. -/
def int? : Node → Option Int
  | scalar (.int i) => some i
  | loose _ (some (.int i)) => some i
  | _ => none

/-- Does the node stand for the absence of a value? -/
def isNull : Node → Bool
  | scalar .null => true
  | loose _ (some .null) => true
  | _ => false

/-- A node where an optional value is asked for. -/
def optional? {α : Type} (decode : Node → Option α) (n : Node) : Option (Option α) :=
  if n.isNull then some none else (decode n).map some

/-- A node where a list is asked for. -/
def list? {α : Type} (decode : Node → Option α) (n : Node) : Option (List α) :=
  match n.content with
  | .list items => items.mapM decode
  | n => if n.isVoid then some [] else none

/-- A node where a record with any fields is asked for. -/
def table? {α : Type} (decode : Node → Option α) (n : Node) : Option (Table α) :=
  match n.content with
  | .record fields => do
    let fields ← fields.mapM fun (k, v) => (decode v).map (k, ·)
    pure (Table.ofList fields)
  | n => if n.isVoid then some Table.empty else none

/-- A node where one of a few names is asked for. It may also be written as the only field of a
record, whose value is empty. -/
def oneOf? {α : Type} (dialect : Dialect) (alternatives : List (String × α)) (n : Node) :
    Option α :=
  match dialect, n with
  | .yaml, .tagged tag n => if n.isNull then alternatives.lookup tag else none
  | _, .record [(name, v)] =>
    let isEmpty :=
      match dialect, v with
      | .yaml, _ => false
      | .toml, .record [] => true
      | .toml, .list [] => true
      | .toml, _ => false
      | .settled, .record [] => true
      | _, v => v.isNull
    if isEmpty then alternatives.lookup name else none
  | _, n => n.text?.bind fun name => alternatives.lookup name

/-- The fields of a record of which these are known. A known field may not be repeated. Where the
dialect allows, a list stands for the fields in this order. -/
def fields? (dialect : Dialect) (known : List String) (n : Node) :
    Option (List (String × Node)) :=
  match n.content with
  | .record fields =>
    if known.any fun k => (fields.filter (·.1 == k)).length > 1 then none else some fields
  | .list items =>
    match dialect with
    | .yaml => none
    | .toml => some (known.zip items)
    | _ => if known.length < items.length then none else some (known.zip items)
  | n => if n.isVoid then some [] else none

end Node

/-- A field that must be there. -/
def required? {α : Type} (fields : List (String × Node)) (name : String)
    (decode : Node → Option α) : Option α :=
  (fields.lookup name).bind decode

/-- A field that may be left out. -/
def field? {α : Type} (fields : List (String × Node)) (name : String) (decode : Node → Option α)
    (absent : α) : Option α :=
  match fields.lookup name with
  | some n => decode n
  | none => some absent

end Wiring.Document

namespace Wiring.Descriptor

open Wiring.Document

/-- A list of texts. -/
def texts? (n : Node) : Option (List String) := n.list? Node.text?

/-- An optional text. -/
def optionalText? (n : Node) : Option (Option String) := n.optional? Node.text?

/-- A number of 32 bits with a sign. -/
def order? (n : Node) : Option Int := n.int?.filter (Text.fitsSigned 32)

/-- A number of 64 bits without a sign. -/
def size? (n : Node) : Option Nat :=
  match n.int? with
  | some i => if 0 ≤ i && i < Nat.pow 2 64 then some i.toNat else none
  | none => none

/-- The value of an attribute: a truth value, a whole number, a text, or a list of texts. -/
def attribute? (n : Node) : Option Attribute :=
  match n.settle? with
  | some (.scalar (.bool b)) => some (.bool b)
  | some (.scalar (.int i)) => if Text.fitsSigned 64 i then some (.int i) else none
  | some (.scalar (.text s)) => some (.text s)
  | some (.list items) => (items.mapM Node.text?).map .list
  | _ => none

/-- An annotation. -/
def annotation? (dialect : Dialect) (n : Node) : Option Annotation := do
  let fields ← n.fields? dialect ["type", "attributes"]
  let type ← required? fields "type" Node.text?
  let attributes ← field? fields "attributes" (Node.table? attribute?) Table.empty
  pure { type, attributes }

/-- The names of the kinds of classes. -/
def classKinds : List (String × ClassKind) :=
  [("class", .concrete), ("abstract", .abstract), ("interface", .interface),
    ("annotation", .annotationType)]

/-- The names of the ways of reading a class. -/
def introspections : List (String × Introspection) :=
  [("structural", .structural), ("reflective", .reflective)]

/-- The annotations of an element. -/
def marks? (dialect : Dialect) (n : Node) : Option Marks :=
  (n.list? (annotation? dialect)).map fun declared => { declared }

/-- A method. -/
def method? (dialect : Dialect) (n : Node) : Option MethodDecl := do
  let fields ← n.fields? dialect
    ["name", "declaring_class", "annotations", "abstract", "static", "final", "private",
      "return_type"]
  let name ← required? fields "name" Node.text?
  let declaringClass ← field? fields "declaring_class" Node.text? ""
  let marks ← field? fields "annotations" (marks? dialect) {}
  let isAbstract ← field? fields "abstract" Node.bool? false
  let isStatic ← field? fields "static" Node.bool? false
  let isFinal ← field? fields "final" Node.bool? false
  let isPrivate ← field? fields "private" Node.bool? false
  let returnType? ← field? fields "return_type" optionalText? none
  pure
    { name
      declaringClass
      marks
      isAbstract
      isStatic
      isFinal
      isPrivate
      returnType? }

/-- A class. -/
def class? (dialect : Dialect) (n : Node) : Option ClassDecl := do
  let fields ← n.fields? dialect
    ["name", "kind", "final", "superclass", "interfaces", "member_classes", "annotations",
      "methods", "introspection"]
  let name ← required? fields "name" Node.text?
  let kind ← field? fields "kind" (Node.oneOf? dialect classKinds) .concrete
  let isFinal ← field? fields "final" Node.bool? false
  let superclass? ← field? fields "superclass" optionalText? none
  let interfaces ← field? fields "interfaces" texts? []
  let memberClasses ← field? fields "member_classes" texts? []
  let marks ← field? fields "annotations" (marks? dialect) {}
  let methods ← field? fields "methods" (Node.list? (method? dialect)) []
  let introspection ← field? fields "introspection" (Node.oneOf? dialect introspections)
    .structural
  pure
    { name
      kind
      isFinal
      superclass?
      interfaces
      memberClasses
      marks
      methods
      introspection }

/-- The names of the policies on problems. -/
def policies : List (String × ProblemPolicy) :=
  [("fail_fast", .failFast), ("lenient", .lenient)]

/-- The settings. -/
def settings? (dialect : Dialect) (n : Node) : Option Settings := do
  let fields ← n.fields? dialect
    ["problem_policy", "foundational_prefixes", "max_import_depth",
      "allow_definition_overriding"]
  let preset : Settings := {}
  let problemPolicy ← field? fields "problem_policy" (Node.oneOf? dialect policies)
    preset.problemPolicy
  let foundational ← field? fields "foundational_prefixes" texts? preset.foundational
  let maxImportDepth ← field? fields "max_import_depth" size? preset.maxImportDepth
  let allowsOverriding ← field? fields "allow_definition_overriding" Node.bool?
    preset.allowsOverriding
  pure { problemPolicy, foundational, maxImportDepth, allowsOverriding }

/-- The environment. -/
def environment? (dialect : Dialect) (n : Node) : Option EnvironmentSpec := do
  let fields ← n.fields? dialect
    ["active_profiles", "default_profiles", "properties", "include_system_environment"]
  let activeProfiles ← field? fields "active_profiles" texts? []
  let defaultProfiles? ← field? fields "default_profiles" (Node.optional? texts?) none
  let properties ← field? fields "properties" (Node.table? Node.toValue?) Table.empty
  let includesSystemEnvironment ← field? fields "include_system_environment" Node.bool? false
  pure
    { activeProfiles
      defaultProfiles?
      properties := properties.toList
      includesSystemEnvironment }

/-- A root: the name of a class, or a record. -/
def root? (n : Node) : Option RootSpec :=
  match n.settle? with
  | some (.scalar (.text s)) => some (.ofClass s)
  | some (.record fields) => do
    let fields ← (Node.record fields).fields? .settled ["class", "name"]
    let className ← required? fields "class" Node.text?
    let name? ← field? fields "name" optionalText? none
    pure (.named className name?)
  | _ => none

/-- The names of the phases. -/
def phases : List (String × Phase) :=
  [("parse_configuration", .parse), ("register_bean", .register)]

/-- The names of the orders of a group. -/
def strategies : List (String × GroupStrategy) :=
  [("declared", .declared), ("reverse", .reverse), ("sorted", .sorted)]

/-- A definition of a registrar. -/
def registrarDefinition? (n : Node) : Option (String × String) := do
  let fields ← n.fields? .settled ["name", "class"]
  let name ← required? fields "name" Node.text?
  let className ← required? fields "class" Node.text?
  pure (name, className)

/-- A plugin class of a kind, from the fields beside the kind. -/
def pluginOfKind? (kind : String) (n : Node) : Option PluginSpec :=
  match kind with
  | "selector" => do
    let fields ← n.fields? .settled ["class", "imports"]
    let className ← required? fields "class" Node.text?
    let imports ← field? fields "imports" texts? []
    pure (.selector className imports)
  | "deferred_selector" => do
    let fields ← n.fields? .settled ["class", "imports", "group", "order", "priority"]
    let className ← required? fields "class" Node.text?
    let imports ← field? fields "imports" texts? []
    let group? ← field? fields "group" optionalText? none
    let order? ← field? fields "order" (Node.optional? order?) none
    let priority ← field? fields "priority" Node.bool? false
    pure (.deferredSelector className imports group? order? priority)
  | "registrar" => do
    let fields ← n.fields? .settled ["class", "definitions"]
    let className ← required? fields "class" Node.text?
    let definitions ← field? fields "definitions" (Node.list? registrarDefinition?) []
    pure (.registrar className definitions)
  | "group" => do
    let fields ← n.fields? .settled ["class", "strategy"]
    let className ← required? fields "class" Node.text?
    let strategy ← field? fields "strategy" (Node.oneOf? .settled strategies) .declared
    pure (.group className strategy)
  | "condition" => do
    let fields ← n.fields? .settled
      ["class", "matches", "property", "having_value", "phase", "order", "priority"]
    let className ← required? fields "class" Node.text?
    let outcome? ← field? fields "matches" (Node.optional? Node.bool?) none
    let property? ← field? fields "property" optionalText? none
    let having? ← field? fields "having_value" optionalText? none
    let phase? ← field? fields "phase" (Node.optional? (Node.oneOf? .settled phases)) none
    let order? ← field? fields "order" (Node.optional? order?) none
    let priority ← field? fields "priority" Node.bool? false
    pure (.condition className outcome? property? having? phase? order? priority)
  | _ => none

/-- A plugin class: a record with its kind among the fields, or a list with its kind in front. -/
def plugin? (n : Node) : Option PluginSpec :=
  match n with
  | .record fields =>
    match fields.filter (·.1 == "kind") with
    | [(_, kind)] => do
      let kind ← kind.text?
      let rest ← (Node.record (fields.filter (·.1 != "kind"))).settle?
      pluginOfKind? kind rest
    | _ => none
  | .list (kind :: rest) => do
    let kind ← kind.text?
    let rest ← (Node.list rest).settle?
    pluginOfKind? kind rest
  | _ => none

/-- A descriptor. -/
def ofNode? (dialect : Dialect) (n : Node) : Option Descriptor := do
  let fields ← n.fields? dialect
    ["settings", "environment", "resources", "resources_inline", "roots", "classes",
      "method_order", "plugins"]
  let settings ← field? fields "settings" (settings? dialect) {}
  let environment ← field? fields "environment" (environment? dialect) {}
  let resources? ← field? fields "resources" optionalText? none
  let inlineResources ← field? fields "resources_inline" (Node.table? Node.text?) Table.empty
  let roots ← field? fields "roots" (Node.list? root?) []
  let classes ← field? fields "classes" (Node.list? (class? dialect)) []
  let methodOrders ← field? fields "method_order" (Node.table? texts?) Table.empty
  let plugins ← field? fields "plugins" (Node.list? plugin?) []
  pure
    { settings
      environment
      resources?
      inlineResources
      roots
      classes
      methodOrders
      plugins }

end Wiring.Descriptor
