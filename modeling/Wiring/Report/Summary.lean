import Wiring.Document.JsonText
import Wiring.Report.Style
import Wiring.Resolution

/-!
# The report of a resolution

What a resolution came to, as text or as JSON.
-/

namespace Wiring

open Document

/-- The word for a kind of configuration class. -/
def ConfigurationKind.word : ConfigurationKind → String
  | full => "full"
  | lite => "lite"

/-- The word for the origin of a definition. -/
def Origin.word : Origin → String
  | root => "root"
  | scanned => "scanned"
  | imported => "imported"
  | beanMethod => "bean_method"
  | registrar => "registrar"

/-- The word for a kind of problem. -/
def ProblemKind.word : ProblemKind → String
  | circularImport => "circular_import"
  | invalidConfiguration => "invalid_configuration"

/-- The fields of a definition; those that are not set are left out, but for the class. -/
def Definition.fields (d : Definition) : List (String × Node) :=
  let optional (name : String) (n? : Option Node) : List (String × Node) :=
    match n? with
    | some n => [(name, n)]
    | none => []
  ("class_name", Node.ofOption (d.className?.map Node.text)) ::
    optional "factory_bean_name" (d.factoryBean?.map Node.text) ++
    optional "factory_method_name" (d.factoryMethod?.map Node.text) ++
    optional "configuration_kind" (d.kind?.map fun k => Node.text k.word) ++
    optional "order" (d.order?.map Node.int) ++
    [("origin", Node.text d.origin.word), ("infrastructure", Node.bool d.infrastructure)]

/-- A problem as a document. -/
def Problem.toNode (p : Problem) : Node :=
  .record
    [("kind", Node.text p.kind.word), ("class_name", Node.text p.className),
      ("message", Node.text p.message), ("chain", Node.texts p.chain)]

namespace Report

/-- A configuration class as a document. -/
def classNode (c : ConfigurationClass) : Node :=
  let optional (name : String) (text? : Option String) : List (String × Node) :=
    match text? with
    | some text => [(name, Node.text text)]
    | none => []
  .record
    (("name", Node.text c.name) :: optional "kind" (c.kind?.map (·.word)) ++
      optional "bean_name" c.beanName? ++
      [("imported_by", Node.texts c.importedBy),
        ("bean_methods", Node.texts (c.beanMethods.map (·.name))),
        ("imported_resources", Node.texts (c.importedResources.map (·.location))),
        ("registrars", Node.texts (c.registrars.map (·.className)))])

/-- A resolution as a document. -/
def toNode (r : Resolution) : Node :=
  .record
    [("configuration_classes", .list (r.model.classes.map classNode)),
      ("property_sources", Node.texts r.model.sources.names),
      ("definitions",
        .list (r.definitions.map fun (name, d) =>
          .record (("name", Node.text name) :: d.fields))),
      ("problems", .list (r.model.problems.map Problem.toNode))]

/-- Names in a row. -/
def row (names : List String) : String := ", ".intercalate names

/-- How a class came in. -/
def provenance (c : ConfigurationClass) : String :=
  match c.beanName? with
  | some name => s!"bean '{name}'"
  | none => if c.isImported then "imported by " ++ row c.importedBy else "root"

/-- The lines about a class. -/
def classLines (c : ConfigurationClass) : List String :=
  let kind :=
    match c.kind? with
    | some .full => " [full]"
    | some .lite => " [lite]"
    | none => ""
  let part (title : String) (names : List String) : List String :=
    if names.isEmpty then [] else [s!"    {title}: " ++ row names]
  s!"  {c.name}{kind} ({provenance c})" ::
    part "bean methods" (c.beanMethods.map (·.name)) ++
    part "resources" (c.importedResources.map (·.location)) ++
    part "registrars" (c.registrars.map (·.className))

/-- What a definition makes its bean of. -/
def target (d : Definition) : String :=
  match d.factoryBean?, d.factoryMethod? with
  | some bean, some method => s!"{bean}.{method}()"
  | none, some method => d.className?.getD "?" ++ s!".{method}()"
  | _, none => d.className?.getD ""

/-- The lines about a resolution. -/
def lines (style : Style) (r : Resolution) : List String :=
  let title (m : Marker) (text : String) (count : Nat) : String :=
    style.line m s!"{text} ({count}):"
  title .classes "Configuration classes" r.model.classes.length ::
    r.model.classes.flatMap classLines ++
    title .sources "Property sources" r.model.sources.names.length ::
    (r.model.sources.names.zipIdx.map fun (name, i) => s!"  {i + 1}. {name}") ++
    title .definitions "Definitions" r.definitions.length ::
    (r.definitions.map fun (name, d) => s!"  {name} -> {target d}") ++
    if r.model.problems.isEmpty then [style.line .ok "No problems found"]
    else
      title .problems "Problems" r.model.problems.length ::
        r.model.problems.map fun p => s!"  {p.message}"

end Report

end Wiring
