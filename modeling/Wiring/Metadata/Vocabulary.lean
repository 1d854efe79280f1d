import Wiring.Metadata.Class

/-!
# The annotation types that mean something

The annotation types that the resolution acts on, and their declarations, which every set of classes
contains.
-/

namespace Wiring

namespace AnnotationType

/-- Marks a component. -/
def component : String := "Component"

/-- Marks a configuration class; it is itself marked as a component. -/
def configuration : String := "Configuration"

/-- Looks for components in packages. -/
def componentScan : String := "ComponentScan"

/-- Names classes to import. -/
def importing : String := "Import"

/-- Names resources with definitions. -/
def importResource : String := "ImportResource"

/-- Names resources with properties. -/
def propertySource : String := "PropertySource"

/-- Marks a method that makes a bean. -/
def bean : String := "Bean"

/-- Names conditions. -/
def conditional : String := "Conditional"

/-- Gives an order value. -/
def order : String := "Order"

/-- Asks for profiles. -/
def profile : String := "Profile"

/-- Asks for properties. -/
def conditionalOnProperty : String := "ConditionalOnProperty"

/-- The annotation types that make a class a configuration candidate. -/
def candidateIndicators : List String := [component, componentScan, importing, importResource]

end AnnotationType

/-- The plugin class that decides about profiles. -/
def profileConditionClass : String := "confgraph.ProfileCondition"

/-- The plugin class that decides about properties. -/
def onPropertyConditionClass : String := "confgraph.OnPropertyCondition"

/-- The plugin class that makes property sources of resources. -/
def propertySourceFactoryClass : String := "confgraph.DefaultPropertySourceFactory"

/-- An annotation type with annotations of its own. -/
def annotationType (name : String) (declared : List Annotation) : ClassDecl :=
  { name, kind := .annotationType, marks := { declared } }

/-- Names one condition. -/
def conditionalOn (conditionClass : String) : Annotation :=
  { type := AnnotationType.conditional
    attributes := Table.empty.insert "value" (.list [conditionClass]) }

/-- The declarations of the annotation types. -/
def vocabulary : List ClassDecl :=
  [annotationType AnnotationType.component [],
    annotationType AnnotationType.componentScan [],
    annotationType AnnotationType.importing [],
    annotationType AnnotationType.importResource [],
    annotationType AnnotationType.propertySource [],
    annotationType AnnotationType.bean [],
    annotationType AnnotationType.conditional [],
    annotationType AnnotationType.order [],
    annotationType AnnotationType.configuration [{ type := AnnotationType.component }],
    annotationType AnnotationType.profile [conditionalOn profileConditionClass],
    annotationType AnnotationType.conditionalOnProperty [conditionalOn onPropertyConditionClass]]

end Wiring
