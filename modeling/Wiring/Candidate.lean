import Wiring.Metadata.Reader
import Wiring.Precedence
import Wiring.Registry

/-!
# Configuration candidates

Which classes take part in a resolution as configuration classes, and how a definition of such a
class is marked.
-/

namespace Wiring

namespace ClassDecl

/-- Does the class take part as a configuration class? It does if an annotation says so, or if one
of its methods makes a bean. -/
def isCandidate (c : ClassDecl) : Bool :=
  !c.isInterface &&
    (AnnotationType.candidateIndicators.any c.marks.has || c.hasMethodWith AnnotationType.bean)

/-- The kind of configuration class that the class is, if it is one. -/
def configurationKind? (c : ClassDecl) : Option ConfigurationKind :=
  match c.marks.first? AnnotationType.configuration with
  | some a => if a.bool? "proxy_bean_methods" == some false then some .lite else some .full
  | none => if c.isCandidate then some .lite else none

/-- The order value of the class, brought into the range of order values. -/
def order? (c : ClassDecl) : Option Int :=
  ((c.marks.first? AnnotationType.order).bind (·.int? "value")).map fun i =>
    max highestPrecedence (min lowestPrecedence i)

/-- The precedence of the class. -/
def precedence (c : ClassDecl) : Precedence := .ofValue? c.order?

/-- The methods that make beans. -/
def beanMethods (c : ClassDecl) : List MethodDecl := c.methodsWith AnnotationType.bean

end ClassDecl

namespace Registry

/-- The class of a definition that may be a configuration class: one without a factory method, whose
class can be read. -/
def classOf? (r : Registry) (reader : Reader) (name : String) : Option ClassDecl := do
  let definition ← r.get? name
  if definition.factoryMethod?.isSome then none
  else
    let className ← definition.className?
    reader.read? className

/-- Is the definition one of a configuration class? If it is, the registry is given with the
definition marked by its kind and its order. -/
def markCandidate? (r : Registry) (reader : Reader) (name : String) : Option Registry := do
  let c ← r.classOf? reader name
  let kind ← c.configurationKind?
  pure (r.modify name fun d => { d with kind? := some kind, order? := c.order? })

/-- Mark a definition if it is one of a configuration class, and tell whether it is. -/
def markCandidate (r : Registry) (reader : Reader) (name : String) : Bool × Registry :=
  match r.markCandidate? reader name with
  | some r => (true, r)
  | none => (false, r)

end Registry

end Wiring
