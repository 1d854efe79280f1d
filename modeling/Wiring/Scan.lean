import Wiring.Condition
import Wiring.Pattern.Parse
import Wiring.Text.LetterCase

/-!
# Component scans

Looking for components in packages, and registering what is found under names made from the
classes.
-/

namespace Wiring

namespace Scan

/-- The packages that a directive on a class names; by default that of the class. -/
def packages (directive : Annotation) (declaring : ClassDecl) : List String :=
  match directive.texts "base_packages" ++ directive.texts "value" with
  | [] => [declaring.packageName]
  | names => names

/-- Is a class in a package or below it? The package without a name holds every class. -/
def isInPackage (className package : String) : Bool :=
  package.isEmpty ||
    match package.toList.isPrefixOf? className.toList with
    | some ('.' :: _) => true
    | _ => false

/-- The patterns of texts. -/
def patterns (texts : List String) : Except Error (List Pattern) :=
  texts.mapM fun text =>
    match Pattern.parse? text with
    | some p => .ok p
    | none => .error (.pattern "not a pattern")

/-- The bean name of a component: that which an annotation gives, or one made from the class. -/
def beanName (c : ClassDecl) : String :=
  let given := [AnnotationType.configuration, AnnotationType.component].filterMap fun type =>
    (c.marks.first? type).bind (·.text? "value")
  (given.find? (!·.isEmpty)).getD
    (String.ofList (Text.decapitalize c.simpleName.toList))

/-- Is a class of this name and in these packages looked at? -/
def isInScope (declaring : ClassDecl) (packages : List String) (excludes : List Pattern)
    (className : String) : Bool :=
  className != declaring.name && packages.any (isInPackage className) &&
    !excludes.any (·.isIn className)

/-- The components that a directive on a class finds, in order of their names. -/
def candidates (ctx : Context) (env : Environment) (directive : Annotation)
    (declaring : ClassDecl) : Except Error (List ClassDecl) := do
  let includes ← patterns (directive.texts "include_filters")
  let excludes ← patterns (directive.texts "exclude_filters")
  let inScope := ctx.reader.classNames.filter
    (isInScope declaring (packages directive declaring) excludes)
  let included := (inScope.filterMap ctx.reader.read?).filter fun c =>
    c.kind == .concrete &&
      (c.marks.has AnnotationType.component || includes.any (·.isIn c.name))
  included.filterM fun c => do
    let skipped ← ctx.skips env (.ofClass c) none
    pure !skipped

/-- Register components under their bean names, and give the names that are new. A name may be taken
only by the same class. What was registered before a failure stays. -/
def register (r : Registry) : List ClassDecl → Except Error (List String) × Registry
  | [] => (.ok [], r)
  | c :: rest =>
    let name := beanName c
    match r.get? name with
    | some existing =>
      if existing.className? == some c.name then register r rest
      else (.error (.definitionOverride name), r)
    | none =>
      match r.register name (.ofClass c.name .scanned) with
      | .error e => (.error e, r)
      | .ok r =>
        let (names, r) := register r rest
        (names.map (name :: ·), r)

end Scan

end Wiring
