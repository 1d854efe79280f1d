import Wiring.Candidate
import Wiring.Context

/-!
# Conditions on elements

A class or a method may name conditions, each of which may be bound to one phase. The element is
skipped in a phase if one of the conditions that count there does not hold.
-/

namespace Wiring

namespace Condition

/-- Does one property annotation hold? -/
def propertyHolds (env : Environment) (a : Annotation) : Bool :=
  let start? : Option String :=
    ((a.text? "prefix").map fun p =>
      String.ofList ((p.toList.reverse.dropWhile (· == '.')).reverse)).filter (!·.isEmpty)
  (a.texts "name" ++ a.texts "value").all fun name =>
    let key :=
      match start? with
      | some start => s!"{start}.{name}"
      | none => name
    match env.property? key, a.text? "having_value" with
    | none, _ => (a.bool? "match_if_missing").getD false
    | some value, some expected => Text.eqIgnoringAsciiCase value expected
    | some value, none => !Text.eqIgnoringAsciiCase value "false"

/-- Does a condition hold for an element with these marks? -/
def holds (env : Environment) (m : Marks) : Condition → Bool
  | profile => (m.ofType AnnotationType.profile).all fun a => env.accepts (a.texts "value")
  | onProperty => (m.ofType AnnotationType.conditionalOnProperty).all (propertyHolds env)
  | declared (some outcome) _ _ _ _ => outcome
  | declared none none _ _ _ => true
  | declared none (some property) having? _ _ =>
    match env.property? property, having? with
    | some value, some expected => value == expected
    | some value, none => value != "false"
    | none, _ => false

/-- The phase that a condition is bound to. -/
def phase? : Condition → Option Phase
  | declared _ _ _ phase? _ => phase?
  | _ => none

/-- When a condition is looked at, among others. -/
def precedence : Condition → Precedence
  | profile => .unordered
  | onProperty => .ofValue (highestPrecedence + 40)
  | declared _ _ _ _ precedence => precedence

/-- Does a condition count in a phase? -/
def countsIn (phase : Phase) (c : Condition) : Bool := c.phase?.all (· == phase)

end Condition

namespace Context

/-- The condition of a class. -/
def condition (ctx : Context) (name : String) : Except Error Condition := do
  match ← ctx.instantiate name with
  | .condition c => pure c
  | other => throw (mismatch name "a Condition" other)

/-- The names of the conditions on an element. -/
def conditionNames (m : Marks) : List String :=
  (m.ofType AnnotationType.conditional).flatMap (·.texts "value")

/-- The phase in which an element is looked at if none is given: configuration classes while they
are parsed, everything else while it is registered. -/
def inferredPhase : Element → Phase
  | .ofClass c => if c.isCandidate then .parse else .register
  | .ofMethod _ => .register

/-- Is an element skipped in a phase? -/
def skips (ctx : Context) (env : Environment) (e : Element) (phase? : Option Phase) :
    Except Error Bool :=
  if !e.marks.has AnnotationType.conditional then .ok false
  else do
    let conditions ← (conditionNames e.marks).mapM ctx.condition
    let phase := phase?.getD (inferredPhase e)
    pure ((Precedence.sort Condition.precedence conditions).any fun c =>
      c.countsIn phase && !c.holds env e.marks)

end Context

end Wiring
