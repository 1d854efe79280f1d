import Wiring.Descriptor

/-!
# Problems

What is wrong with configuration classes without keeping the resolution from going on. Whether a
problem ends the resolution is decided when problems are enforced.
-/

namespace Wiring

/-- What sort of thing is wrong. -/
inductive ProblemKind where
  | circularImport
  | invalidConfiguration
deriving DecidableEq, Repr, Inhabited

/-- Something that is wrong with a class, with the imports that led to it. -/
structure Problem where
  kind : ProblemKind
  className : String
  message : String
  chain : List String := []
deriving DecidableEq, Repr, Inhabited

namespace Problem

/-- A chain of imports, by simple names. -/
def showChain (chain : List String) : String :=
  "[" ++ "->".intercalate (chain.map Text.simpleName) ++ "]"

/-- A class is imported while it is itself being gone through. -/
def circularImport (attempted : String) (chain : List String) : Problem :=
  let importer := Text.simpleName (chain.getLast?.getD attempted)
  let name := Text.simpleName attempted
  { kind := .circularImport
    className := attempted
    message :=
      "A circular import has been detected: Illegal attempt by configuration class " ++
        s!"'{importer}' to import class '{name}' as '{name}' is already present in the current " ++
        "import stack " ++ showChain chain
    chain }

/-- A class is not as a configuration class has to be. -/
def invalidConfiguration (className message : String) : Problem :=
  { kind := .invalidConfiguration, className, message }

/-- The chain of imports as text. -/
def chainText (p : Problem) : String := showChain p.chain

/-- The failure that a problem ends a resolution with. -/
def toError (p : Problem) : Error :=
  match p.kind with
  | .circularImport => .circularImport p.chainText p.message
  | .invalidConfiguration => .invalidConfiguration p.className p.message

end Problem

/-- The problems found, and how many of them have been enforced. -/
structure Diagnostics where
  problems : List Problem := []
  enforced : Nat := 0
deriving DecidableEq, Repr, Inhabited

namespace Diagnostics

/-- Note a problem. -/
def report (d : Diagnostics) (p : Problem) : Diagnostics :=
  { d with problems := d.problems ++ [p] }

/-- Note problems. -/
def reportAll (d : Diagnostics) (ps : List Problem) : Diagnostics :=
  { d with problems := d.problems ++ ps }

/-- The problems that have not been enforced. -/
def fresh (d : Diagnostics) : List Problem := d.problems.drop d.enforced

/-- What enforcing problems comes to: unless the policy is lenient, the first of them is a
failure. -/
def verdict (policy : ProblemPolicy) (problems : List Problem) : Except Error Unit :=
  match policy, problems with
  | .failFast, p :: _ => .error p.toError
  | _, _ => .ok ()

/-- Enforce the problems that are new. -/
def enforce (d : Diagnostics) (policy : ProblemPolicy) : Except Error Unit × Diagnostics :=
  (verdict policy d.fresh, { d with enforced := d.problems.length })

@[simp] theorem verdict_lenient (problems : List Problem) :
    verdict .lenient problems = .ok () := by
  cases problems <;> rfl

end Diagnostics

end Wiring
