import Wiring.Walk.Step

/-!
# Walking through configuration classes

A walk starts at roots and goes through everything that they lead to; at the end deferred imports
are settled.
-/

namespace Wiring

namespace Walk

/-- Do a piece of work whose steps nest at most `bound` deep. -/
def visit (ctx : Context) : Nat → Visit → Walk Unit
  | 0, _ => throw (.exhausted "the walk through configuration classes")
  | bound + 1, v => perform ctx (visit ctx bound) v

/-- How deep the steps of a walk may nest. Classes being gone through because of imports are bounded
by the import depth, those gone through as members or components by the number of classes, and
between two of them each class is a superclass only so often. -/
def depthBound (ctx : Context) : Nat :=
  let n := ctx.reader.catalogue.classes.size + 2
  (ctx.settings.maxImportDepth + 3 * n) * (n * n + 4) + n * n

/-- Run a step without a class in hand. -/
def runWith (s : WalkState) (step : Walk Unit) : Except Error Unit × WalkState :=
  let (outcome, h) := step.run.run { inHand := default, state := s }
  (outcome, h.state)

/-- Enter a root. -/
def enterRoot (ctx : Context) (beanName className : String) : Walk Unit :=
  during s!"Failed to parse configuration class [{className}]"
    (enterExplicit ctx (visit ctx (depthBound ctx)) className beanName)

/-- Settle the deferred imports that wait, and let further ones wait afterwards whatever comes of
it. -/
def settle (ctx : Context) : Walk Unit :=
  ExceptT.mk fun h =>
    let (ds, deferred) := h.state.deferred.begin
    let step := visitDeferred ctx (visit ctx (depthBound ctx)) false ds
    let (outcome, h') := step.run.run { h with state := { h.state with deferred } }
    (outcome, { h' with state := { h'.state with deferred := .finish } })

/-- Walk from roots, given by bean name and class, and settle deferred imports. -/
def fromRoots (ctx : Context) (roots : List (String × String)) : Walk Unit := do
  roots.forM fun (beanName, className) => enterRoot ctx beanName className
  settle ctx

end Walk

namespace WalkState

/-- Go through roots, given by bean name and class. A failure keeps what was found before it. -/
def parse (s : WalkState) (ctx : Context) (roots : List (String × String)) :
    Except Error Unit × WalkState :=
  Walk.runWith s (Walk.fromRoots ctx roots)

end WalkState

end Wiring
