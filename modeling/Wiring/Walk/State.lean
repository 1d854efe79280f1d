import Wiring.ConfigurationClass
import Wiring.Deferred
import Wiring.ImportLog
import Wiring.SourceMerger

/-!
# The state of a walk

A walk goes through configuration classes and stores what it finds. Its state survives a failure:
what was stored before it stays. While a class is gone through it is in hand, and is stored at the
end.
-/

namespace Wiring

/-- What a walk has found. -/
structure WalkState where
  world : World := {}
  classes : List ConfigurationClass := []
  /-- The superclasses gone through, with the class on whose behalf. -/
  superclasses : List (String × String) := []
  imports : ImportLog := {}
  deferred : DeferredQueue := {}
  merger : SourceMerger := {}
  diagnostics : Diagnostics := {}
  validated : List String := []

namespace WalkState

instance : Inhabited WalkState := ⟨{}⟩

/-- The stored class of a name. -/
def stored? (s : WalkState) (name : String) : Option ConfigurationClass :=
  s.classes.find? (·.name == name)

/-- Put a class in place of the stored one of the same name, or behind all others. -/
def storeIn (c : ConfigurationClass) : List ConfigurationClass → List ConfigurationClass
  | [] => [c]
  | d :: rest => if d.name = c.name then c :: rest else d :: storeIn c rest

/-- Store a class. -/
def store (s : WalkState) (c : ConfigurationClass) : WalkState :=
  { s with classes := storeIn c s.classes }

/-- Change the first stored class of a name. -/
def updateIn (name : String) (f : ConfigurationClass → ConfigurationClass) :
    List ConfigurationClass → List ConfigurationClass
  | [] => []
  | d :: rest => if d.name = name then f d :: rest else d :: updateIn name f rest

/-- Change the stored class of a name. -/
def update (s : WalkState) (name : String) (f : ConfigurationClass → ConfigurationClass) :
    WalkState :=
  { s with classes := updateIn name f s.classes }

/-- Take out a stored class, so that it is gone through again, and its superclasses with it. -/
def discard (s : WalkState) (name : String) : WalkState :=
  { s with
    classes := s.classes.eraseP (·.name == name)
    superclasses := s.superclasses.filter (·.2 != name) }

/-- Was the superclass gone through? -/
def knowsSuperclass (s : WalkState) (name : String) : Bool :=
  (s.superclasses.lookup name).isSome

/-- Note a superclass that is gone through on behalf of a class. -/
def noteSuperclass (s : WalkState) (name owner : String) : WalkState :=
  { s with superclasses := (name, owner) :: s.superclasses }

/-- Note a problem. -/
def report (s : WalkState) (p : Problem) : WalkState :=
  { s with diagnostics := s.diagnostics.report p }

/-- Change the import log. -/
def withImports (s : WalkState) (f : ImportLog → ImportLog) : WalkState :=
  { s with imports := f s.imports }

/-- Change the registry. -/
def withRegistry (s : WalkState) (registry : Registry) : WalkState :=
  { s with world := { s.world with registry } }

/-- The environment. -/
def environment (s : WalkState) : Environment := s.world.environment

/-- The registry. -/
def registry (s : WalkState) : Registry := s.world.registry

/-- Note the problems of the stored classes that have not been looked at. -/
def validate (s : WalkState) : WalkState :=
  s.classes.foldl (fun s c =>
    if c.name ∈ s.validated then s
    else
      { s with
        validated := c.name :: s.validated
        diagnostics := s.diagnostics.reportAll c.problems }) s

/-- Enforce the problems found. -/
def enforce (s : WalkState) (policy : ProblemPolicy) : Except Error Unit × WalkState :=
  let (outcome, diagnostics) := s.diagnostics.enforce policy
  (outcome, { s with diagnostics })

end WalkState

/-- The state of a walk with a class in hand. -/
structure Held where
  inHand : ConfigurationClass
  state : WalkState

instance : Inhabited Held := ⟨⟨default, {}⟩⟩

/-- A step of a walk. A failure keeps the state. -/
abbrev Walk (α : Type) := ExceptT Error (StateM Held) α

namespace Walk

/-- The class in hand. -/
def inHand : Walk ConfigurationClass := do
  let h ← get
  pure h.inHand

/-- The state of the walk. -/
def state : Walk WalkState := do
  let h ← get
  pure h.state

/-- Change the state of the walk. -/
def modifyState (f : WalkState → WalkState) : Walk Unit :=
  modify fun h => { h with state := f h.state }

/-- Change the class in hand. -/
def modifyInHand (f : ConfigurationClass → ConfigurationClass) : Walk Unit :=
  modify fun h => { h with inHand := f h.inHand }

/-- An outcome as a step. -/
def ofExcept {α : Type} (outcome : Except Error α) : Walk α :=
  match outcome with
  | .ok a => pure a
  | .error e => throw e

/-- Run a step with another class in hand, give that class as it is then, and take up the first one
again. -/
def holding (c : ConfigurationClass) (step : Walk Unit) : Walk ConfigurationClass :=
  ExceptT.mk fun h =>
    let (outcome, h') := step.run.run { h with inHand := c }
    (outcome.map fun _ => h'.inHand, { h' with inHand := h.inHand })

/-- Run a step while a class is being gone through, and be done with it whatever comes of the
step. -/
def goingThrough (name : String) (step : Walk Unit) : Walk Unit :=
  ExceptT.mk fun h =>
    let (outcome, h') := step.run.run { h with state := h.state.withImports (·.push name) }
    (outcome, { h' with state := h'.state.withImports (·.pop) })

/-- Say during which work a step failed. -/
def during (message : String) (step : Walk Unit) : Walk Unit :=
  ExceptT.mk fun h =>
    let (outcome, h') := step.run.run h
    (outcome.mapError (Error.during message), h')

end Walk

end Wiring
