import Wiring.Load
import Wiring.Walk

/-!
# Resolution

Walking and loading are repeated as long as loading brings new configuration classes.
-/

namespace Wiring

/-- What a resolution comes to. -/
structure Model where
  classes : List ConfigurationClass
  sources : SourceList
  problems : List Problem
  imports : ImportLog

namespace Model

/-- The names of the configuration classes. -/
def classNames (m : Model) : List String := m.classes.map (·.name)

end Model

/-- The classes that were loaded at once, and all that were known then. -/
structure Batch where
  loaded : List String
  known : List String
deriving DecidableEq, Repr, Inhabited

/-- Loads the definitions of a batch of classes, of which the second list are all. -/
abbrev Loader := World → List ConfigurationClass → List ConfigurationClass →
  Except Error LoadReport × World

/-- A definition that a pass starts from. -/
structure Start where
  beanName : String
  className : String
  precedence : Precedence
deriving DecidableEq, Repr, Inhabited

/-- The state of a resolution between two passes. -/
structure Passes where
  walk : WalkState
  /-- The registered names that have been looked at. -/
  names : List String
  /-- The classes that have been loaded. -/
  loaded : List String := []
  /-- The batches loaded, one a pass. -/
  batches : List Batch := []

namespace Passes

/-- Look at a definition; give it if it is one of a configuration class. -/
def start? (reader : Reader) (r : Registry) (name : String) : Option Start × Registry :=
  match r.markCandidate? reader name with
  | none => (none, r)
  | some r =>
    ((r.get? name).bind fun d => d.className?.map fun className =>
      { beanName := name, className, precedence := .ofValue? d.order? }, r)

/-- Look at definitions; give those of configuration classes. -/
def starts (reader : Reader) (r : Registry) : List String → List Start × Registry
  | [] => ([], r)
  | name :: rest =>
    let (s?, r) := start? reader r name
    let (found, r) := starts reader r rest
    (s?.toList ++ found, r)

/-- The definitions that a resolution starts from: those of configuration classes that are not
marked as such yet, in order of precedence. -/
def first (reader : Reader) (r : Registry) : List Start × Registry :=
  let unmarked := r.names.filter fun name => ((r.get? name).bind (·.kind?)).isNone
  let (found, r) := starts reader r unmarked
  (Precedence.sort Start.precedence found, r)

/-- The definitions that the next pass starts from: new ones of configuration classes that have not
been loaded. They are looked for only where there are more definitions than before. -/
def next (p : Passes) (reader : Reader) (r : Registry) : List Start × Registry :=
  if r.names.length ≤ p.names.length then ([], r)
  else
    let (found, r) := starts reader r (r.names.filter (!p.names.contains ·))
    (found.filter fun s => !p.loaded.contains s.className, r)

/-- Walk from the starts of a pass, and load what was found. The outcome gives the starts of the
next pass. -/
def pass (ctx : Context) (load : Loader) (p : Passes) (found : List Start) :
    Except Error (List Start) × Passes :=
  let (parsed, walk) := p.walk.parse ctx (found.map fun s => (s.beanName, s.className))
  match parsed with
  | .error e => (.error e, { p with walk })
  | .ok () =>
    let (enforced, walk) := walk.validate.enforce ctx.settings.problemPolicy
    match enforced with
    | .error e => (.error e, { p with walk })
    | .ok () =>
      let batch : List ConfigurationClass := walk.classes.filter fun c => !p.loaded.contains c.name
      let (report, world) := load walk.world batch walk.classes
      let walk := { walk with world }
      let batches := p.batches ++ [(⟨batch.map (·.name), walk.classes.map (·.name)⟩ : Batch)]
      match report with
      | .error e => (.error e, { p with walk, batches })
      | .ok report =>
        let walk := walk.withImports fun log => report.skippedClasses.foldl ImportLog.forget log
        let loaded := p.loaded ++ batch.map ConfigurationClass.name
        let p : Passes := { p with walk, batches, loaded }
        let (found, registry) := p.next ctx.reader walk.registry
        (.ok found, { p with walk := walk.withRegistry registry, names := registry.names })

/-- Go on until there is nothing to start from. -/
def run (ctx : Context) (load : Loader) : Nat → Passes → List Start →
    Except Error Unit × Passes
  | _, p, [] => (.ok (), p)
  | 0, p, _ => (.error (.exhausted "the resolution"), p)
  | bound + 1, p, s :: found =>
    match pass ctx load p (s :: found) with
    | (.error e, p) => (.error e, p)
    | (.ok found, p) => run ctx load bound p found

/-- How many passes there may be. Every pass but the last loads a class that was not loaded
before. -/
def bound (ctx : Context) : Nat := ctx.reader.catalogue.classes.size + 2

/-- The model that the passes come to. -/
def model (p : Passes) : Model :=
  { classes := p.walk.classes
    sources := p.walk.environment.sources
    problems := p.walk.diagnostics.problems
    imports := p.walk.imports }

end Passes

namespace World

/-- Resolve with a loader. The state of the passes is given also after a failure. -/
def passes (w : World) (ctx : Context) (load : Loader) : Except Error Unit × Passes :=
  let names := w.registry.names
  let (found, registry) := Passes.first ctx.reader w.registry
  Passes.run ctx load (Passes.bound ctx) { walk := { world := { w with registry } }, names } found

/-- Resolve. What was registered before a failure stays. -/
def resolve (w : World) (ctx : Context) : Except Error Model × World :=
  let (outcome, p) := w.passes ctx fun w => w.load ctx
  (outcome.map fun _ => p.model, p.walk.world)

end World

/-- The model of a descriptor and the definitions that it leads to. -/
structure Resolution where
  model : Model
  definitions : List (String × Definition)

namespace Descriptor

/-- Resolve a descriptor in a directory. -/
def resolve (d : Descriptor) (directory : String) (files : FileTree) (exported : Table String) :
    Except Error Resolution := do
  let (ctx, w) ← Context.ofDescriptor d directory files exported
  let (outcome, w) := w.resolve ctx
  let model ← outcome
  pure { model, definitions := w.registry.entries }

end Descriptor

end Wiring
