import Wiring.Scan
import Wiring.Walk.State

/-!
# The steps of a walk

What is done with the class in hand: enter it, gather what one of its sources declares and go on to
the superclass, and go through imports. Each step is given the handler of the steps that it leads
to, so that all of them are ordinary definitions.
-/

namespace Wiring

/-- A piece of work with the class in hand. -/
inductive Visit where
  /-- Enter the class in hand. -/
  | enter
  /-- Gather what a source of the class declares: itself, or one of its superclasses. -/
  | ascend (source : ClassDecl)
  /-- Go through imports declared on a source; `guarded` ones are checked for circles. -/
  | imports (source : ClassDecl) (names : List String) (guarded : Bool)

namespace Walk

/-! ## What classes declare -/

/-- The state of gathering imports: the names found, and the classes gone through. -/
structure Gathered where
  names : List String := []
  met : List String := []

/-- Gather the classes that a class imports: those named by what its annotation types are annotated
with, then those that it names itself. -/
def gatherImports (r : Reader) : Nat → ClassDecl → Gathered → Gathered
  | 0, _, g => g
  | bound + 1, c, g =>
    if c.name ∈ g.met then g
    else
      let g := c.marks.declared.foldl (fun g a =>
        if a.type == AnnotationType.importing || r.isFoundational a.type then g
        else
          match r.read? a.type with
          | some d => gatherImports r bound d g
          | none => g) { g with met := c.name :: g.met }
      let named := (c.marks.declaredOfType AnnotationType.importing).flatMap (·.texts "value")
      { g with names := ConfigurationClass.mergeNames g.names named }

/-- The classes that a class imports. Every class is gone through at most once, so the number of
classes bounds the depth. -/
def collectImports (r : Reader) (c : ClassDecl) : List String :=
  (gatherImports r (r.catalogue.classes.size + 2) c {}).names

/-- Pick the methods of an order, each once. -/
def pickMethods (methods : List MethodDecl) : List Nat → List String → List Nat
  | picked, [] => picked
  | picked, name :: rest =>
    match methods.findIdx? (·.name == name) with
    | some i => pickMethods methods (if i ∈ picked then picked else picked ++ [i]) rest
    | none => pickMethods methods picked rest

/-- The bean methods of a class. Where the declared order of a class's methods is known and covers
them, they come in that order. -/
def beanMethods (r : Reader) (c : ClassDecl) : List MethodDecl :=
  let methods := c.beanMethods
  match c.introspection, r.methodOrder? c.name with
  | .reflective, some order =>
    if 1 < methods.length && methods.length ≤ order.length then
      let picked := pickMethods methods [] order
      if picked.length = methods.length then picked.filterMap (methods[·]?) else methods
    else methods
  | _, _ => methods

/-- The bean methods of interfaces that have a body, and the interfaces gone through. -/
def interfaceMethods (r : Reader) : Nat → List String → List String →
    Except Error (List MethodDecl × List String)
  | _, met, [] => .ok ([], met)
  | 0, _, _ => .error (.exhausted "the search of interfaces")
  | bound + 1, met, name :: rest =>
    if r.isFoundational name || met.contains name then interfaceMethods r bound met rest
    else do
      let c ← r.read name
      let own := (beanMethods r c).filter (!·.isAbstract)
      let (above, met) ← interfaceMethods r bound (name :: met) c.interfaces
      let (others, met) ← interfaceMethods r bound met rest
      pure (own ++ above ++ others, met)

/-- The greatest number of interfaces that a class names. -/
def widestInterfaces (r : Reader) : Nat :=
  (r.catalogue.classes.toList.map fun e => e.2.interfaces.length).foldl max 0

/-- The bean methods of a class's interfaces. The depth is bounded by the number of classes times
the number of interfaces that each of them names. -/
def methodsOfInterfaces (r : Reader) (c : ClassDecl) : Except Error (List MethodDecl) :=
  let bound := (r.catalogue.classes.size + 2) * (max c.interfaces.length (widestInterfaces r) + 2)
  (interfaceMethods r bound [] c.interfaces).map (·.1)

/-- The configuration classes among the member classes of a source, in order of precedence. -/
def members (r : Reader) (owner : String) (source : ClassDecl) : List ClassDecl :=
  let found := (source.memberClasses.filterMap r.read?).filter fun c =>
    c.isCandidate && c.name != owner
  Precedence.sort ClassDecl.precedence found

/-! ## Steps -/

section Steps

variable (ctx : Context) (visit : Visit → Walk Unit)

/-- Enter a class with nothing else in hand. -/
def enterClass (c : ConfigurationClass) : Walk Unit := do
  discard (holding c (visit .enter))

/-- Read a class and enter it as one registered under a bean name. -/
def enterExplicit (className beanName : String) : Walk Unit := do
  let decl ← ofExcept (ctx.reader.read className)
  enterClass visit (.explicit decl beanName)

/-- Go through the member classes of a source. -/
def visitMembers (source : ClassDecl) : Walk Unit := do
  let owner := (← inHand).name
  (members ctx.reader owner source).forM fun c => do
    let s ← state
    if s.imports.contains owner then
      modifyState (·.report (.circularImport owner s.imports.chain))
    else goingThrough owner (enterClass visit (.imported c owner))

/-- Add the property sources that a source declares, where the environment may be changed. -/
def visitPropertySources (source : ClassDecl) : Walk Unit :=
  (source.marks.ofType AnnotationType.propertySource).forM fun a => do
    let s ← state
    if s.environment.isConfigurable then
      let (outcome, merger, environment) :=
        s.merger.process ctx s.environment source.name (.declaredBy a)
      modifyState fun s => { s with merger, world := { s.world with environment } }
      ofExcept outcome
    else pure ()

/-- Enter a component that was found, if it is a configuration class. -/
def visitComponent (beanName : String) : Walk Unit := do
  let s ← state
  let (isCandidate, registry) := s.registry.markCandidate ctx.reader beanName
  modifyState (·.withRegistry registry)
  if isCandidate then
    match (registry.get? beanName).bind (·.className?) with
    | some className => enterExplicit ctx visit className beanName
    | none => pure ()
  else pure ()

/-- Look for components as one directive on a source says. -/
def visitScan (source : ClassDecl) (directive : Annotation) : Walk Unit := do
  let s ← state
  let found ← ofExcept (Scan.candidates ctx s.environment directive source)
  let (outcome, registry) := Scan.register s.registry found
  modifyState (·.withRegistry registry)
  let names ← ofExcept outcome
  names.forM (visitComponent ctx visit)

/-- Look for components as a source says, unless it is skipped. -/
def visitScans (source : ClassDecl) : Walk Unit := do
  let directives := source.marks.ofType AnnotationType.componentScan
  if directives.isEmpty then pure ()
  else
    let s ← state
    let skipped ← ofExcept (ctx.skips s.environment (.ofClass source) (some .register))
    if skipped then pure () else directives.forM (visitScan ctx visit source)

/-- The work that a failure of imports is reported under. -/
def importWork (className : String) : String :=
  s!"Failed to process import candidates for configuration class [{className}]"

/-- Go through a deferred import on behalf of a stored class. Only new registrars are taken over. -/
def visitStored (entry : DeferredEntry) : Walk Unit := do
  let name := entry.importing.name
  match (← state).stored? name with
  | none =>
    throw (.invalidConfiguration name
      "import group returned an entry for a class that was not parsed")
  | some c =>
    let c' ← holding c (visit (.imports entry.importing [entry.className] false))
    let added := c'.registrars.drop c.registrars.length
    if added.isEmpty then pure ()
    else modifyState (·.update name fun d => { d with registrars := d.registrars ++ added })

/-- Go through a deferred import. Where the class that it imports for is in hand, it is worked on
there. -/
def visitDeferredEntry (useInHand : Bool) (entry : DeferredEntry) : Walk Unit := do
  let c ← inHand
  during (importWork entry.importing.name)
    (if useInHand && c.name == entry.importing.name then
      visit (.imports entry.importing [entry.className] false)
    else visitStored visit entry)

/-- Go through the imports of a group. -/
def visitGroup (useInHand : Bool) (g : DeferredGroup) : Walk Unit := do
  let entries ← ofExcept (g.entries (← state).environment)
  entries.forM (visitDeferredEntry visit useInHand)

/-- Settle deferred imports. -/
def visitDeferred (useInHand : Bool) (ds : List DeferredImport) : Walk Unit :=
  if ds.isEmpty then pure ()
  else do
    let groups ← ofExcept (DeferredGroup.ofList ctx ds)
    groups.forM (visitGroup visit useInHand)

/-- Let a deferred import wait, or settle it where imports are being settled. -/
def visitDeferredSelector (name : String) (selection : DeferredSelection) : Walk Unit := do
  let d : DeferredImport :=
    { selectorClass := name, importing := (← inHand).decl, selection }
  let (handed?, deferred) := (← state).deferred.handle d
  modifyState ({ · with deferred })
  match handed? with
  | some d => visitDeferred ctx visit true [d]
  | none => pure ()

/-- Go through one import: a plugin class does what it can do, any other class is entered. -/
def visitImport (source : ClassDecl) (name : String) : Walk Unit := do
  match ctx.plugins.capability? name with
  | some .deferredSelector =>
    match ← ofExcept (ctx.instantiate name) with
    | .deferredSelector selection => visitDeferredSelector ctx visit name selection
    | other => throw (Context.mismatch name "a DeferredImportSelector" other)
  | some .selector =>
    match ← ofExcept (ctx.instantiate name) with
    | .selector selection =>
      let names ← ofExcept (selection.names (← state).environment)
      visit (.imports source names false)
    | other => throw (Context.mismatch name "a ImportSelector" other)
  | some .registrar =>
    match ← ofExcept (ctx.instantiate name) with
    | .registrar definitions =>
      modifyInHand fun c =>
        { c with
          registrars := c.registrars ++ [⟨name, definitions, source.name⟩] }
    | other => throw (Context.mismatch name "a ImportBeanDefinitionRegistrar" other)
  | _ =>
    let decl ← ofExcept (ctx.reader.read name)
    modifyState (·.withImports (·.record source.name name))
    enterClass visit (.imported decl (← inHand).name)

/-- Go through imports, unless that closes a circle or goes too deep. -/
def visitImports (source : ClassDecl) (names : List String) (guarded : Bool) : Walk Unit := do
  let owner := (← inHand).name
  let s ← state
  if names.isEmpty then pure ()
  else if guarded && s.imports.isChained owner then
    modifyState (·.report (.circularImport owner s.imports.chain))
  else if ctx.settings.maxImportDepth ≤ s.imports.depth then
    throw (.importDepthExceeded owner ctx.settings.maxImportDepth)
  else
    during (importWork owner) (goingThrough owner (names.forM (visitImport ctx visit source)))

/-- Note the resources with definitions that a source names. -/
def visitImportedResources (source : ClassDecl) : Walk Unit :=
  match source.marks.first? AnnotationType.importResource with
  | none => pure ()
  | some a =>
    (a.texts "value" ++ a.texts "locations").forM fun location => do
      let location ← ofExcept ((← state).environment.expandRequired location)
      modifyInHand fun c =>
        { c with
          importedResources :=
            c.importedResources ++ [⟨location, a.nonEmptyText? "reader"⟩] }

/-- Note the bean methods of a source and of its interfaces. -/
def visitBeanMethods (source : ClassDecl) : Walk Unit := do
  let above ← ofExcept (methodsOfInterfaces ctx.reader source)
  modifyInHand fun c =>
    { c with beanMethods := c.beanMethods ++ beanMethods ctx.reader source ++ above }

/-- The superclass of a source, if it has not been gone through. -/
def nextSuperclass? (s : WalkState) (source : ClassDecl) : Option String :=
  source.superclass?.filter fun name =>
    !ctx.reader.isFoundational name && !s.knowsSuperclass name

/-- Gather what a source declares and go on to its superclass. -/
def ascend (source : ClassDecl) : Walk Unit := do
  if (← inHand).decl.marks.has AnnotationType.component then visitMembers ctx visit source
  visitPropertySources ctx source
  visitScans ctx visit source
  visit (.imports source (collectImports ctx.reader source) true)
  visitImportedResources source
  visitBeanMethods ctx source
  match nextSuperclass? ctx (← state) source with
  | none => pure ()
  | some name => do
    let owner := (← inHand).name
    modifyState (·.noteSuperclass name owner)
    let above ← ofExcept (ctx.reader.read name)
    visit (.ascend above)

/-- Go through the class in hand and store it. -/
def gather : Walk Unit := do
  visit (.ascend (← inHand).decl)
  let c ← inHand
  modifyState (·.store c)

/-- Enter the class in hand, unless it is skipped. An import of a stored class only adds an
importer, and only to an imported one; an explicit registration takes the place of the stored class.
-/
def enter : Walk Unit := do
  let c ← inHand
  let s ← state
  let skipped ← ofExcept (ctx.skips s.environment (.ofClass c.decl) (some .parse))
  if skipped then pure ()
  else
    match s.stored? c.name with
    | none => gather visit
    | some stored =>
      if c.isImported then
        if stored.isImported then modifyState (·.update c.name (·.mergeImporters c)) else pure ()
      else
        modifyState (·.discard c.name)
        gather visit

/-- Do a piece of work. -/
def perform : Visit → Walk Unit
  | .enter => enter ctx visit
  | .ascend source => ascend ctx visit source
  | .imports source names guarded => visitImports ctx visit source names guarded

end Steps

end Walk

end Wiring
