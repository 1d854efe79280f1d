import Wiring.Proofs.Walk.Rules

/-!
# Contracts for the pieces of work of a walk

The pieces of work of a walk call each other, so a property of all of them is proved in one
induction on how deep they nest. A `Contract` says what holds when a piece of work is begun, and
what it has made of the state when it is done or has failed; it is lawful if every single step keeps
to it. `Contract.Lawful.visit` is that induction: every piece of work meets a lawful contract.
-/

namespace Wiring

namespace ConfigurationClass

theorem isImported_iff {c : ConfigurationClass} : c.isImported = true ↔ c.importedBy ≠ [] := by
  unfold isImported
  rw [Bool.not_eq_true', List.isEmpty_eq_false_iff]

/-- The same class that came in the same way; what was gathered about it may differ. -/
def SameNode (c d : ConfigurationClass) : Prop :=
  d.decl = c.decl ∧ d.beanName? = c.beanName? ∧ d.importedBy = c.importedBy

@[refl] theorem SameNode.refl (c : ConfigurationClass) : SameNode c c := ⟨rfl, rfl, rfl⟩

theorem SameNode.trans {b c d : ConfigurationClass} (hc : SameNode b c) (hd : SameNode c d) :
    SameNode b d :=
  ⟨hd.1.trans hc.1, hd.2.1.trans hc.2.1, hd.2.2.trans hc.2.2⟩

theorem SameNode.name_eq {c d : ConfigurationClass} (h : SameNode c d) : d.name = c.name := by
  unfold name; rw [h.1]

end ConfigurationClass

open ConfigurationClass (SameNode)

namespace Walk

/-! ## Contracts -/

/-- What is asked of the pieces of work of a walk. -/
structure Contract where
  /-- A piece of work may be begun whose steps nest at most so deep. -/
  Ready : Nat → Visit → Held → Prop
  /-- What work that is done has made of the state. -/
  Kept : WalkState → WalkState → Prop
  /-- What has been made of the state when a class has been entered. -/
  Entered : ConfigurationClass → WalkState → WalkState → Prop
  /-- How far a scan has come that still has to look at some of the names it registered. -/
  Scanned : WalkState → List String → WalkState → Prop
  /-- What a failure has made of the state. -/
  Broken : WalkState → Error → WalkState → Prop

namespace Contract

/-- What a piece of work that is done has come to. -/
def Done (K : Contract) : Visit → Held → Held → Prop
  | .enter, h, h' => K.Entered h.inHand h.state h'.state
  | .ascend _, h, h' => K.Kept h.state h'.state ∧ SameNode h.inHand h'.inHand
  | .imports _ _ _, h, h' => K.Kept h.state h'.state ∧ SameNode h.inHand h'.inHand

/-- A handler of pieces of work that nest at most `n` deep meets the contract. -/
def Meets (K : Contract) (n : Nat) (visit : Visit → Walk Unit) : Prop :=
  ∀ v h, K.Ready n v h →
    Leads (visit v) h (fun _ h' => K.Done v h h') fun e h' => K.Broken h.state e h'.state

/-- The contract holds of doing nothing, of one thing after the other, and of failures. -/
structure GeneralLaws (K : Contract) (ctx : Context) : Prop where
  refl (s) : K.Kept s s
  trans {s t u} : K.Kept s t → K.Kept t u → K.Kept s u
  broken_trans {s t e u} : K.Kept s t → K.Broken t e u → K.Broken s e u
  refused {s e} : Refused ctx e → K.Broken s e s
  unparsed {s} (name : String) : K.Broken s (.invalidConfiguration name Error.unparsedText) s
  during {s e t} (message : String) : K.Broken s e t → K.Broken s (e.during message) t
  exhausted {v h} : K.Ready 0 v h →
    K.Broken h.state (.exhausted "the walk through configuration classes") h.state

/-- Entering a class keeps to the contract. -/
structure EnterLaws (K : Contract) (ctx : Context) : Prop where
  skipped {n c s} : K.Ready (n + 1) .enter ⟨c, s⟩ →
    ctx.skips s.environment (.ofClass c.decl) (some .parse) = .ok true → K.Entered c s s
  merged {n c s k} : K.Ready (n + 1) .enter ⟨c, s⟩ → s.stored? c.name = some k →
    c.isImported → k.isImported → K.Entered c s (s.update c.name (·.mergeImporters c))
  ignored {n c s k} : K.Ready (n + 1) .enter ⟨c, s⟩ → s.stored? c.name = some k →
    c.isImported → k.isImported = false → K.Entered c s s
  enters {n c s} : K.Ready (n + 1) .enter ⟨c, s⟩ → s.stored? c.name = none →
    K.Ready n (.ascend c.decl) ⟨c, s⟩
  entered {n c s t d} : K.Ready (n + 1) .enter ⟨c, s⟩ → s.stored? c.name = none → K.Kept s t →
    SameNode c d → K.Entered c s (t.store d)
  reenters {n c s k} : K.Ready (n + 1) .enter ⟨c, s⟩ → s.stored? c.name = some k →
    c.isImported = false → K.Ready n (.ascend c.decl) ⟨c, s.discard c.name⟩
  reentered {n c s k t d} : K.Ready (n + 1) .enter ⟨c, s⟩ → s.stored? c.name = some k →
    c.isImported = false → K.Kept (s.discard c.name) t → SameNode c d → K.Entered c s (t.store d)
  reenter_broken {s name e t} : K.Broken (s.discard name) e t → K.Broken s e t
  entered_imported {decl owner s t} : K.Entered (.imported decl owner) s t → K.Kept s t

/-- Gathering what a source declares, scans apart, keeps to the contract. -/
structure AscendLaws (K : Contract) (ctx : Context) : Prop where
  reported {s name} : s.imports.contains name →
    K.Kept s (s.report (.circularImport name s.imports.chain))
  member {n source c s t m} : K.Ready (n + 1) (.ascend source) ⟨c, s⟩ → K.Kept s t →
    m ∈ members ctx.reader c.name source → t.imports.contains c.name = false →
    K.Ready n .enter ⟨.imported m c.name, t.withImports (·.push c.name)⟩
  through_member {n source c s t u} : K.Ready (n + 1) (.ascend source) ⟨c, s⟩ → K.Kept s t →
    t.imports.contains c.name = false → K.Kept (t.withImports (·.push c.name)) u →
    K.Kept t (u.withImports (·.pop))
  through_member_broken {n source c s t e u} : K.Ready (n + 1) (.ascend source) ⟨c, s⟩ →
    K.Kept s t → t.imports.contains c.name = false →
    K.Broken (t.withImports (·.push c.name)) e u → K.Broken t e (u.withImports (·.pop))
  sources {s name directive outcome m env} : s.environment.isConfigurable →
    s.merger.process ctx s.environment name directive = (outcome, m, env) →
    K.Kept s { s with merger := m, world := { s.world with environment := env } }
  ascend_imports {n source c s d t} : K.Ready (n + 1) (.ascend source) ⟨c, s⟩ → K.Kept s t →
    SameNode c d → K.Ready n (.imports source (collectImports ctx.reader source) true) ⟨d, t⟩
  noted {s source name} (owner : String) : nextSuperclass? ctx s source = some name →
    K.Kept s (s.noteSuperclass name owner)
  ascends {n source c s d t name above} : K.Ready (n + 1) (.ascend source) ⟨c, s⟩ → K.Kept s t →
    SameNode c d → nextSuperclass? ctx t source = some name → ctx.reader.read name = .ok above →
    K.Ready n (.ascend above) ⟨d, t.noteSuperclass name d.name⟩

/-- Scans keep to the contract. -/
structure ScanLaws (K : Contract) (ctx : Context) : Prop where
  scan_begun {n source c s t directive found names r} : K.Ready (n + 1) (.ascend source) ⟨c, s⟩ →
    K.Kept s t → Scan.candidates ctx t.environment directive source = .ok found →
    Scan.register t.registry found = (.ok names, r) → K.Scanned t names (t.withRegistry r)
  scan_refused {s found e r} : Scan.register s.registry found = (.error e, r) →
    K.Broken s e (s.withRegistry r)
  scan_passed {s name names t isCandidate r} : K.Scanned s (name :: names) t →
    t.registry.markCandidate ctx.reader name = (isCandidate, r) →
    (isCandidate = true → (r.get? name).bind (·.className?) = none) →
    K.Scanned s names (t.withRegistry r)
  scan_enters {n source c s t name names u r className decl} :
    K.Ready (n + 1) (.ascend source) ⟨c, s⟩ → K.Kept s t → K.Scanned t (name :: names) u →
    u.registry.markCandidate ctx.reader name = (true, r) →
    (r.get? name).bind (·.className?) = some className → ctx.reader.read className = .ok decl →
    K.Ready n .enter ⟨.explicit decl name, u.withRegistry r⟩
  scan_entered {s name names t r className decl u} : K.Scanned s (name :: names) t →
    t.registry.markCandidate ctx.reader name = (true, r) →
    (r.get? name).bind (·.className?) = some className → ctx.reader.read className = .ok decl →
    K.Entered (.explicit decl name) (t.withRegistry r) u → K.Scanned s names u
  scan_broken {s name names t isCandidate r e u} : K.Scanned s (name :: names) t →
    t.registry.markCandidate ctx.reader name = (isCandidate, r) →
    K.Broken (t.withRegistry r) e u → K.Broken s e u
  scan_done {s t} : K.Scanned s [] t → K.Kept s t

/-- Going through imports keeps to the contract. -/
structure ImportLaws (K : Contract) (ctx : Context) : Prop where
  through_imports {n source names guarded c s t} :
    K.Ready (n + 1) (.imports source names guarded) ⟨c, s⟩ →
    s.imports.depth < ctx.settings.maxImportDepth → K.Kept (s.withImports (·.push c.name)) t →
    K.Kept s (t.withImports (·.pop))
  through_imports_broken {n source names guarded c s e t} :
    K.Ready (n + 1) (.imports source names guarded) ⟨c, s⟩ →
    s.imports.depth < ctx.settings.maxImportDepth →
    K.Broken (s.withImports (·.push c.name)) e t → K.Broken s e (t.withImports (·.pop))
  recorded {s} (importing imported : String) :
    K.Kept s (s.withImports (·.record importing imported))
  imports_enter {n source names guarded c s t name decl} :
    K.Ready (n + 1) (.imports source names guarded) ⟨c, s⟩ →
    s.imports.depth < ctx.settings.maxImportDepth → K.Kept (s.withImports (·.push c.name)) t →
    name ∈ names → ctx.reader.read name = .ok decl →
    K.Ready n .enter ⟨.imported decl c.name, t.withImports (·.record source.name name)⟩
  imports_more {n source names guarded c s d t} (source' : ClassDecl) (names' : List String) :
    K.Ready (n + 1) (.imports source names guarded) ⟨c, s⟩ →
    s.imports.depth < ctx.settings.maxImportDepth → K.Kept (s.withImports (·.push c.name)) t →
    SameNode c d ∨ t.stored? source'.name = some d →
    K.Ready n (.imports source' names' false) ⟨d, t⟩
  waits {s} (d : DeferredImport) : K.Kept s { s with deferred := (s.deferred.handle d).2 }
  registrars {s} (name : String) (added : List RegistrarBinding) :
    K.Kept s (s.update name fun d => { d with registrars := d.registrars ++ added })

/-- Every step within a class keeps to the contract, if entering others does. -/
structure StepLaws (K : Contract) (ctx : Context) : Prop extends
    GeneralLaws K ctx, AscendLaws K ctx, ScanLaws K ctx, ImportLaws K ctx where
  imported {decl owner s t} : K.Entered (.imported decl owner) s t → K.Kept s t

/-- Every single step keeps to the contract. -/
structure Lawful (K : Contract) (ctx : Context) : Prop extends
  GeneralLaws K ctx, EnterLaws K ctx, AscendLaws K ctx, ScanLaws K ctx, ImportLaws K ctx

theorem Lawful.steps {K : Contract} {ctx : Context} (hK : K.Lawful ctx) : K.StepLaws ctx where
  toGeneralLaws := hK.toGeneralLaws
  toAscendLaws := hK.toAscendLaws
  toScanLaws := hK.toScanLaws
  toImportLaws := hK.toImportLaws
  imported := hK.entered_imported

/-! ## Every piece of work meets a lawful contract -/

/-- How far work on a class has come that began at a state: it is still the class in hand, and the
state is one that the contract allows. -/
def Going (K : Contract) (c : ConfigurationClass) (s : WalkState) (h : Held) : Prop :=
  K.Kept s h.state ∧ SameNode c h.inHand

section Steps

variable {K : Contract} {ctx : Context} {n : Nat} {visit : Visit → Walk Unit} {source : ClassDecl}
  {c : ConfigurationClass} {s : WalkState} {h : Held}

section Within

variable (hK : K.StepLaws ctx)

include hK

theorem Going.step {g : Held} (hg : K.Going c s g) (hk : K.Kept g.state h.state)
    (hn : SameNode g.inHand h.inHand) : K.Going c s h :=
  ⟨hK.trans hg.1 hk, hg.2.trans hn⟩

/-- What the contract makes of a step within work on a class that began at a state. -/
def StepLaws.invariant (c : ConfigurationClass) (s : WalkState) : Invariant ctx where
  Holds := K.Going c s
  Fails e h := K.Broken s e h.state
  refused hg hr := hK.broken_trans hg.1 (hK.refused hr)
  during name hb := hK.during (importWork name) hb

theorem StepLaws.holding (hv : K.Meets n visit) {v : Visit} {d : ConfigurationClass} {t : WalkState}
    {done : Held → Prop} {back : WalkState → WalkState} (hr : K.Ready n v ⟨d, t⟩)
    (hd : ∀ h', K.Done v ⟨d, t⟩ h' → done ⟨h.inHand, back h'.state⟩)
    (hb : ∀ e u, K.Broken t e u → K.Broken s e (back u)) :
    (hK.invariant c s).Holding visit h v d t done back :=
  (hv v ⟨d, t⟩ hr).mono (fun _ h' hk => hd h' hk) fun e h' he => hb e h'.state he

variable (hv : K.Meets n visit)

include hv

theorem StepLaws.byMembers (hr : K.Ready (n + 1) (.ascend source) ⟨c, s⟩) :
    (hK.invariant c s).ByMembers visit source where
  reported hg hc := hg.step hK (hK.reported hc) (.refl _)
  member {h m} hg hm hc := by
    rw [hg.2.name_eq] at hm hc ⊢
    refine hK.holding hv (hK.member hr hg.1 hm hc) (fun h' hd => ?_) fun e u hb => ?_
    · exact hg.step hK (hK.through_member hr hg.1 hc (hK.imported hd)) (.refl _)
    · exact hK.broken_trans hg.1 (hK.through_member_broken hr hg.1 hc hb)

theorem StepLaws.byScans (hr : K.Ready (n + 1) (.ascend source) ⟨c, s⟩) :
    (hK.invariant c s).ByScans visit source fun h₀ names h =>
      K.Scanned h₀.state names h.state ∧ h.inHand = h₀.inHand where
  begun hg hf hreg := ⟨hK.scan_begun hr hg.1 hf hreg, rfl⟩
  unregistered hg hreg := hK.broken_trans hg.1 (hK.scan_refused hreg)
  passed hs hm hc := ⟨hK.scan_passed hs.1 hm hc, hs.2⟩
  unreadable hg hs hm _ he :=
    hK.broken_trans hg.1 (hK.scan_broken hs.1 hm (hK.refused (.unreadable he)))
  found hg hs hm hc hd :=
    hK.holding hv (hK.scan_enters hr hg.1 hs.1 hm hc hd)
      (fun _ hu => ⟨hK.scan_entered hs.1 hm hc hd hu, hs.2⟩)
      fun _ _ hb => hK.broken_trans hg.1 (hK.scan_broken hs.1 hm hb)
  done hg hs := hg.step hK (hK.scan_done hs.1) (hs.2 ▸ .refl _)

theorem StepLaws.byDeferred
    (hin : ∀ (source : ClassDecl) (names : List String) (t : WalkState) (d : ConfigurationClass),
      K.Kept s t → t.stored? source.name = some d →
        K.Ready n (.imports source names false) ⟨d, t⟩) :
    (hK.invariant c s).ByDeferred visit where
  stored hg hs :=
    hK.holding hv (hin _ _ _ _ hg.1 hs) (fun _ hd => hg.step hK hd.1 (.refl _))
      fun _ _ hb => hK.broken_trans hg.1 hb
  registrars name added hg := hg.step hK (hK.registrars name added) (.refl _)

theorem StepLaws.more (source : ClassDecl) (names : List String) (guarded : Bool)
    (hg : K.Going c s h) (hr : K.Ready n (.imports source names guarded) h) :
    Leads (visit (.imports source names guarded)) h (fun _ => (hK.invariant c s).Holds)
      (hK.invariant c s).Fails :=
  (hv _ _ hr).mono (fun _ _ hd => hg.step hK hd.1 hd.2) fun _ _ hb => hK.broken_trans hg.1 hb

theorem StepLaws.byImports {names : List String} {guarded : Bool}
    (hr : K.Ready (n + 1) (.imports source names guarded) ⟨c, s⟩)
    (hd : s.imports.depth < ctx.settings.maxImportDepth) :
    (hK.invariant c (s.withImports (·.push c.name))).ByImports visit source names where
  toByDeferred := hK.byDeferred hv fun source' names' _ _ ht hs =>
    hK.imports_more source' names' hr hd ht (.inr hs)
  entered {h name decl} hg hname hread := by
    rw [hg.2.name_eq]
    have hrecord := hK.recorded (s := h.state) source.name name
    refine hK.holding hv (hK.imports_enter hr hd hg.1 hname hread)
      (fun h' he => ?_) fun e u hb => ?_
    · exact hg.step hK (hK.trans hrecord (hK.imported he)) (.refl _)
    · exact hK.broken_trans hg.1 (hK.broken_trans hrecord hb)
  more source' names' hg :=
    hK.more hv source' names' false hg (hK.imports_more source' names' hr hd hg.1 (.inl hg.2))
  waits d hg _ := hg.step hK (hK.waits d) (.refl _)
  same hg hg' := hg'.2.1.trans hg.2.1.symm
  registrar _ hg := hg.step hK (hK.refl _) ⟨rfl, rfl, rfl⟩

theorem leads_ascend (hr : K.Ready (n + 1) (.ascend source) h) :
    Leads (ascend ctx visit source) h (fun _ h' => K.Done (.ascend source) h h')
      fun e h' => K.Broken h.state e h'.state := by
  obtain ⟨c, s⟩ := h
  have hby : (hK.invariant c s).ByAscend visit source fun h₀ names h =>
      K.Scanned h₀.state names h.state ∧ h.inHand = h₀.inHand :=
    { toByMembers := hK.byMembers hv hr
      toByScans := hK.byScans hv hr
      sources := fun hg hc hp => hg.step hK (hK.sources hc hp) (.refl _)
      imports := fun hg => hK.more hv _ _ true hg (hK.ascend_imports hr hg.1 hg.2)
      located := fun _ hg => hg.step hK (hK.refl _) ⟨rfl, rfl, rfl⟩ }
  refine Invariant.leads_ascend (K.Going c s) (K.Going c s) hby ⟨hK.refl s, .refl c⟩
    (fun h _ hg _ => ?_) (fun h hg _ => hg) (fun h name e hg hn he => ?_)
    fun h name above hg hn ha => ?_
  · exact hg.step hK (hK.refl _) ⟨rfl, rfl, rfl⟩
  · exact hK.broken_trans (hK.trans hg.1 (hK.noted _ hn)) (hK.refused (.unreadable he))
  · have hnoted := hK.trans hg.1 (hK.noted h.inHand.name hn)
    refine (hv _ _ (hK.ascends hr hg.1 hg.2 hn ha)).mono (fun _ h' hd => ?_) fun e h' hb => ?_
    · exact ⟨hK.trans hnoted hd.1, hg.2.trans hd.2⟩
    · exact hK.broken_trans hnoted hb

theorem leads_visitImports {names : List String} {guarded : Bool}
    (hr : K.Ready (n + 1) (.imports source names guarded) h) :
    Leads (visitImports ctx visit source names guarded) h
      (fun _ h' => K.Done (.imports source names guarded) h h')
      fun e h' => K.Broken h.state e h'.state := by
  obtain ⟨c, s⟩ := h
  refine Invariant.leads_visitImports (I := hK.invariant c (s.withImports (·.push c.name)))
    ⟨hK.refl s, .refl c⟩ (fun hc => ⟨hK.reported hc, .refl c⟩) (hK.refused (.depth _)) fun hd => ?_
  refine ⟨⟨hK.refl _, .refl c⟩, hK.byImports hv hr hd, fun h' hg => ?_, fun e h' hb => ?_⟩
  · exact ⟨hK.through_imports hr hd hg.1, hg.2⟩
  · exact hK.during _ (hK.through_imports_broken hr hd hb)

end Within

/-! ### Classes -/

variable (hK : K.Lawful ctx) (hv : K.Meets n visit)

theorem leads_enterClass {done : Unit → Held → Prop} {failed : Error → Held → Prop}
    (hv : K.Meets n visit) (hr : K.Ready n .enter ⟨c, h.state⟩)
    (hd : ∀ t, K.Entered c h.state t → done () { h with state := t })
    (hf : ∀ e t, K.Broken h.state e t → failed e { h with state := t }) :
    Leads (enterClass visit c) h done failed :=
  Invariant.leads_enterClass.2 ((hv .enter ⟨c, h.state⟩ hr).mono (fun _ h' he => hd h'.state he)
    fun e h' hb => hf e h'.state hb)

include hK hv

theorem leads_enter (hr : K.Ready (n + 1) .enter h) :
    Leads (enter ctx visit) h (fun _ h' => K.Done .enter h h')
      fun e h' => K.Broken h.state e h'.state := by
  obtain ⟨c, s⟩ := h
  refine Invariant.leads_enter (fun e he => hK.refused (.condition he)) (hK.skipped hr)
    (fun k => hK.merged hr) (fun k => hK.ignored hr) fun s' hs => ?_
  rcases hs with ⟨hn, rfl⟩ | ⟨⟨k, hk⟩, hi, rfl⟩
  · exact (hv _ _ (hK.enters hr hn)).mono (fun _ h' hd => hK.entered hr hn hd.1 hd.2)
      fun _ _ hb => hb
  · exact (hv _ _ (hK.reenters hr hk hi)).mono (fun _ h' hd => hK.reentered hr hk hi hd.1 hd.2)
      fun _ _ hb => hK.reenter_broken hb

theorem meets_perform : K.Meets (n + 1) (perform ctx visit) := by
  intro v h hr
  cases v with
  | enter => exact leads_enter hK hv hr
  | ascend source => exact leads_ascend hK.steps hv hr
  | imports source names guarded => exact leads_visitImports hK.steps hv hr

end Steps

/-- Every piece of work meets a lawful contract. -/
theorem Lawful.visit {K : Contract} {ctx : Context} (hK : K.Lawful ctx) :
    ∀ n, K.Meets n (visit ctx n)
  | 0 => fun _ _ hr => hK.exhausted hr
  | n + 1 => meets_perform hK (Lawful.visit hK n)

end Contract

end Walk

end Wiring
