import Wiring.Proofs.Deferred
import Wiring.Proofs.Walk.Leads
import Wiring.Proofs.Walk.Refusal

/-!
# Rules for the steps of a walk

A step of a walk does a few things itself and leaves the others to the handler of pieces of work. An
`Invariant` says what is to hold of the walk while a step goes on, and what once it has failed.
There is one rule for each step. It asks of each thing that the step does, or has done, to keep the
invariant.
-/

namespace Wiring

namespace Walk

theorem read?_of_mem_members {r : Reader} {owner : String} {source m : ClassDecl}
    (h : m ∈ members r owner source) : ∃ name, r.read? name = some m := by
  unfold members at h
  obtain ⟨name, -, hread⟩ :=
    List.mem_filterMap.1 (List.mem_filter.1 (Precedence.mem_sort.1 h)).1
  exact ⟨name, hread⟩

/-- What is to hold while a step goes on, and what once it has failed. -/
structure Invariant (ctx : Context) where
  Holds : Held → Prop
  Fails : Error → Held → Prop
  refused {h e} : Holds h → Refused ctx e → Fails e h
  during {h e} (name : String) : Fails e h → Fails (e.during (importWork name)) h

namespace Invariant

/-! ## What the steps do -/

section Things

variable {ctx : Context} (I : Invariant ctx) (visit : Visit → Walk Unit) (source : ClassDecl)

/-- A piece of work with another class in hand, after which the first one is taken up again, leads
to what is to hold, or fails as it may. -/
def Holding (h : Held) (v : Visit) (c : ConfigurationClass) (s : WalkState) (done : Held → Prop)
    (back : WalkState → WalkState) : Prop :=
  Leads (visit v) ⟨c, s⟩ (fun _ h' => done ⟨h.inHand, back h'.state⟩)
    fun e h' => I.Fails e ⟨h.inHand, back h'.state⟩

/-- Going through the members of a source keeps the invariant. -/
structure ByMembers : Prop where
  reported {h} : I.Holds h → h.state.imports.contains h.inHand.name →
    I.Holds ⟨h.inHand, h.state.report (.circularImport h.inHand.name h.state.imports.chain)⟩
  member {h m} : I.Holds h → m ∈ members ctx.reader h.inHand.name source →
    h.state.imports.contains h.inHand.name = false →
    I.Holding visit h .enter (.imported m h.inHand.name)
      (h.state.withImports (·.push h.inHand.name)) I.Holds (·.withImports (·.pop))

/-- Adding property sources keeps the invariant. -/
def BySources : Prop :=
  ∀ {h directive outcome m env}, I.Holds h → h.state.environment.isConfigurable →
    h.state.merger.process ctx h.state.environment source.name directive = (outcome, m, env) →
    I.Holds ⟨h.inHand,
      { h.state with merger := m, world := { h.state.world with environment := env } }⟩

/-- Looking for components keeps the invariant. `Waits h₀ names` says how far a scan has come that
began at `h₀` and still has to look at some of the names it registered. -/
structure ByScans (Waits : Held → List String → Held → Prop) : Prop where
  begun {h directive found names r} : I.Holds h →
    Scan.candidates ctx h.state.environment directive source = .ok found →
    Scan.register h.state.registry found = (.ok names, r) →
    Waits h names ⟨h.inHand, h.state.withRegistry r⟩
  unregistered {h found e r} : I.Holds h → Scan.register h.state.registry found = (.error e, r) →
    I.Fails e ⟨h.inHand, h.state.withRegistry r⟩
  passed {h₀ h name names isCandidate r} : Waits h₀ (name :: names) h →
    h.state.registry.markCandidate ctx.reader name = (isCandidate, r) →
    (isCandidate = true → (r.get? name).bind (·.className?) = none) →
    Waits h₀ names ⟨h.inHand, h.state.withRegistry r⟩
  unreadable {h₀ h name names r className e} : I.Holds h₀ → Waits h₀ (name :: names) h →
    h.state.registry.markCandidate ctx.reader name = (true, r) →
    (r.get? name).bind (·.className?) = some className → ctx.reader.read className = .error e →
    I.Fails e ⟨h.inHand, h.state.withRegistry r⟩
  found {h₀ h name names r className decl} : I.Holds h₀ → Waits h₀ (name :: names) h →
    h.state.registry.markCandidate ctx.reader name = (true, r) →
    (r.get? name).bind (·.className?) = some className → ctx.reader.read className = .ok decl →
    I.Holding visit h .enter (.explicit decl name) (h.state.withRegistry r) (Waits h₀ names) id
  done {h₀ h} : I.Holds h₀ → Waits h₀ [] h → I.Holds h

/-- Going through deferred imports on behalf of stored classes keeps the invariant. -/
structure ByDeferred : Prop where
  stored {h k source' names'} : I.Holds h → h.state.stored? (ClassDecl.name source') = some k →
    I.Holding visit h (.imports source' names' false) k h.state I.Holds id
  registrars {h} (name : String) (added : List RegistrarBinding) : I.Holds h →
    I.Holds ⟨h.inHand, h.state.update name fun d => { d with registrars := d.registrars ++ added }⟩

/-- Going through some imports of the class in hand, which has been pushed, keeps the invariant. -/
structure ByImports (names : List String) : Prop extends I.ByDeferred visit where
  entered {h name decl} : I.Holds h → name ∈ names → ctx.reader.read name = .ok decl →
    I.Holding visit h .enter (.imported decl h.inHand.name)
      (h.state.withImports (·.record source.name name)) I.Holds id
  more {h} (source' : ClassDecl) (names' : List String) : I.Holds h →
    Leads (visit (.imports source' names' false)) h (fun _ => I.Holds) I.Fails
  waits {h} (d : DeferredImport) : I.Holds h → d.importing = h.inHand.decl →
    I.Holds ⟨h.inHand, { h.state with deferred := (h.state.deferred.handle d).2 }⟩
  same {h h'} : I.Holds h → I.Holds h' → h'.inHand.decl = h.inHand.decl
  registrar {h} (b : RegistrarBinding) : I.Holds h →
    I.Holds ⟨{ h.inHand with registrars := h.inHand.registrars ++ [b] }, h.state⟩

/-- What is done with a source before its bean methods are noted keeps the invariant. -/
structure ByAscend (Waits : Held → List String → Held → Prop) : Prop extends
    I.ByMembers visit source, I.ByScans visit source Waits where
  sources : I.BySources source
  imports {h} : I.Holds h →
    Leads (visit (.imports source (collectImports ctx.reader source) true)) h (fun _ => I.Holds)
      I.Fails
  located {h} (resource : ImportedResource) : I.Holds h →
    I.Holds ⟨{ h.inHand with importedResources := h.inHand.importedResources ++ [resource] },
      h.state⟩

end Things

/-! ## The rules -/

section Rules

variable {ctx : Context} {I : Invariant ctx} {visit : Visit → Walk Unit} {source : ClassDecl}
  {h : Held}

theorem leads_outcome {α : Type} {outcome : Except Error α} {done : α → Held → Prop}
    (hk : I.Holds h) (hf : ∀ e, outcome = .error e → Refused ctx e)
    (hd : ∀ a, outcome = .ok a → done a h) : Leads (ofExcept outcome) h done I.Fails :=
  leads_ofExcept.2 ⟨hd, fun e he => I.refused hk (hf e he)⟩

theorem leads_enterClass {c : ConfigurationClass} {done : Unit → Held → Prop}
    {failed : Error → Held → Prop} :
    Leads (enterClass visit c) h done failed ↔
      Leads (visit .enter) { h with inHand := c }
        (fun _ h' => done () { h' with inHand := h.inHand })
        fun e h' => failed e { h' with inHand := h.inHand } := by
  unfold enterClass
  rw [leads_discard, leads_holding]

theorem leads_visitMembers (hI : I.ByMembers visit source) (hk : I.Holds h) :
    Leads (visitMembers ctx visit source) h (fun _ => I.Holds) I.Fails := by
  unfold visitMembers
  rw [leads_bind, leads_inHand]
  refine (Leads.forM (fun _ h' => I.Holds h' ∧ h'.inHand = h.inHand) ⟨hk, rfl⟩
    fun m rest h' hm hk => ?_).imp fun _ _ hk => hk.1
  obtain ⟨hk, hin⟩ := hk
  rw [leads_bind, leads_state, ← hin]
  by_cases hc : h'.state.imports.contains h'.inHand.name = true
  · rw [if_pos hc, leads_modifyState]
    exact ⟨hI.reported hk hc, rfl⟩
  · rw [if_neg hc, leads_goingThrough, leads_enterClass]
    rw [Bool.not_eq_true] at hc
    rw [← hin] at hm
    exact (hI.member hk (hm.subset List.mem_cons_self) hc).imp fun _ _ hd => ⟨hd, rfl⟩

theorem leads_visitPropertySources (hI : I.BySources source) (hk : I.Holds h) :
    Leads (visitPropertySources ctx source) h (fun _ => I.Holds) I.Fails := by
  unfold visitPropertySources
  refine Leads.forM (fun _ => I.Holds) hk fun a rest h _ hk => ?_
  rw [leads_bind, leads_state]
  by_cases hc : h.state.environment.isConfigurable = true
  · rw [if_pos hc]
    rcases hp : h.state.merger.process ctx h.state.environment source.name (.declaredBy a) with
      ⟨outcome, m, env⟩
    simp only
    rw [leads_bind, leads_modifyState]
    have hk' := hI hk hc hp
    refine leads_outcome hk' (fun e he => ?_) fun _ _ => hk'
    exact .source (by rw [hp]; exact he)
  · rw [if_neg hc]
    exact hk

section Scans

variable {Waits : Held → List String → Held → Prop} (hI : I.ByScans visit source Waits)

include hI

theorem leads_visitComponent {h₀ : Held} {name : String} {names : List String} (h0 : I.Holds h₀)
    (hw : Waits h₀ (name :: names) h) :
    Leads (visitComponent ctx visit name) h (fun _ => Waits h₀ names) I.Fails := by
  unfold visitComponent
  rw [leads_bind, leads_state]
  rcases hm : h.state.registry.markCandidate ctx.reader name with ⟨isCandidate, r⟩
  simp only
  rw [leads_bind, leads_modifyState]
  cases isCandidate with
  | false => exact hI.passed hw hm nofun
  | true =>
    rw [if_pos rfl]
    rcases hc : (r.get? name).bind (·.className?) with _ | className
    · exact hI.passed hw hm fun _ => hc
    · unfold enterExplicit
      rw [leads_bind, leads_ofExcept]
      refine ⟨fun decl hd => ?_, fun e he => hI.unreadable h0 hw hm hc he⟩
      rw [leads_enterClass]
      exact hI.found h0 hw hm hc hd

theorem leads_visitScan {directive : Annotation} (hk : I.Holds h) :
    Leads (visitScan ctx visit source directive) h (fun _ => I.Holds) I.Fails := by
  unfold visitScan
  rw [leads_bind, leads_state, leads_bind]
  refine leads_outcome hk (fun e he => .scan he) fun found hf => ?_
  rcases hreg : Scan.register h.state.registry found with ⟨outcome, r⟩
  simp only
  rw [leads_bind, leads_modifyState, leads_bind, leads_ofExcept]
  refine ⟨fun names hn => ?_, fun e he => hI.unregistered hk (he ▸ hreg)⟩
  have hl : Leads (names.forM (visitComponent ctx visit)) ⟨h.inHand, h.state.withRegistry r⟩
      (fun _ => Waits h []) I.Fails :=
    Leads.forM (Waits h) (hI.begun hk hf (hn ▸ hreg)) fun name names h' _ hw =>
      leads_visitComponent hI hk hw
  exact hl.imp fun _ _ hw => hI.done hk hw

theorem leads_visitScans (hk : I.Holds h) :
    Leads (visitScans ctx visit source) h (fun _ => I.Holds) I.Fails := by
  unfold visitScans
  simp only
  split
  · exact hk
  · rw [leads_bind, leads_state, leads_bind]
    refine leads_outcome hk (fun e he => .condition he) fun skipped _ => ?_
    cases skipped with
    | true => exact hk
    | false =>
      exact Leads.forM (fun _ => I.Holds) hk fun directive _ h _ hk => leads_visitScan hI hk

end Scans

theorem leads_visitImportedResources (hk : I.Holds h)
    (hI : ∀ {h} (resource : ImportedResource), I.Holds h → I.Holds
      ⟨{ h.inHand with importedResources := h.inHand.importedResources ++ [resource] }, h.state⟩) :
    Leads (visitImportedResources source) h (fun _ => I.Holds) I.Fails := by
  unfold visitImportedResources
  split
  · exact hk
  next a _ =>
    refine Leads.forM (fun _ => I.Holds) hk fun location _ h _ hk => ?_
    rw [leads_bind, leads_state, leads_bind]
    refine leads_outcome hk (fun e he => .location he) fun location _ => ?_
    rw [leads_modifyInHand]
    exact hI _ hk

/-- What a source declares, and then its superclass. From where the bean methods have been noted on,
something else than the invariant may hold. -/
theorem leads_ascend {Waits : Held → List String → Held → Prop} (noted done : Held → Prop)
    (hI : I.ByAscend visit source Waits) (hk : I.Holds h)
    (hnoted : ∀ h above, I.Holds h → methodsOfInterfaces ctx.reader source = .ok above →
      noted ⟨{ h.inHand with
        beanMethods := h.inHand.beanMethods ++ beanMethods ctx.reader source ++ above }, h.state⟩)
    (htop : ∀ h, noted h → nextSuperclass? ctx h.state source = none → done h)
    (hunread : ∀ h name e, noted h → nextSuperclass? ctx h.state source = some name →
      ctx.reader.read name = .error e →
      I.Fails e ⟨h.inHand, h.state.noteSuperclass name h.inHand.name⟩)
    (hnext : ∀ h name above, noted h → nextSuperclass? ctx h.state source = some name →
      ctx.reader.read name = .ok above →
      Leads (visit (.ascend above)) ⟨h.inHand, h.state.noteSuperclass name h.inHand.name⟩
        (fun _ => done) I.Fails) :
    Leads (ascend ctx visit source) h (fun _ => done) I.Fails := by
  have through {α : Type} {step : Walk α} {next : α → Walk Unit} {h : Held}
      (hl : Leads step h (fun _ => I.Holds) I.Fails)
      (hn : ∀ a h, I.Holds h → Leads (next a) h (fun _ => done) I.Fails) :
      Leads (step >>= next) h (fun _ => done) I.Fails :=
    leads_bind.2 (hl.mono hn fun _ _ hf => hf)
  unfold ascend
  rw [leads_bind, leads_inHand]
  extract_lets rest
  -- all work but the members is done from wherever the members have led
  have hrest (u : Unit) (h : Held) (hk : I.Holds h) : Leads (rest u) h (fun _ => done) I.Fails := by
    unfold rest
    refine through (leads_visitPropertySources hI.sources hk) fun _ h hk => ?_
    refine through (leads_visitScans hI.toByScans hk) fun _ h hk => ?_
    refine through (hI.imports hk) fun _ h hk => ?_
    refine through (leads_visitImportedResources hk hI.located) fun _ h hk => ?_
    unfold visitBeanMethods
    rw [leads_bind, leads_bind]
    refine leads_outcome hk (fun e he => .interfaces he) fun above ha => ?_
    rw [leads_modifyInHand, leads_bind, leads_state]
    have hg := hnoted h above hk ha
    split
    next hn => exact htop _ hg hn
    next name hn =>
      rw [leads_bind, leads_inHand]
      simp only
      rw [leads_bind, leads_modifyState, leads_bind, leads_ofExcept]
      exact ⟨fun above ha => hnext _ _ _ hg hn ha, fun e he => hunread _ _ _ hg hn he⟩
  split
  · exact through (leads_visitMembers hI.toByMembers hk) hrest
  · exact hrest () _ hk

/-! ### Imports -/

/-- Deferred imports are settled. Where the class in hand is looked at, its imports are gone through
with it in hand. A class may be missing that is not looked at and is not stored. -/
theorem leads_visitDeferred (hI : I.ByDeferred visit) (useInHand : Bool) (ds : List DeferredImport)
    (hmore : useInHand = true → ∀ (source : ClassDecl) (names : List String) (h : Held), I.Holds h →
      Leads (visit (.imports source names false)) h (fun _ => I.Holds) I.Fails)
    (hmissing : ∀ d ∈ ds, ∀ h, I.Holds h → (useInHand = true → h.inHand.name ≠ d.importing.name) →
      h.state.stored? d.importing.name = none →
      I.Fails (.invalidConfiguration d.importing.name Error.unparsedText) h)
    (hk : I.Holds h) :
    Leads (visitDeferred ctx visit useInHand ds) h (fun _ => I.Holds) I.Fails := by
  have hentry (entry : DeferredEntry) (hd : ∃ d ∈ ds, entry.importing = d.importing) (h : Held)
      (hk : I.Holds h) :
      Leads (visitDeferredEntry visit useInHand entry) h (fun _ => I.Holds) I.Fails := by
    obtain ⟨d, hd, himporting⟩ := hd
    unfold visitDeferredEntry
    rw [leads_bind, leads_inHand, leads_during]
    split
    next hu =>
      rw [Bool.and_eq_true] at hu
      exact (hmore hu.1 _ _ h hk).mono (fun _ _ hk => hk) fun _ _ hf => I.during _ hf
    next hu =>
      unfold visitStored
      rw [leads_bind, leads_state]
      simp only
      split
      next hs =>
        rw [himporting] at hu hs ⊢
        refine I.during _ (hmissing d hd h hk ?_ hs)
        rintro rfl he
        rw [he, beq_self_eq_true, Bool.true_and] at hu
        exact hu rfl
      next k hs =>
        rw [leads_bind, leads_holding]
        refine (hI.stored hk hs).mono (fun _ h' hk => ?_) fun e h' hf => I.during _ hf
        split
        · exact hk
        · exact hI.registrars _ _ hk
  unfold visitDeferred
  split
  · exact hk
  · rw [leads_bind]
    refine leads_outcome hk (fun e he => .grouping he) fun groups hgroups => ?_
    refine Leads.forM (fun _ => I.Holds) hk fun g rest h hg hk => ?_
    unfold visitGroup
    rw [leads_bind, leads_state, leads_bind]
    refine leads_outcome hk (fun e he => .entries he) fun entries hentries => ?_
    refine Leads.forM (fun _ => I.Holds) hk fun entry others h hentry' hk => ?_
    -- an entry is one of a member of its group, which is one of those to be settled
    obtain ⟨d, hd, himporting⟩ :=
      DeferredGroup.exists_of_entries hentries (hentry'.subset List.mem_cons_self)
    have hds := DeferredGroup.mem_of_ofList hgroups (hg.subset List.mem_cons_self) hd
    exact hentry entry ⟨d, hds, himporting⟩ h hk

theorem leads_visitImport {names : List String} {name : String}
    (hI : I.ByImports visit source names)
    (hname : name ∈ names) (hk : I.Holds h) :
    Leads (visitImport ctx visit source name) h (fun _ => I.Holds) I.Fails := by
  unfold visitImport
  split
  · rw [leads_bind]
    refine leads_outcome hk (fun e he => .plugin he) fun plugin _ => ?_
    cases plugin with
    | deferredSelector selection =>
      simp only
      unfold visitDeferredSelector
      rw [leads_bind, leads_inHand, leads_bind, leads_state]
      simp only
      rw [leads_bind, leads_modifyState]
      have hk' := hI.waits { selectorClass := name, importing := h.inHand.decl, selection } hk rfl
      split
      next d hd =>
        refine leads_visitDeferred hI.toByDeferred true _ (fun _ _ _ _ => hI.more _ _) ?_ hk'
        -- what is handed back imports for the class in hand, which is not missing
        intro d' hd' h' hk'' hne
        rw [List.mem_singleton.1 hd', DeferredQueue.eq_of_handle hd] at hne
        exact absurd (congrArg ClassDecl.name (hI.same hk hk'')) (hne rfl)
      · exact hk'
    | _ => exact I.refused hk (.mismatch _ _ _)
  · rw [leads_bind]
    refine leads_outcome hk (fun e he => .plugin he) fun plugin _ => ?_
    cases plugin with
    | selector selection =>
      simp only
      rw [leads_bind, leads_state, leads_bind]
      exact leads_outcome hk (fun e he => .selection he) fun names' _ => hI.more _ _ hk
    | _ => exact I.refused hk (.mismatch _ _ _)
  · rw [leads_bind]
    refine leads_outcome hk (fun e he => .plugin he) fun plugin _ => ?_
    cases plugin with
    | registrar definitions => exact hI.registrar _ hk
    | _ => exact I.refused hk (.mismatch _ _ _)
  · rw [leads_bind]
    refine leads_outcome hk (fun e he => .unreadable he) fun decl hdecl => ?_
    rw [leads_bind, leads_modifyState, leads_bind, leads_inHand, leads_enterClass]
    exact hI.entered hk hname hdecl

/-- The imports of a source. The invariant is one of the walk with the class in hand pushed. -/
theorem leads_visitImports {names : List String} {guarded : Bool} {done : Held → Prop}
    {failed : Error → Held → Prop} (hnothing : done h)
    (hcircle : h.state.imports.contains h.inHand.name →
      done ⟨h.inHand, h.state.report (.circularImport h.inHand.name h.state.imports.chain)⟩)
    (hdeep : failed (.importDepthExceeded h.inHand.name ctx.settings.maxImportDepth) h)
    (hI : h.state.imports.depth < ctx.settings.maxImportDepth →
      I.Holds ⟨h.inHand, h.state.withImports (·.push h.inHand.name)⟩ ∧
        I.ByImports visit source names ∧
        (∀ h', I.Holds h' → done ⟨h'.inHand, h'.state.withImports (·.pop)⟩) ∧
        ∀ e h', I.Fails e h' → failed (e.during (importWork h.inHand.name))
          ⟨h'.inHand, h'.state.withImports (·.pop)⟩) :
    Leads (visitImports ctx visit source names guarded) h (fun _ => done) failed := by
  unfold visitImports
  rw [leads_bind, leads_inHand]
  simp only
  rw [leads_bind, leads_state]
  split
  · exact hnothing
  · split
    next hc =>
      rw [leads_modifyState]
      simp only [ImportLog.isChained, Bool.and_eq_true] at hc
      exact hcircle hc.2.1
    · split
      · exact hdeep
      next hd =>
        obtain ⟨hk, hI, hdone, hfailed⟩ := hI (Nat.lt_of_not_le hd)
        rw [leads_during, leads_goingThrough]
        have hl : Leads (names.forM (visitImport ctx visit source))
            ⟨h.inHand, h.state.withImports (·.push h.inHand.name)⟩ (fun _ => I.Holds) I.Fails :=
          Leads.forM (fun _ => I.Holds) hk fun name rest h' hn hk =>
            leads_visitImport hI (hn.subset List.mem_cons_self) hk
        exact hl.mono (fun _ h' hk => hdone h' hk) fun e h' hf => hfailed e h' hf

/-! ### Classes -/

omit I in
/-- The class in hand is skipped, or it only adds its importers to the stored class, or it is gone
through, from a state without an earlier form of it. -/
theorem leads_enter {c : ConfigurationClass} {s : WalkState} {done : Held → Prop}
    {failed : Error → Held → Prop}
    (hrefused : ∀ e, ctx.skips s.environment (.ofClass c.decl) (some .parse) = .error e →
      failed e ⟨c, s⟩)
    (hskipped : ctx.skips s.environment (.ofClass c.decl) (some .parse) = .ok true → done ⟨c, s⟩)
    (hmerged : ∀ k, s.stored? c.name = some k → c.isImported → k.isImported →
      done ⟨c, s.update c.name (·.mergeImporters c)⟩)
    (hignored : ∀ k, s.stored? c.name = some k → c.isImported → k.isImported = false → done ⟨c, s⟩)
    (hgather : ∀ s', s.stored? c.name = none ∧ s' = s ∨
        (∃ k, s.stored? c.name = some k) ∧ c.isImported = false ∧ s' = s.discard c.name →
      Leads (visit (.ascend c.decl)) ⟨c, s'⟩
        (fun _ h' => done ⟨h'.inHand, h'.state.store h'.inHand⟩) failed) :
    Leads (enter ctx visit) ⟨c, s⟩ (fun _ => done) failed := by
  have gather (s' : WalkState) (hs : s.stored? c.name = none ∧ s' = s ∨
      (∃ k, s.stored? c.name = some k) ∧ c.isImported = false ∧ s' = s.discard c.name) :
      Leads (gather visit) ⟨c, s'⟩ (fun _ => done) failed := by
    unfold Walk.gather
    rw [leads_bind, leads_inHand, leads_bind]
    exact (hgather s' hs).mono (fun _ h' hd => hd) fun e h' hf => hf
  unfold enter
  rw [leads_bind, leads_inHand, leads_bind, leads_state, leads_bind, leads_ofExcept]
  refine ⟨fun skipped hs => ?_, hrefused⟩
  cases skipped with
  | true => exact hskipped hs
  | false =>
    rw [if_neg Bool.false_ne_true]
    simp only
    split
    next hn => exact gather s (.inl ⟨hn, rfl⟩)
    next k hk =>
      by_cases hi : c.isImported = true
      · rw [if_pos hi]
        by_cases hki : k.isImported = true
        · rw [if_pos hki, leads_modifyState]
          exact hmerged k hk hi hki
        · rw [if_neg hki]
          exact hignored k hk hi (Bool.not_eq_true _ ▸ hki)
      · rw [if_neg hi, leads_bind, leads_modifyState]
        exact gather _ (.inr ⟨⟨k, hk⟩, Bool.not_eq_true _ ▸ hi, rfl⟩)

end Rules

end Invariant

end Walk

end Wiring
