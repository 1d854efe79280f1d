import Wiring.Proofs.Walk.Notices

/-!
# Walks by two handlers

The steps of a walk do the same whatever handler does the pieces of work that they lead to. A
`Pairing` is a relation between two runs from one state that holds of what steps do themselves and
is kept by every way to put steps together. It holds of each step done by two handlers if it holds
of the handlers. While imports are gone through, the class in hand stays the same, so the work that
a failure is reported with is that on the imports of this class.
-/

namespace Wiring

namespace Walk

/-- A relation between two steps, run from a state, that all ways to put steps together keep. What
comes after a step matters only where the second one may come to. -/
structure Pairing (ctx : Context) where
  Rel {α : Type} : Walk α → Walk α → Held → Prop
  /-- The classes whose imports may be reported as the work during which a step failed. -/
  Named : String → Prop
  value {α : Type} (a : α) (h : Held) : Rel (pure a) (pure a) h
  refused {α : Type} {e : Error} (h : Held) : Refused ctx e → Rel (throw e : Walk α) (throw e) h
  unparsed {α : Type} (name : String) (h : Held) :
    Rel (throw (.invalidConfiguration name Error.unparsedText) : Walk α)
      (throw (.invalidConfiguration name Error.unparsedText)) h
  next {α β : Type} {step step' : Walk β} {after after' : β → Walk α} {h : Held} :
    Rel step step' h → Leads step' h (fun b h' => Rel (after b) (after' b) h') (fun _ _ => True) →
    Rel (step >>= after) (step' >>= after') h
  inHand {α : Type} {after after' : ConfigurationClass → Walk α} {h : Held} :
    Rel (after h.inHand) (after' h.inHand) h → Rel (inHand >>= after) (inHand >>= after') h
  state {α : Type} {after after' : WalkState → Walk α} {h : Held} :
    Rel (after h.state) (after' h.state) h → Rel (state >>= after) (state >>= after') h
  modifyState {f : WalkState → WalkState} {h : Held} (hf : ∀ s, (f s).classes = s.classes) :
    Rel (modifyState f) (modifyState f) h
  registrars (name : String) (added : List RegistrarBinding) (h : Held) :
    Rel (Walk.modifyState (·.update name fun d => { d with registrars := d.registrars ++ added }))
      (Walk.modifyState (·.update name fun d => { d with registrars := d.registrars ++ added })) h
  modifyInHand (f : ConfigurationClass → ConfigurationClass) (h : Held) :
    Rel (modifyInHand f) (modifyInHand f) h
  holding {c : ConfigurationClass} {step step' : Walk Unit} {h : Held} :
    Rel step step' { h with inHand := c } → Rel (holding c step) (holding c step') h
  goingThrough {name : String} {step step' : Walk Unit} {h : Held} :
    Rel step step' { h with state := h.state.withImports (·.push name) } →
    Rel (goingThrough name step) (goingThrough name step') h
  during {name : String} {step step' : Walk Unit} {h : Held} : Named name →
    Rel step step' h → Rel (during (importWork name) step) (during (importWork name) step') h

/-! ## The class in hand -/

/-- A handler that goes through imports with the same class in hand to the end. -/
def Steady (visit : Visit → Walk Unit) : Prop :=
  ∀ (source : ClassDecl) (names : List String) (h : Held),
    Leads (visit (.imports source names false)) h
      (fun _ h' => h'.inHand.decl = h.inHand.decl) fun _ _ => True

theorem steady_visit (ctx : Context) (n : Nat) : Steady (visit ctx n) := fun _ _ _ =>
  ((noticing ctx).lawful.visit n _ _ trivial).mono (fun _ _ hd => hd.2.1) fun _ _ _ => trivial

/-- A class is in hand, whatever else holds. -/
def keepsInHand (ctx : Context) (decl : ClassDecl) : Invariant ctx where
  Holds h := h.inHand.decl = decl
  Fails _ _ := True
  refused _ _ := trivial
  during _ _ := trivial

theorem leads_visitImport_steady {ctx : Context} {visit : Visit → Walk Unit} (hv : Steady visit)
    (source : ClassDecl) (name : String) {decl : ClassDecl} {h : Held}
    (hdecl : h.inHand.decl = decl) :
    Leads (visitImport ctx visit source name) h (fun _ h' => h'.inHand.decl = decl)
      fun _ _ => True := by
  have hholding {h : Held} (hk : h.inHand.decl = decl) (v : Visit) (c : ConfigurationClass)
      (s : WalkState) :
      (keepsInHand ctx decl).Holding visit h v c s (keepsInHand ctx decl).Holds id :=
    leads_of_forall (fun _ _ => hk) fun _ _ => trivial
  have hby : (keepsInHand ctx decl).ByImports visit source [name] :=
    { stored := fun hk _ => hholding hk _ _ _
      registrars := fun _ _ hk => hk
      entered := fun hk _ _ => hholding hk _ _ _
      more := fun source' names' hk => by
        rw [show decl = _ from hk.symm]
        exact hv source' names' _
      waits := fun _ hk _ => hk
      same := fun hk hk' => hk'.trans hk.symm
      registrar := fun _ hk => hk }
  exact Invariant.leads_visitImport hby (List.mem_singleton_self name) hdecl

namespace Pairing

variable {ctx : Context} (P : Pairing ctx)

theorem outcome {α β : Type} {o : Except Error β} {after after' : β → Walk α} {h : Held}
    (hf : ∀ e, o = .error e → Refused ctx e) (hn : ∀ b, o = .ok b → P.Rel (after b) (after' b) h) :
    P.Rel (ofExcept o >>= after) (ofExcept o >>= after') h := by
  cases o with
  | ok b => exact hn b rfl
  | error e => exact P.refused h (hf e rfl)

theorem after {α β : Type} {step step' : Walk β} {after after' : β → Walk α} {h : Held}
    (hs : P.Rel step step' h) (hn : ∀ b h', P.Rel (after b) (after' b) h') :
    P.Rel (step >>= after) (step' >>= after') h :=
  P.next hs (leads_of_forall hn fun _ _ => trivial)

/-- A loop, of which every step keeps what the next one needs. -/
theorem forM_of_keeps {β : Type} {items : List β} {step step' : β → Walk Unit} {h : Held}
    (keeps : Held → Prop) (h0 : keeps h)
    (hs : ∀ b ∈ items, ∀ h, keeps h → P.Rel (step b) (step' b) h ∧
      Leads (step' b) h (fun _ => keeps) fun _ _ => True) :
    P.Rel (items.forM step) (items.forM step') h := by
  induction items generalizing h with
  | nil => exact P.value () h
  | cons b rest ih =>
    obtain ⟨hrel, hkeeps⟩ := hs b List.mem_cons_self h h0
    refine P.next hrel (hkeeps.mono ?_ fun _ _ _ => trivial)
    intro _ h' hk
    refine ih hk ?_
    intro b' hb'
    exact hs b' (List.mem_cons_of_mem _ hb')

theorem forM {β : Type} {items : List β} {step step' : β → Walk Unit} {h : Held}
    (hs : ∀ b ∈ items, ∀ h, P.Rel (step b) (step' b) h) :
    P.Rel (items.forM step) (items.forM step') h := by
  refine P.forM_of_keeps (fun _ => True) trivial ?_
  intro b hb h' _
  exact ⟨hs b hb h', leads_of_forall (fun _ _ => trivial) fun _ _ => trivial⟩

/-! ## Steps without pieces of work -/

theorem visitPropertySources (source : ClassDecl) (h : Held) :
    P.Rel (visitPropertySources ctx source) (visitPropertySources ctx source) h := by
  refine P.forM fun a _ h' => P.state ?_
  split
  · rcases hp : h'.state.merger.process ctx h'.state.environment source.name (.declaredBy a) with
      ⟨o, merger, environment⟩
    refine P.after (P.modifyState fun _ => rfl) fun _ h'' => ?_
    have ho : ∀ e, o = .error e → Refused ctx e := by
      rintro e rfl
      exact .source (by rw [hp])
    cases o with
    | ok u => exact P.value u h''
    | error e => exact P.refused h'' (ho e rfl)
  · exact P.value () h'

theorem visitImportedResources (source : ClassDecl) (h : Held) :
    P.Rel (visitImportedResources source) (visitImportedResources source) h := by
  unfold Walk.visitImportedResources
  split
  · exact P.value () h
  · refine P.forM fun _ _ _ => P.state (P.outcome (fun e he => .location he) fun _ _ => ?_)
    exact P.modifyInHand _ _

theorem visitBeanMethods (source : ClassDecl) (h : Held) :
    P.Rel (visitBeanMethods ctx source) (visitBeanMethods ctx source) h :=
  P.outcome (fun _ he => .interfaces he) fun _ _ => P.modifyInHand _ _

/-! ## Steps by two handlers -/

section Steps

variable {P} {visit visit' : Visit → Walk Unit} {source : ClassDecl} {h : Held}
  (hv : ∀ v h, P.Rel (visit v) (visit' v) h)

include hv

theorem enterClass (c : ConfigurationClass) (h : Held) :
    P.Rel (enterClass visit c) (enterClass visit' c) h := by
  have hdiscard (step : Walk ConfigurationClass) : discard step = step >>= fun _ => pure () := by
    rw [← map_eq_pure_bind]
    rfl
  unfold Walk.enterClass
  rw [hdiscard, hdiscard]
  exact P.after (P.holding (hv _ _)) fun _ h' => P.value () h'

theorem enterExplicit (className beanName : String) (h : Held) :
    P.Rel (enterExplicit ctx visit className beanName) (enterExplicit ctx visit' className beanName)
      h :=
  P.outcome (fun _ he => .unreadable he) fun _ _ => enterClass hv _ _

theorem visitMembers (source : ClassDecl) (h : Held) :
    P.Rel (visitMembers ctx visit source) (visitMembers ctx visit' source) h := by
  refine P.inHand (P.forM fun c _ h' => P.state ?_)
  split
  · exact P.modifyState fun _ => rfl
  · exact P.goingThrough (enterClass hv _ _)

theorem visitComponent (beanName : String) (h : Held) :
    P.Rel (visitComponent ctx visit beanName) (visitComponent ctx visit' beanName) h := by
  refine P.state ?_
  rcases h.state.registry.markCandidate ctx.reader beanName with ⟨_ | _, r⟩
  · exact P.after (P.modifyState fun _ => rfl) fun _ h' => P.value () h'
  · refine P.after (P.modifyState fun _ => rfl) fun _ h' => ?_
    simp only [if_true]
    split
    · exact enterExplicit hv _ _ _
    · exact P.value () h'

theorem visitScan (source : ClassDecl) (directive : Annotation) (h : Held) :
    P.Rel (visitScan ctx visit source directive) (visitScan ctx visit' source directive) h := by
  refine P.state (P.outcome (fun _ he => .scan he) fun found _ => ?_)
  rcases hreg : Scan.register h.state.registry found with ⟨o, r⟩
  refine P.after (P.modifyState fun _ => rfl) fun _ h' => ?_
  refine P.outcome ?_ fun names _ => P.forM fun _ _ _ => visitComponent hv _ _
  rintro e rfl
  exact .definition (by rw [hreg])

theorem visitScans (source : ClassDecl) (h : Held) :
    P.Rel (visitScans ctx visit source) (visitScans ctx visit' source) h := by
  unfold Walk.visitScans
  simp only
  split
  · exact P.value () h
  · refine P.state (P.outcome (fun _ he => .condition he) fun skipped _ => ?_)
    split
    · exact P.value () h
    · exact P.forM fun _ _ _ => visitScan hv _ _ _

/-! ### Imports -/

omit hv in
/-- Deferred imports are gone through by handlers that are a pair where these import for the class
in hand or for a stored class. -/
theorem visitDeferred (useInHand : Bool) (ds : List DeferredImport) (h : Held)
    (hnamed : ∀ d ∈ ds, P.Named d.importing.name)
    (hmore : useInHand = true → ∀ (source : ClassDecl) (names : List String) (h : Held),
      P.Rel (visit (.imports source names false)) (visit' (.imports source names false)) h)
    (hstored : ∀ d ∈ ds, ∀ (names : List String) (k : ConfigurationClass) (h : Held),
      h.state.stored? d.importing.name = some k →
      P.Rel (visit (.imports d.importing names false)) (visit' (.imports d.importing names false))
        { h with inHand := k }) :
    P.Rel (visitDeferred ctx visit useInHand ds) (visitDeferred ctx visit' useInHand ds) h := by
  have hentry (entry : DeferredEntry) (hd : ∃ d ∈ ds, entry.importing = d.importing) (h : Held) :
      P.Rel (visitDeferredEntry visit useInHand entry) (visitDeferredEntry visit' useInHand entry)
        h := by
    obtain ⟨d, hd, himporting⟩ := hd
    refine P.inHand (P.during ?_ ?_)
    · rw [himporting]
      exact hnamed d hd
    split
    next hu =>
      rw [Bool.and_eq_true] at hu
      exact hmore hu.1 _ _ _
    refine P.state ?_
    simp only
    split
    · exact P.unparsed _ _
    next k hk =>
      rw [himporting] at hk ⊢
      refine P.after (P.holding (hstored d hd _ k h hk)) fun c' h' => ?_
      split
      · exact P.value () h'
      · exact P.registrars _ _ _
  unfold Walk.visitDeferred
  split
  · exact P.value () h
  refine P.outcome (fun _ he => .grouping he) fun groups hgroups => P.forM fun g hg h' => P.state ?_
  refine P.outcome (fun _ he => .entries he) fun entries hentries => P.forM fun entry he h'' => ?_
  -- an entry is one of a member of its group, which is one of those to be settled
  obtain ⟨d, hd, himporting⟩ := DeferredGroup.exists_of_entries hentries he
  exact hentry entry ⟨d, DeferredGroup.mem_of_ofList hgroups hg hd, himporting⟩ h''

theorem visitDeferredSelector (name : String) (selection : DeferredSelection) (h : Held)
    (hnamed : P.Named h.inHand.name) :
    P.Rel (visitDeferredSelector ctx visit name selection)
      (visitDeferredSelector ctx visit' name selection) h := by
  refine P.inHand (P.state ?_)
  let d : DeferredImport := { selectorClass := name, importing := h.inHand.decl, selection }
  rcases hd : h.state.deferred.handle d with ⟨_ | d', deferred⟩
  · exact P.after (P.modifyState fun _ => rfl) fun _ h' => P.value () h'
  · refine P.after (P.modifyState fun _ => rfl) fun _ h' => ?_
    refine visitDeferred true [d'] h' ?_ (fun _ _ _ _ => hv _ _) fun _ _ _ _ _ _ => hv _ _
    -- what is handed back imports for the class in hand
    intro d'' hd''
    rw [List.mem_singleton.1 hd'', DeferredQueue.eq_of_handle (congrArg Prod.fst hd)]
    exact hnamed

theorem visitImport (source : ClassDecl) (name : String) (h : Held)
    (hnamed : P.Named h.inHand.name) :
    P.Rel (visitImport ctx visit source name) (visitImport ctx visit' source name) h := by
  unfold Walk.visitImport
  split
  · refine P.outcome (fun _ he => .plugin he) fun plugin _ => ?_
    cases plugin with
    | deferredSelector selection => exact visitDeferredSelector hv _ _ _ hnamed
    | _ => exact P.refused h (.mismatch _ _ _)
  · refine P.outcome (fun _ he => .plugin he) fun plugin _ => ?_
    cases plugin with
    | selector selection => exact P.state (P.outcome (fun _ he => .selection he) fun _ _ => hv _ _)
    | _ => exact P.refused h (.mismatch _ _ _)
  · refine P.outcome (fun _ he => .plugin he) fun plugin _ => ?_
    cases plugin with
    | registrar definitions => exact P.modifyInHand _ _
    | _ => exact P.refused h (.mismatch _ _ _)
  · refine P.outcome (fun _ he => .unreadable he) fun decl _ => ?_
    refine P.after (P.modifyState fun _ => rfl) fun _ h' => P.inHand ?_
    exact enterClass hv _ _

theorem visitImports (hsteady : Steady visit') (source : ClassDecl) (names : List String)
    (guarded : Bool) (h : Held) (hnamed : P.Named h.inHand.name) :
    P.Rel (visitImports ctx visit source names guarded)
      (visitImports ctx visit' source names guarded)
      h := by
  refine P.inHand (P.state ?_)
  split
  · exact P.value () h
  · split
    · exact P.modifyState fun _ => rfl
    · split
      · exact P.refused h (.depth _)
      · refine P.during hnamed (P.goingThrough
          (P.forM_of_keeps (·.inHand.decl = h.inHand.decl) rfl ?_))
        intro name _ h' hdecl
        refine ⟨visitImport hv source name h' ?_,
          leads_visitImport_steady hsteady source name hdecl⟩
        rw [show h'.inHand.name = h.inHand.name from congrArg ClassDecl.name hdecl]
        exact hnamed

theorem ascend (source : ClassDecl) (h : Held) :
    P.Rel (ascend ctx visit source) (ascend ctx visit' source) h := by
  refine P.inHand ?_
  extract_lets rest rest'
  -- what comes after the members is the same with them and without
  have hrest (u : Unit) (h : Held) : P.Rel (rest u) (rest' u) h := by
    refine P.after (P.visitPropertySources source h) fun _ h => ?_
    refine P.after (visitScans hv source h) fun _ h => P.after (hv _ h) fun _ h => ?_
    refine P.after (P.visitImportedResources source h) fun _ h => ?_
    refine P.after (P.visitBeanMethods source h) fun _ h => P.state ?_
    split
    · exact P.value () h
    · refine P.inHand (P.after (P.modifyState fun _ => rfl) fun _ h => ?_)
      exact P.outcome (fun _ he => .unreadable he) fun _ _ => hv _ h
  split
  · exact P.after (visitMembers hv source h) hrest
  · exact hrest () h

end Steps

end Pairing

end Walk

end Wiring
