import Wiring.Proofs.Walk.Growth

/-!
# What going through imports makes of a class

Going through imports changes nothing about the class in hand but that registrars come behind those
that it has, and that holds of failures too. So it can be done with a copy of a stored class: the
registrars that the copy has more are all that the stored class has to take over.
-/

namespace Wiring

namespace ConfigurationClass

/-- Add registrars behind those that a class has. -/
def addRegistrars (c : ConfigurationClass) (added : List RegistrarBinding) : ConfigurationClass :=
  { c with registrars := c.registrars ++ added }

/-- The same class in everything, with registrars behind those that it had. -/
structure GainsRegistrars (c d : ConfigurationClass) : Prop where
  decl : d.decl = c.decl
  beanName? : d.beanName? = c.beanName?
  importedBy : d.importedBy = c.importedBy
  beanMethods : d.beanMethods = c.beanMethods
  importedResources : d.importedResources = c.importedResources
  registrars : c.registrars <+: d.registrars

namespace GainsRegistrars

variable {b c d : ConfigurationClass}

@[refl] theorem refl (c : ConfigurationClass) : GainsRegistrars c c :=
  ⟨rfl, rfl, rfl, rfl, rfl, List.prefix_rfl⟩

theorem trans (h : GainsRegistrars b c) (h' : GainsRegistrars c d) : GainsRegistrars b d where
  decl := h'.decl.trans h.decl
  beanName? := h'.beanName?.trans h.beanName?
  importedBy := h'.importedBy.trans h.importedBy
  beanMethods := h'.beanMethods.trans h.beanMethods
  importedResources := h'.importedResources.trans h.importedResources
  registrars := h.registrars.trans h'.registrars

theorem addRegistrars (c : ConfigurationClass) (added : List RegistrarBinding) :
    GainsRegistrars c (c.addRegistrars added) :=
  ⟨rfl, rfl, rfl, rfl, rfl, List.prefix_append _ _⟩

/-- What is behind the registrars that a class had is all that it has gained. -/
theorem eq_addRegistrars (h : GainsRegistrars c d) :
    d = c.addRegistrars (d.registrars.drop c.registrars.length) := by
  obtain ⟨added, hadded⟩ := h.registrars
  have hdrop : d.registrars.drop c.registrars.length = added := by
    rw [← hadded, List.drop_left]
  rw [hdrop]
  obtain ⟨hdecl, hbean, hby, hmethods, hresources, -⟩ := h
  cases c
  cases d
  simp_all [ConfigurationClass.addRegistrars]

end GainsRegistrars

end ConfigurationClass

open ConfigurationClass (GainsRegistrars)

namespace WalkState

/-- To add no registrars is to do nothing. -/
theorem update_addRegistrars_nil (s : WalkState) (name : String) :
    s.update name (·.addRegistrars []) = s := by
  have haux : ∀ l : List ConfigurationClass, updateIn name (·.addRegistrars []) l = l := by
    intro l
    induction l with
    | nil => rfl
    | cons d rest ih =>
      unfold updateIn ConfigurationClass.addRegistrars
      rw [List.append_nil]
      split
      · rfl
      · exact congrArg (d :: ·) ih
  unfold update
  rw [haux]

theorem stored?_addRegistrars (s : WalkState) (name : String) (added : List RegistrarBinding) :
    (s.update name (·.addRegistrars added)).stored? name =
      (s.stored? name).map (·.addRegistrars added) := by
  have hname : ∀ k : ConfigurationClass, (k.addRegistrars added).name = k.name := fun _ => rfl
  rw [stored?_update hname, if_pos rfl]

/-- What is taken over for a stored class from work with a copy of it: the registrars that the copy
has more, if the work is done. -/
def takeOver (s : WalkState) (worked : Except Error Unit) (name : String)
    (added : List RegistrarBinding) : WalkState :=
  match worked with
  | .ok () => s.update name (·.addRegistrars added)
  | .error _ => s

end WalkState

namespace Walk

variable {ctx : Context}

/-- What is to hold of work with a class in hand, also where it fails: the class has only gained
registrars. -/
def gaining (ctx : Context) (c : ConfigurationClass) : Invariant ctx where
  Holds h := c.GainsRegistrars h.inHand
  Fails _ h := c.GainsRegistrars h.inHand
  refused hg _ := hg
  during _ hg := hg

/-- Imports are gone through by a handler that only adds registrars. Whatever other classes are held
in between, the class in hand is taken up again as it was. -/
theorem byImports_gaining {visit : Visit → Walk Unit}
    (hv : ∀ (source : ClassDecl) (names : List String) (h : Held),
      Leads (visit (.imports source names false)) h (fun _ h' => h.inHand.GainsRegistrars h'.inHand)
        fun _ h' => h.inHand.GainsRegistrars h'.inHand)
    (c : ConfigurationClass) (source : ClassDecl) (names : List String) :
    (gaining ctx c).ByImports visit source names where
  stored hg _ := leads_of_forall (fun _ _ => hg) fun _ _ => hg
  registrars _ _ hg := hg
  entered hg _ _ := leads_of_forall (fun _ _ => hg) fun _ _ => hg
  more source' names' hg :=
    (hv source' names' _).mono (fun _ _ hg' => GainsRegistrars.trans hg hg')
      fun _ _ hg' => GainsRegistrars.trans hg hg'
  waits _ hg _ := hg
  same hg hg' := hg'.decl.trans hg.decl.symm
  registrar b hg := GainsRegistrars.trans hg (.addRegistrars _ [b])

/-- Going through imports only adds registrars to the class in hand, however deep it nests. -/
theorem leads_imports_gaining (ctx : Context) (n : Nat) (source : ClassDecl) (names : List String)
    (guarded : Bool) (h : Held) :
    Leads (visit ctx n (.imports source names guarded)) h
      (fun _ h' => h.inHand.GainsRegistrars h'.inHand)
      fun _ h' => h.inHand.GainsRegistrars h'.inHand := by
  induction n generalizing source names guarded h with
  | zero => exact .refl h.inHand
  | succ n ih =>
    refine Invariant.leads_visitImports (I := gaining ctx h.inHand) (.refl h.inHand)
      (fun _ => .refl h.inHand) (.refl h.inHand) fun _ => ?_
    exact ⟨.refl h.inHand, byImports_gaining (fun _ _ _ => ih _ _ _ _) h.inHand source names,
      fun _ hg => hg, fun _ _ hg => hg⟩

theorem gains_of_imports (ctx : Context) (n : Nat) (source : ClassDecl) (names : List String)
    (guarded : Bool) (h : Held) :
    h.inHand.GainsRegistrars
      ((visit ctx n (.imports source names guarded)).run.run h).2.inHand := by
  let gained (ended : Except Error Unit × Held) : Prop := h.inHand.GainsRegistrars ended.2.inHand
  exact (leads_iff_run (P := gained)).1 (leads_imports_gaining ctx n source names guarded h)

/-! ## Work with a copy of a stored class -/

section Stored

variable {entry : DeferredEntry} {h t : Held} {c : ConfigurationClass}

/-- A deferred import for a stored class is gone through with a copy of it in hand. If that is done,
the class that is stored then takes over the registrars that the copy has more; if it has failed,
nothing is taken over. -/
theorem run_visitStored {visit : Visit → Walk Unit} {worked : Except Error Unit}
    (hc : h.state.stored? entry.importing.name = some c)
    (hrun : (visit (.imports entry.importing [entry.className] false)).run.run ⟨c, h.state⟩ =
      (worked, t)) :
    (visitStored visit entry).run.run h =
      (worked, ⟨h.inHand, t.state.takeOver worked entry.importing.name
        (t.inHand.registrars.drop c.registrars.length)⟩) := by
  refine (leads_iff_run (P := (· = _))).1 ?_
  unfold visitStored
  rw [leads_bind, leads_state, hc, leads_bind, leads_holding]
  unfold Leads
  rw [hrun]
  cases worked with
  | error e => rfl
  | ok _ =>
    show Leads _ _ _ _
    extract_lets added
    split
    next hempty =>
      have hnone : t.inHand.registrars.drop c.registrars.length = [] := List.isEmpty_iff.1 hempty
      have hstate : t.state.takeOver (.ok ()) entry.importing.name [] = t.state :=
        WalkState.update_addRegistrars_nil t.state _
      rw [hnone, leads_pure, hstate]
    next => rfl

theorem exists_stored_of_imports (hctx : ctx.Declared) {n : Nat} {source : ClassDecl}
    {names : List String} {guarded : Bool} {name : String}
    (hc : h.state.stored? name = some c)
    (hrun : (visit ctx n (.imports source names guarded)).run.run h = (.ok (), t)) :
    ∃ d, t.state.stored? name = some d := by
  have hmeets := (growth_lawful hctx).visit n (.imports source names guarded) h trivial
  unfold Leads at hmeets
  rw [hrun] at hmeets
  have hmem := hmeets.1.stored (WalkState.mem_storedNames_of_stored? hc)
  refine Option.ne_none_iff_exists'.1 fun hnone => ?_
  exact WalkState.stored?_eq_none_iff.1 hnone hmem

end Stored

/-- Going through imports, whatever it comes to, leaves the class in hand as it was up to registrars
behind those that it had. So a deferred import for a stored class loses nothing by being gone
through with a copy: the copy only differs by the registrars added to it, and if the work is done,
the class of the name, which is still stored, has these behind its own in the end; where nothing
else has happened to it, it is what the copy has become. If the work has failed, nothing is taken
over. The class in hand meanwhile stays the same. -/
theorem imports_only_add_registrars (ctx : Context) (n : Nat) :
    (∀ (source : ClassDecl) (names : List String) (guarded : Bool) (h : Held),
      h.inHand.GainsRegistrars
        ((visit ctx n (.imports source names guarded)).run.run h).2.inHand) ∧
    ∀ (entry : DeferredEntry) (h : Held) (c : ConfigurationClass),
      h.state.stored? entry.importing.name = some c →
      ∃ worked added s,
        (visit ctx n (.imports entry.importing [entry.className] false)).run.run ⟨c, h.state⟩ =
          (worked, ⟨c.addRegistrars added, s⟩) ∧
        (visitStored (visit ctx n) entry).run.run h =
          (worked, ⟨h.inHand, s.takeOver worked entry.importing.name added⟩) ∧
        (ctx.Declared → worked = .ok () → ∃ d, s.stored? entry.importing.name = some d ∧
          (s.takeOver worked entry.importing.name added).stored? entry.importing.name =
            some (d.addRegistrars added)) := by
  refine ⟨gains_of_imports ctx n, fun entry h c hc => ?_⟩
  rcases hrun : (visit ctx n (.imports entry.importing [entry.className] false)).run.run
    ⟨c, h.state⟩ with ⟨worked, d, s⟩
  have hgains := gains_of_imports ctx n entry.importing [entry.className] false ⟨c, h.state⟩
  rw [hrun] at hgains
  have hcopy : d = c.addRegistrars (d.registrars.drop c.registrars.length) :=
    hgains.eq_addRegistrars
  refine ⟨worked, d.registrars.drop c.registrars.length, s, ?_, run_visitStored hc hrun, ?_⟩
  · rw [← hcopy]
  · rintro hctx rfl
    obtain ⟨k, hk⟩ := exists_stored_of_imports (h := ⟨c, h.state⟩) hctx hc hrun
    refine ⟨k, hk, ?_⟩
    exact (WalkState.stored?_addRegistrars s _ _).trans (congrArg (Option.map _) hk)

/-- A selection that leads to registrars at once, by a further deferred import, and to a class. -/
def registrations : Descriptor :=
  { classes := [{ name := "App" }, { name := "Log" }]
    plugins :=
      [.selector "Chooser" ["Second", "Later", "Log"],
        .deferredSelector "Later" ["Third"] none none false,
        .registrar "First" [], .registrar "Second" [("clock", "Clock")], .registrar "Third" []] }

/-- A stored class with a registrar, while deferred imports are being settled. -/
def registering (w : World) : Held :=
  { inHand := .explicit { name := "Log" } "log"
    state :=
      { world := w
        classes := [(.explicit { name := "App" } "app" : ConfigurationClass).addRegistrars
          [⟨"First", [], "App"⟩]]
        deferred := ⟨none⟩ } }

/-- The copy of the stored class gains two registrars, the second of them by a deferred import that
is settled as soon as it is met. -/
theorem imports_only_add_registrars_settling : ∃ ctx w c,
    Context.ofDescriptor registrations "." { workingDirectory := [], files := [] } Table.empty =
      .ok (ctx, w) ∧
    (registering w).state.stored? "App" = some c ∧
    ∃ worked added s,
      (visit ctx 8 (.imports { name := "App" } ["Chooser"] false)).run.run
        ⟨c, (registering w).state⟩ = (worked, ⟨c.addRegistrars added, s⟩) ∧
      worked = .ok () ∧
      (c.addRegistrars added).registrars.map (·.className) = ["First", "Second", "Third"] ∧
      (visitStored (visit ctx 8) ⟨{ name := "App" }, "Chooser"⟩).run.run (registering w) =
        (worked, ⟨(registering w).inHand, s.takeOver worked "App" added⟩) ∧
      ∃ d, s.stored? "App" = some d ∧
        (s.takeOver worked "App" added).stored? "App" = some (d.addRegistrars added) := by
  have h : Context.ofDescriptor registrations "." { workingDirectory := [], files := [] }
    Table.empty = .ok (_, _) := rfl
  refine ⟨_, _, _, h, rfl, ?_⟩
  obtain ⟨worked, added, s, hrun, hstored, hkept⟩ :=
    (imports_only_add_registrars _ 8).2 ⟨{ name := "App" }, "Chooser"⟩ (registering _) _ rfl
  have hended := congrArg Prod.fst hrun
  have hadded := congrArg (fun ended => ended.2.inHand.registrars.map (·.className)) hrun
  refine ⟨worked, added, s, hrun, hended.symm.trans ?done, hadded.symm.trans ?_, hstored,
    hkept (Context.declared_of_ofDescriptor h) (hended.symm.trans ?done)⟩
  case done => decide +kernel
  · decide +kernel

end Walk

end Wiring
