import Wiring.Proofs.Loading

/-!
# Definitions that survive loading

Loading puts definitions in from imported classes, bean methods and registrars, and takes out those
of classes that are skipped. All of them respect what is there: a definition that no scan put into
the registry is replaced only by that of an imported class of its name, and taken out only with its
own class. So all others survive a batch as they are, and in their order.
-/

namespace Wiring

namespace Registry

/-! ## What a change of the registry keeps -/

/-- There is a definition under the name that no scan has put there. -/
def Settled (r : Registry) (name : String) : Prop :=
  ∃ d, r.get? name = some d ∧ d.origin ≠ .scanned

/-- The definitions under the kept names are as they were, and in the same order. -/
structure Keeps (kept : String → Prop) (r r' : Registry) : Prop where
  get?_eq (name : String) : kept name → r'.get? name = r.get? name
  order (chosen : String → Bool) : (∀ name, chosen name = true → kept name) →
    r'.names.filter chosen = r.names.filter chosen

variable {r r' r'' : Registry} {kept fewer : String → Prop} {name : String}
  {definition : Definition}

namespace Keeps

theorem refl (kept : String → Prop) (r : Registry) : Keeps kept r r :=
  ⟨fun _ _ => rfl, fun _ _ => rfl⟩

theorem trans (h : Keeps kept r r') (h' : Keeps kept r' r'') : Keeps kept r r'' where
  get?_eq name hk := (h'.get?_eq name hk).trans (h.get?_eq name hk)
  order chosen hk := (h'.order chosen hk).trans (h.order chosen hk)

theorem mono (h : Keeps kept r r') (hsub : ∀ name, fewer name → kept name) : Keeps fewer r r' where
  get?_eq name hk := h.get?_eq name (hsub name hk)
  order chosen hk := h.order chosen fun name hc => hsub name (hk name hc)

theorem settled (h : Keeps kept r r') (hk : kept name) (hs : r.Settled name) : r'.Settled name := by
  obtain ⟨d, hd, ho⟩ := hs
  exact ⟨d, (h.get?_eq name hk).trans hd, ho⟩

theorem modify (hn : ¬ kept name) (f : Definition → Definition) :
    Keeps kept r (r.modify name f) where
  get?_eq other hk := by
    rw [get?_modify, if_neg]
    rintro rfl
    exact hn hk
  order chosen _ := by rw [names_modify]

theorem register (hn : ¬ kept name) (h : r.register name definition = .ok r') :
    Keeps kept r r' := by
  rcases eq_of_register h with ⟨-, rfl⟩ | ⟨-, rfl⟩
  · exact modify hn _
  · refine ⟨fun other hk => ?_, fun chosen hk => ?_⟩
    · rw [get?_of_register h, if_neg]
      rintro rfl
      exact hn hk
    · have hc : ¬ chosen name = true := fun hc => hn (hk name hc)
      rw [names_withLast, List.filter_append, List.filter_cons_of_neg hc, List.filter_nil,
        List.append_nil]

theorem remove (hn : ¬ kept name) : Keeps kept r (r.remove name) where
  get?_eq other hk := by
    rw [get?_remove, if_neg]
    rintro rfl
    exact hn hk
  order chosen hk := by
    rw [names_remove, List.filter_filter]
    refine List.filter_congr fun other _ => ?_
    cases hc : chosen other with
    | false => rfl
    | true =>
      have hne : other ≠ name := fun he => hn (he ▸ hk other hc)
      rw [bne_iff_ne.2 hne]
      rfl

theorem markCandidate {reader : Reader} {isCandidate : Bool} (hn : ¬ kept name)
    (h : r.markCandidate reader name = (isCandidate, r')) : Keeps kept r r' := by
  rcases markCandidate?_of_markCandidate h with ⟨-, hm⟩ | ⟨-, -, rfl⟩
  · obtain ⟨c, kind, -, -, rfl⟩ := markCandidate?_eq_some.1 hm
    exact modify hn _
  · exact refl kept r'

theorem leaveOut {c : ConfigurationClass} (hn : ∀ name, c.beanName? = some name → ¬ kept name) :
    Keeps kept r (r.leaveOut c) := by
  unfold Registry.leaveOut
  split
  next name hname => exact remove (hn name hname)
  next => exact refl kept r

end Keeps

/-- What registrars put in is under names that were not taken. -/
theorem keeps_runRegistrar {definitions : List (String × String)} {outcome : Except Error Unit}
    (h : Load.runRegistrar r definitions = (outcome, r')) : Keeps r.Settled r r' := by
  induction definitions generalizing r with
  | nil =>
    cases h
    exact .refl _ _
  | cons d rest ih =>
    unfold Load.runRegistrar at h
    split at h
    · exact ih h
    next hnew =>
      split at h
      next r₁ hr =>
        have hfree : ¬ r.Settled d.1 := by
          rintro ⟨e, he, -⟩
          exact hnew (contains_iff_mem_names.2 (mem_names_of_get? he))
        have hfirst : Keeps r.Settled r r₁ := .register hfree hr
        exact hfirst.trans ((ih h).mono fun name hs => hfirst.settled hs hs)
      next =>
        cases h
        exact .refl _ _

end Registry

open Registry (Keeps)

namespace LoadState

/-! ## What loading leaves alone -/

/-- Nothing has been done to the settled definitions, those under touched names aside: they are as
they were, and none of their names has been noted as registered. -/
structure Spares (touched : String → Prop) (s s' : LoadState) : Prop where
  keeps : Keeps (fun name => s.registry.Settled name ∧ ¬ touched name) s.registry s'.registry
  registered (name : String) : s.registry.Settled name → ¬ touched name →
    name ∈ s'.report.registered → name ∈ s.report.registered
  skipped : s.report.skippedClasses ⊆ s'.report.skippedClasses

variable {touched more : String → Prop} {s s' s'' : LoadState}

namespace Spares

theorem refl (touched : String → Prop) (s : LoadState) : Spares touched s s :=
  ⟨.refl _ _, fun _ _ _ hm => hm, List.Subset.refl _⟩

theorem mono (h : Spares touched s s') (hsub : ∀ name, touched name → more name) :
    Spares more s s' where
  keeps := h.keeps.mono fun name hk => ⟨hk.1, fun ht => hk.2 (hsub name ht)⟩
  registered name hs hm := h.registered name hs fun ht => hm (hsub name ht)
  skipped := h.skipped

theorem settled (h : Spares touched s s') {name : String} (hs : s.registry.Settled name)
    (ht : ¬ touched name) : s'.registry.Settled name :=
  h.keeps.settled ⟨hs, ht⟩ hs

theorem trans (h : Spares touched s s') (h' : Spares touched s' s'') : Spares touched s s'' where
  keeps := h.keeps.trans (h'.keeps.mono fun _ hk => ⟨h.settled hk.1 hk.2, hk.2⟩)
  registered name hs ht hm := h.registered name hs ht (h'.registered name (h.settled hs ht) ht hm)
  skipped := List.Subset.trans h.skipped h'.skipped

theorem of_onlyDecides (touched : String → Prop) (h : Load.OnlyDecides s s') :
    Spares touched s s' where
  keeps := h.1.symm ▸ .refl _ _
  registered _ _ _ hm := h.2 ▸ hm
  skipped := h.2.symm ▸ List.Subset.refl _

theorem of_noted {r : Registry} {names : List String}
    (hr : Keeps (fun name => s.registry.Settled name ∧ ¬ touched name) s.registry r)
    (hn : ∀ name ∈ names, s.registry.Settled name → touched name) :
    Spares touched s
      { s with registry := r, report.registered := s.report.registered ++ names } where
  keeps := hr
  registered name hs ht hm := (List.mem_append.1 hm).resolve_right fun hm => ht (hn name hm hs)
  skipped := List.Subset.refl _

end Spares

theorem spares_skip (s : LoadState) (c : ConfigurationClass) :
    Spares (fun name => c.beanName? = some name) s (s.skip c) where
  keeps := .leaveOut fun _ hname hk => hk.2 hname
  registered _ _ _ hm := hm
  skipped := List.subset_append_left _ _

end LoadState

open LoadState (Spares)

namespace Load

variable {ctx : Context} {env : Environment} {known : List ConfigurationClass}
  {c : ConfigurationClass} {s : LoadState} {touched : String → Prop}

theorem spares_register {name : String} {definition : Definition}
    (h : s.registry.Settled name → touched name) :
    Leads (do register name definition; noteRegistered [name]) s (fun _ s' => Spares touched s s')
      fun _ _ => True := by
  rw [leads_bind, leads_register]
  refine ⟨fun r hr => ?_, fun _ _ => trivial⟩
  rw [leads_noteRegistered]
  refine .of_noted (.register (fun hk => hk.2 (h hk.1)) hr) fun other ho => ?_
  rw [List.mem_singleton.1 ho]
  exact h

theorem spares_loadImported (ctx : Context) (c : ConfigurationClass) (s : LoadState) :
    Leads (loadImported ctx c) s (fun _ s' => Spares (fun name => c.name = name) s s')
      fun _ _ => True := by
  unfold loadImported
  rw [leads_bind, leads_register]
  refine ⟨fun r hr => ?_, fun _ _ => trivial⟩
  rw [leads_bind, leads_modify, leads_noteRegistered]
  have htouched : ¬ (s.registry.Settled c.name ∧ ¬ c.name = c.name) := fun hk => hk.2 rfl
  exact .of_noted ((Keeps.register htouched hr).trans (.markCandidate htouched rfl))
    fun name hn _ => (List.mem_singleton.1 hn).symm

/-- A bean method takes only a name that is free or that a scan has taken. -/
theorem spares_loadBeanMethod (factoryBean : String) (m : MethodDecl) (s : LoadState) :
    Leads (loadBeanMethod ctx env c factoryBean m) s (fun _ s' => Spares (fun _ => False) s s')
      fun _ _ => True := by
  unfold loadBeanMethod
  rw [leads_bind, leads_ofExcept]
  refine ⟨fun skipped _ => ?_, fun _ _ => trivial⟩
  split
  · exact ⟨.refl _ _, fun _ _ _ hm => hm, List.Subset.refl _⟩
  · simp only
    rw [leads_bind, leads_get]
    split
    next hnone =>
      refine spares_register ?_
      rintro ⟨d, hd, -⟩
      rw [hnone] at hd
      cases hd
    next existing hget =>
      split
      · exact .refl _ s
      · split
        · split
          · exact .refl _ s
          · trivial
        next hscanned =>
          refine spares_register ?_
          rintro ⟨d, hd, ho⟩
          rw [hget] at hd
          cases hd
          exact hscanned (bne_iff_ne.2 ho)

theorem spares_loadRegistrar (b : RegistrarBinding) (s : LoadState) :
    Leads (loadRegistrar c b) s (fun _ s' => Spares (fun _ => False) s s') fun _ _ => True := by
  unfold loadRegistrar
  rw [leads_bind, leads_get]
  simp only
  rw [leads_bind, leads_get]
  rcases hrun : runRegistrar s.registry b.definitions with ⟨outcome, r⟩
  simp only
  rw [leads_bind, leads_modify, leads_bind, leads_ofExcept]
  refine ⟨fun _ _ => ?_, fun _ _ => trivial⟩
  rw [leads_noteRegistered]
  refine .of_noted ((Registry.keeps_runRegistrar hrun).mono fun _ hk => hk.1) fun name hn hs => ?_
  -- the name of a settled definition was there before
  obtain ⟨d, hd, -⟩ := hs
  obtain ⟨-, hnew⟩ := List.mem_filter.1 hn
  rw [List.contains_iff_mem.2 (Registry.mem_names_of_get? hd)] at hnew
  cases hnew

/-! ## Loading classes -/

/-- What loading a class may touch, given the classes that are reported as skipped: the name of the
class if it is imported, and its bean name if it is skipped. -/
def Touches (skipped : List String) (c : ConfigurationClass) (name : String) : Prop :=
  c.isImported = true ∧ c.name = name ∨ c.name ∈ skipped ∧ c.beanName? = some name

theorem Touches.mono {skipped skipped' : List String} (hsub : skipped ⊆ skipped') {name : String}
    (h : Touches skipped c name) : Touches skipped' c name :=
  h.imp_right fun h => ⟨hsub h.1, h.2⟩

/-- After the definition of the class, bean methods and registrars touch nothing more. -/
theorem spares_forM (factoryBean : String) {s' : LoadState}
    (h : Spares (fun name => c.isImported = true ∧ c.name = name) s s') :
    Leads (do
      c.beanMethods.forM (loadBeanMethod ctx env c factoryBean)
      c.registrars.forM (loadRegistrar c)) s'
      (fun _ s'' => Spares (Touches s''.report.skippedClasses c) s s'') fun _ _ => True := by
  let touched (name : String) : Prop := c.isImported = true ∧ c.name = name
  rw [leads_bind]
  refine (Leads.forM (fun _ s₁ => Spares touched s s₁) h fun m _ s₁ _ h₁ => ?_).imp
    fun _ s₂ h₂ => ?_
  · exact (spares_loadBeanMethod factoryBean m s₁).imp fun _ _ hm => h₁.trans (hm.mono nofun)
  · refine (Leads.forM (fun _ s₃ => Spares touched s s₃) h₂ fun b _ s₃ _ h₃ => ?_).imp
      fun _ s₄ h₄ => h₄.mono fun _ => .inl
    exact (spares_loadRegistrar b s₃).imp fun _ _ hb => h₃.trans (hb.mono nofun)

theorem spares_loadClass (c : ConfigurationClass) (s : LoadState) :
    Leads (loadClass ctx env known c) s
      (fun _ s' => Spares (Touches s'.report.skippedClasses c) s s') fun _ _ => True := by
  unfold loadClass
  rw [leads_bind]
  refine (leads_skips_decides _ c s).imp fun skipped s₁ hdecides => ?_
  have hdecided (touched : String → Prop) : Spares touched s s₁ := .of_onlyDecides touched hdecides
  cases skipped with
  | true =>
    have hc : c.name ∈ (s₁.skip c).report.skippedClasses :=
      List.mem_append_right _ (List.mem_singleton.2 rfl)
    exact (hdecided _).trans ((LoadState.spares_skip s₁ c).mono fun name hname => .inr ⟨hc, hname⟩)
  | false =>
    simp only [Bool.false_eq_true, if_false]
    split
    next hi =>
      rw [Bool.and_eq_true] at hi
      rw [leads_bind]
      refine (spares_loadImported ctx c s₁).imp fun _ s₂ h₂ => spares_forM _ ?_
      exact (hdecided _).trans (h₂.mono fun name hname => ⟨hi.2, hname⟩)
    next => exact spares_forM _ (hdecided _)

theorem spares_batch (batch : List ConfigurationClass) (s : LoadState) :
    Leads (batch.forM (loadClass ctx env known)) s
      (fun _ s' => Spares (fun name => ∃ c ∈ batch, Touches s'.report.skippedClasses c name) s s')
      fun _ _ => True := by
  refine Leads.forM
    (fun _ s' => Spares (fun name => ∃ c ∈ batch, Touches s'.report.skippedClasses c name) s s')
    (.refl _ s) fun c rest s₁ hrest h₁ => ?_
  refine (spares_loadClass c s₁).imp fun _ s₂ h₂ => ?_
  refine (h₁.mono ?_).trans (h₂.mono fun name ht => ⟨c, hrest.subset List.mem_cons_self, ht⟩)
  rintro name ⟨c', hc', ht⟩
  exact ⟨c', hc', ht.mono h₂.skipped⟩

end Load

namespace World

variable {ctx : Context} {w w' : World} {batch known : List ConfigurationClass}
  {report : LoadReport}

/-- The name is that of a definition that no scan has put into the registry, and neither that of an
imported class of the batch nor the bean name of a class that is reported as skipped. -/
structure Undisturbed (r : Registry) (batch : List ConfigurationClass) (report : LoadReport)
    (name : String) : Prop where
  settled : r.Settled name
  imported : ∀ c ∈ batch, c.isImported = true → c.name ≠ name
  skipped : ∀ c ∈ batch, c.name ∈ report.skippedClasses → c.beanName? ≠ some name

/-- Definitions that are left undisturbed survive loading as they are and in their order, and none
of their names is reported as registered; this holds also where a bean method would have registered
a definition under such a name. -/
theorem undisturbed_of_load (h : w.load ctx batch known = (.ok report, w')) :
    (∀ name, Undisturbed w.registry batch report name →
      w'.registry.get? name = w.registry.get? name ∧ name ∉ report.registered) ∧
    (∀ chosen : String → Bool,
      (∀ name, chosen name = true → Undisturbed w.registry batch report name) →
      w'.registry.names.filter chosen = w.registry.names.filter chosen) ∧
    ∀ c ∈ batch, ∀ m ∈ c.beanMethods,
      Undisturbed w.registry batch report (Load.beanMethodName m) →
        w'.registry.get? (Load.beanMethodName m) = w.registry.get? (Load.beanMethodName m) ∧
          Load.beanMethodName m ∉ report.registered := by
  obtain ⟨s, hspares, rfl, rfl⟩ :=
    exists_of_load (Load.spares_batch batch { registry := w.registry }) h
  have huntouched {name : String} (hn : Undisturbed w.registry batch s.report name) :
      ¬ ∃ c ∈ batch, Load.Touches s.report.skippedClasses c name := by
    rintro ⟨c, hc, ⟨hi, hname⟩ | ⟨hskipped, hname⟩⟩
    · exact hn.imported c hc hi hname
    · exact hn.skipped c hc hskipped hname
  have hstands (name : String) (hn : Undisturbed w.registry batch s.report name) :
      s.registry.get? name = w.registry.get? name ∧ name ∉ s.report.registered :=
    ⟨hspares.keeps.get?_eq name ⟨hn.settled, huntouched hn⟩, fun hm =>
      List.not_mem_nil (hspares.registered name hn.settled (huntouched hn) hm)⟩
  refine ⟨hstands, fun chosen hc => ?_, fun c _ m _ => hstands (Load.beanMethodName m)⟩
  exact hspares.keeps.order chosen fun name hn =>
    ⟨(hc name hn).settled, huntouched (hc name hn)⟩

/-- Three roots and a condition that never holds. -/
def crowded : Descriptor where
  roots :=
    [.named "First" (some "first"), .named "Gone" (some "gone"), .named "Last" (some "last")]
  plugins := [.condition "Never" (some false) none none (some .register) none false]

/-- An imported class with a bean method and a registrar that would take the names of two roots, and
the third root, which is skipped. -/
def crowd : List ConfigurationClass :=
  [{ decl := { name := "Extra" }
     importedBy := ["First"]
     beanMethods := [{ name := "first" }, { name := "fresh" }]
     registrars := [⟨"Bring", [("last", "Other"), ("late", "Late")], "Extra"⟩] },
    .explicit
      { name := "Gone", marks := { declared := [.naming AnnotationType.conditional ["Never"]] } }
      "gone"]

theorem undisturbed_of_load_crowded : ∃ ctx w report w',
    Context.ofDescriptor crowded "." { workingDirectory := [], files := [] } Table.empty =
      .ok (ctx, w) ∧
    w.load ctx crowd crowd = (.ok report, w') ∧
    report = { registered := ["Extra", "fresh", "late"], skippedClasses := ["Gone"] } ∧
    (∀ name, name = "first" ∨ name = "last" → Undisturbed w.registry crowd report name) ∧
    w'.registry.get? "first" = w.registry.get? "first" ∧
    w'.registry.names.filter (fun name => name == "first" || name == "last") =
      w.registry.names.filter fun name => name == "first" || name == "last" := by
  obtain ⟨ctx, w, h, hreport, hfirst, hlast⟩ : ∃ ctx w,
      Context.ofDescriptor crowded "." { workingDirectory := [], files := [] } Table.empty =
        .ok (ctx, w) ∧
      (w.load ctx crowd crowd).1.toOption =
        some { registered := ["Extra", "fresh", "late"], skippedClasses := ["Gone"] } ∧
      w.registry.get? "first" = some (.ofClass "First" .root) ∧
      w.registry.get? "last" = some (.ofClass "Last" .root) :=
    ⟨_, _, rfl, by decide +kernel, by decide +kernel, by decide +kernel⟩
  rcases hl : w.load ctx crowd crowd with ⟨_ | report, w'⟩
  · rw [hl] at hreport
    cases hreport
  · rw [hl] at hreport
    obtain rfl := Option.some.inj hreport
    have hstands (name : String) (hn : name = "first" ∨ name = "last") :
        Undisturbed w.registry crowd
          { registered := ["Extra", "fresh", "late"], skippedClasses := ["Gone"] } name := by
      rcases hn with rfl | rfl
      · exact ⟨⟨_, hfirst, by decide⟩, by decide, by decide⟩
      · exact ⟨⟨_, hlast, by decide⟩, by decide, by decide⟩
    obtain ⟨hsame, horder, -⟩ := undisturbed_of_load hl
    refine ⟨ctx, w, _, w', h, hl, rfl, hstands, (hsame _ (hstands _ (.inl rfl))).1, horder _ ?_⟩
    intro name hn
    exact hstands name (by simpa using hn)

end World

end Wiring
