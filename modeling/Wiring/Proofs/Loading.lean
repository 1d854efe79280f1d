import Mathlib.Logic.Relation
import Wiring.Load
import Wiring.Proofs.Candidate
import Wiring.Proofs.Leads

/-!
# What loading a class does

A class that is skipped takes its definition out of the registry. One that is not puts definitions
in, one after the other: its own if it was imported, those of its bean methods, and those of its
registrars. `Brings` says what each of these may be, so that a property of loading has to be looked
into for a single one of them.
-/

open Relation (ReflTransGen)

namespace Wiring

/-- The registry without the definition under the bean name of the class. -/
def Registry.leaveOut (r : Registry) (c : ConfigurationClass) : Registry :=
  match c.beanName? with
  | some name => r.remove name
  | none => r

theorem Registry.mem_names_leaveOut {r : Registry} {c : ConfigurationClass} {name : String} :
    name ∈ (r.leaveOut c).names ↔ name ∈ r.names ∧ c.beanName? ≠ some name := by
  unfold leaveOut
  cases c.beanName? with
  | none => simp
  | some beanName =>
    rw [names_remove, List.mem_filter, bne_iff_ne, Ne, Ne, Option.some.injEq, eq_comm]

theorem Registry.defines_leaveOut {r : Registry} {c : ConfigurationClass}
    {name className : String} :
    (r.leaveOut c).Defines name className ↔ r.Defines name className ∧ c.beanName? ≠ some name := by
  unfold leaveOut
  cases c.beanName? with
  | none => simp
  | some beanName => rw [defines_remove, Ne, Ne, Option.some.injEq, eq_comm]

/-- The definition under the bean name of the class has been taken out, and the class reported. -/
def LoadState.skip (s : LoadState) (c : ConfigurationClass) : LoadState :=
  { s with
    registry := s.registry.leaveOut c
    report.skippedClasses := s.report.skippedClasses ++ [c.name] }

namespace Load

section Steps

variable {s : LoadState} {failed : Error → LoadState → Prop}

theorem leads_ofExcept {α : Type} {outcome : Except Error α} {done : α → LoadState → Prop} :
    Leads (ofExcept outcome) s done failed ↔
      (∀ a, outcome = .ok a → done a s) ∧ ∀ e, outcome = .error e → failed e s := by
  cases outcome with
  | ok a => simp [ofExcept]
  | error e => simp [ofExcept]

theorem leads_noteDecision {name : String} {skipped : Bool} {done : Unit → LoadState → Prop} :
    Leads (noteDecision name skipped) s done failed ↔
      done () { s with decisions := (name, skipped) :: s.decisions } := Iff.rfl

theorem leads_noteRegistered {names : List String} {done : Unit → LoadState → Prop} :
    Leads (noteRegistered names) s done failed ↔
      done () { s with report.registered := s.report.registered ++ names } := Iff.rfl

theorem leads_register {name : String} {definition : Definition} {done : Unit → LoadState → Prop} :
    Leads (register name definition) s done failed ↔
      (∀ r, s.registry.register name definition = .ok r → done () { s with registry := r }) ∧
        ∀ e, s.registry.register name definition = .error e → failed e s := by
  unfold register
  rw [leads_bind, leads_get, leads_bind, leads_ofExcept]
  exact Iff.rfl

/-- Asking whether all are skipped keeps what asking about each of them keeps. -/
theorem leads_allSkipped {skips : String → Load Bool} (keeps : LoadState → Prop)
    (hstep : ∀ name s, keeps s → Leads (skips name) s (fun _ s' => keeps s') failed)
    (names : List String) (h : keeps s) :
    Leads (allSkipped skips names) s (fun _ s' => keeps s') failed := by
  induction names generalizing s with
  | nil => exact h
  | cons name rest ih =>
    unfold allSkipped
    rw [leads_bind]
    refine (hstep name s h).imp fun skipped s' hs => ?_
    cases skipped with
    | true => exact ih hs
    | false => exact hs

end Steps

variable {ctx : Context} {env : Environment} {known : List ConfigurationClass}
  {c : ConfigurationClass} {s s' : LoadState}

/-- Decisions have been made, and nothing else has been done. -/
def OnlyDecides (s s' : LoadState) : Prop := s'.registry = s.registry ∧ s'.report = s.report

/-- Asking whether a class is skipped does nothing else. -/
theorem leads_skips_decides (bound : Nat) (c : ConfigurationClass) (s : LoadState) :
    Leads (skips ctx env known bound c) s (fun _ s' => OnlyDecides s s') fun _ _ => True := by
  induction bound generalizing c s with
  | zero => trivial
  | succ bound ih =>
    unfold skips
    rw [leads_bind, leads_get]
    split
    · exact ⟨rfl, rfl⟩
    rw [leads_bind, leads_noteDecision]
    have hfalse : OnlyDecides s { s with decisions := (c.name, false) :: s.decisions } := ⟨rfl, rfl⟩
    extract_lets note conclude
    have hconclude (unsupported : Bool) (s' : LoadState) (h : OnlyDecides s s') :
        Leads (conclude unsupported) s' (fun _ s' => OnlyDecides s s') fun _ _ => True := by
      unfold conclude note
      split
      · exact h
      · rw [leads_bind, leads_ofExcept]
        exact ⟨fun _ _ => h, fun _ _ => trivial⟩
    split
    · rw [leads_bind]
      refine (leads_allSkipped (OnlyDecides s) (fun importer s' h => ?_) _ hfalse).imp
        fun unsupported s' h => hconclude unsupported s' h
      split
      next k _ =>
        exact (ih k s').imp fun _ _ h' => ⟨h'.1.trans h.1, h'.2.trans h.2⟩
      next => exact h
    · rw [pure_bind]
      exact hconclude false _ hfalse

/-! ## What a class brings -/

/-- A change to the registry that loading a class may make, if the class is not skipped. -/
inductive Brings (ctx : Context) (c : ConfigurationClass) (r r' : Registry) : Prop
  | imported : c.beanName? = none → r.register c.name (.ofClass c.name .imported) = .ok r' →
      Brings ctx c r r'
  | marked {name : String} {isCandidate : Bool} :
      r.markCandidate ctx.reader name = (isCandidate, r') → Brings ctx c r r'
  | method {m : MethodDecl} {definition : Definition} : m ∈ c.beanMethods →
      definition.factoryMethod? = some m.name →
      r.register (beanMethodName m) definition = .ok r' → Brings ctx c r r'
  | registrar {b : RegistrarBinding} {name className : String} : b ∈ c.registrars →
      (name, className) ∈ b.definitions → name ∉ r.names →
      r.register name (.ofClass className .registrar) = .ok r' → Brings ctx c r r'

/-- What a class that is not skipped brings, one after the other. -/
structure Brought (ctx : Context) (c : ConfigurationClass) (s s' : LoadState) : Prop where
  changes : ReflTransGen (Brings ctx c) s.registry s'.registry
  decisions : s'.decisions = s.decisions
  skipped : s'.report.skippedClasses = s.report.skippedClasses

theorem Brings.names {r r' : Registry} (h : Brings ctx c r r') : r.names <+: r'.names := by
  cases h with
  | imported _ hr => exact Registry.names_of_register hr
  | marked hm => exact Registry.names_markCandidate hm ▸ List.prefix_refl _
  | method _ _ hr => exact Registry.names_of_register hr
  | registrar _ _ _ hr => exact Registry.names_of_register hr

theorem names_of_brings {r r' : Registry} (h : ReflTransGen (Brings ctx c) r r') :
    r.names <+: r'.names := by
  induction h with
  | refl => exact List.prefix_refl _
  | tail _ hb ih => exact ih.trans hb.names

namespace Brought

theorem refl (ctx : Context) (c : ConfigurationClass) (s : LoadState) : Brought ctx c s s :=
  ⟨.refl, rfl, rfl⟩

theorem trans {s'' : LoadState} (h : Brought ctx c s s') (h' : Brought ctx c s' s'') :
    Brought ctx c s s'' :=
  ⟨h.changes.trans h'.changes, h'.decisions.trans h.decisions, h'.skipped.trans h.skipped⟩

theorem names (h : Brought ctx c s s') : s.registry.names <+: s'.registry.names :=
  names_of_brings h.changes

theorem leads_register {name : String} {definition : Definition} {names : List String}
    (h : ∀ r, s.registry.register name definition = .ok r → Brings ctx c s.registry r) :
    Leads (do register name definition; noteRegistered names) s
      (fun _ s' => Brought ctx c s s' ∧ name ∈ s'.registry.names) fun _ _ => True := by
  rw [leads_bind, Load.leads_register]
  refine ⟨fun r hr => ⟨⟨.single (h r hr), rfl, rfl⟩, ?_⟩, fun _ _ => trivial⟩
  have hget : r.get? name = some definition := by rw [Registry.get?_of_register hr, if_pos rfl]
  exact Registry.mem_names_of_get? hget

end Brought

theorem brought_loadImported (hb : c.beanName? = none) (s : LoadState) :
    Leads (loadImported ctx c) s (fun _ s' => Brought ctx c s s') fun _ _ => True := by
  unfold loadImported
  rw [leads_bind, leads_register]
  refine ⟨fun r hr => ?_, fun _ _ => trivial⟩
  rw [leads_bind, leads_modify, leads_noteRegistered]
  exact ⟨.tail (.single (.imported hb hr)) (.marked rfl), rfl, rfl⟩

/-- A bean method without conditions has a definition under its name then, its own or another. -/
theorem brought_loadBeanMethod {m : MethodDecl} (hm : m ∈ c.beanMethods) (factoryBean : String)
    (s : LoadState) :
    Leads (loadBeanMethod ctx env c factoryBean m) s
      (fun _ s' => Brought ctx c s s' ∧ (m.marks.has AnnotationType.conditional = false →
        beanMethodName m ∈ s'.registry.names)) fun _ _ => True := by
  have hregister (definition : Definition) (hf : definition.factoryMethod? = some m.name) :
      Leads (do register (beanMethodName m) definition; noteRegistered [beanMethodName m]) s
        (fun _ s' => Brought ctx c s s' ∧ (m.marks.has AnnotationType.conditional = false →
          beanMethodName m ∈ s'.registry.names)) fun _ _ => True :=
    (Brought.leads_register fun _ hr => .method hm hf hr).imp fun _ _ hd => ⟨hd.1, fun _ => hd.2⟩
  have hfactory : (if m.isStatic then
      { Definition.ofMethod factoryBean m.name with className? := some c.name }
      else Definition.ofMethod factoryBean m.name).factoryMethod? = some m.name := by
    split <;> rfl
  unfold loadBeanMethod
  rw [leads_bind, leads_ofExcept]
  refine ⟨fun skipped hs => ?_, fun _ _ => trivial⟩
  split
  next ht =>
    refine ⟨⟨.refl, rfl, rfl⟩, fun hu => ?_⟩
    rw [ht, Context.skips_of_unconditional (e := .ofMethod m) hu] at hs
    cases hs
  next =>
    simp only
    rw [leads_bind, leads_get]
    split
    · exact hregister _ hfactory
    next existing hget =>
      have hkept : Brought ctx c s s ∧ (m.marks.has AnnotationType.conditional = false →
          beanMethodName m ∈ s.registry.names) :=
        ⟨.refl ctx c s, fun _ => Registry.mem_names_of_get? hget⟩
      split
      · exact hkept
      · split
        · split
          · exact hkept
          · trivial
        · exact hregister _ hfactory

theorem brings_runRegistrar {b : RegistrarBinding} (hb : b ∈ c.registrars)
    {definitions : List (String × String)} (hsub : definitions ⊆ b.definitions) {r r' : Registry}
    {outcome : Except Error Unit} (h : runRegistrar r definitions = (outcome, r')) :
    ReflTransGen (Brings ctx c) r r' := by
  induction definitions generalizing r with
  | nil =>
    cases h
    exact .refl
  | cons d rest ih =>
    obtain ⟨hd, hrest⟩ := List.cons_subset.1 hsub
    unfold runRegistrar at h
    split at h
    · exact ih hrest h
    next hnew =>
      split at h
      next r₁ hr =>
        have hnew' : d.1 ∉ r.names := fun hn => hnew (Registry.contains_iff_mem_names.2 hn)
        exact .head (.registrar hb hd hnew' hr) (ih hrest h)
      next =>
        cases h
        exact .refl

theorem brought_loadRegistrar {b : RegistrarBinding} (hb : b ∈ c.registrars) (s : LoadState) :
    Leads (loadRegistrar c b) s (fun _ s' => Brought ctx c s s') fun _ _ => True := by
  unfold loadRegistrar
  rw [leads_bind, leads_get]
  simp only
  rw [leads_bind, leads_get]
  rcases hrun : runRegistrar s.registry b.definitions with ⟨outcome, r⟩
  simp only
  rw [leads_bind, leads_modify, leads_bind, leads_ofExcept]
  exact ⟨fun _ _ => ⟨brings_runRegistrar hb (List.Subset.refl _) hrun, rfl, rfl⟩,
    fun _ _ => trivial⟩

/-! ## Loading a class -/

/-- The bean methods without conditions have definitions under their names. -/
def HasMethods (c : ConfigurationClass) (r : Registry) : Prop :=
  ∀ m ∈ c.beanMethods, m.marks.has AnnotationType.conditional = false → beanMethodName m ∈ r.names

/-- A class is skipped, or brings what it has to. -/
theorem leads_loadClass {done : Unit → LoadState → Prop}
    (h : Leads (skips ctx env known (known.length + 2) c) s
      (fun skipped s' => (skipped = true → done () (s'.skip c)) ∧
        (skipped = false → ∀ s'', Brought ctx c s' s'' → HasMethods c s''.registry → done () s''))
      fun _ _ => True) :
    Leads (loadClass ctx env known c) s done fun _ _ => True := by
  -- the bean methods, and after them the registrars
  have hbrings (s₀ s' : LoadState) (h₀ : Brought ctx c s₀ s') :
      Leads (do
        c.beanMethods.forM (loadBeanMethod ctx env c (c.beanName?.getD c.name))
        c.registrars.forM (loadRegistrar c)) s'
        (fun _ s'' => Brought ctx c s₀ s'' ∧ HasMethods c s''.registry) fun _ _ => True := by
    rw [leads_bind]
    refine (Leads.forM (fun rest s'' => Brought ctx c s₀ s'' ∧ ∀ m ∈ c.beanMethods, m ∈ rest ∨
      (m.marks.has AnnotationType.conditional = false → beanMethodName m ∈ s''.registry.names))
      ⟨h₀, fun _ hm => .inl hm⟩ fun m rest s₁ hrest h₁ => ?_).imp fun _ s₁ h₁ => ?_
    · refine (brought_loadBeanMethod (hrest.subset List.mem_cons_self) _ s₁).imp
        fun _ s₂ h₂ => ⟨h₁.1.trans h₂.1, fun m' hm' => ?_⟩
      rcases h₁.2 m' hm' with hm' | hn
      · rcases List.mem_cons.1 hm' with rfl | hm'
        · exact .inr h₂.2
        · exact .inl hm'
      · exact .inr fun hu => h₂.1.names.subset (hn hu)
    · refine Leads.forM (fun _ s'' => Brought ctx c s₀ s'' ∧ HasMethods c s''.registry)
        ⟨h₁.1, fun m hm => (h₁.2 m hm).resolve_left List.not_mem_nil⟩ fun b rest s₂ hrest h₂ => ?_
      refine (brought_loadRegistrar (hrest.subset List.mem_cons_self) s₂).imp
        fun _ s₃ h₃ => ⟨h₂.1.trans h₃, fun m hm hu => ?_⟩
      exact h₃.names.subset (h₂.2 m hm hu)
  unfold loadClass
  rw [leads_bind]
  refine h.imp fun skipped s' hs => ?_
  cases skipped with
  | true => exact hs.1 rfl
  | false =>
    simp only [Bool.false_eq_true, if_false]
    split
    next hi =>
      rw [Bool.and_eq_true, Option.isNone_iff_eq_none] at hi
      rw [leads_bind]
      refine (brought_loadImported hi.1 s').imp fun _ s₁ h₁ => ?_
      exact (hbrings s' s₁ h₁).imp fun _ s₂ h₂ => hs.2 rfl s₂ h₂.1 h₂.2
    next =>
      exact (hbrings s' s' (.refl ctx c s')).imp fun _ s₂ h₂ => hs.2 rfl s₂ h₂.1 h₂.2

end Load

/-- What loading all classes of a batch leads to can be told from the report and the world that are
left. -/
theorem World.exists_of_load {ctx : Context} {w w' : World} {batch known : List ConfigurationClass}
    {report : LoadReport} {done : LoadState → Prop}
    (hl : Leads (batch.forM (Load.loadClass ctx w.environment known)) { registry := w.registry }
      (fun _ s => done s) fun _ _ => True)
    (h : w.load ctx batch known = (.ok report, w')) :
    ∃ s, done s ∧ report = s.report ∧ w' = { w with registry := s.registry } := by
  unfold Leads at hl
  unfold load at h
  revert hl h
  rcases (batch.forM (Load.loadClass ctx w.environment known)).run.run
    { registry := w.registry } with ⟨_ | _, s⟩
  · rintro - ⟨⟩
  · rintro hdone ⟨⟩
    exact ⟨s, hdone, rfl, rfl⟩

end Wiring
