import Mathlib.Data.List.Nodup
import Wiring.Proofs.Loading

/-!
# What loading does to the registry

Loading takes out a definition only if it skips a class that was registered under a bean name. Where
no such class carries a condition, every name keeps its place, and a definition of another class can
only come in under a new name, unless the class is known.
-/

namespace Wiring

namespace Load

/-! ## Loading without conditions -/

/-- Classes that are different, and none of which carries a condition if it was registered under a
bean name. -/
structure Unguarded (known : List ConfigurationClass) : Prop where
  nodup : (known.map (·.name)).Nodup
  origin : ∀ k ∈ known, k.beanName?.isSome → k.isImported = false
  unconditional : ∀ k ∈ known, k.beanName?.isSome →
    k.decl.marks.has AnnotationType.conditional = false

/-- How far loading has come from a registry without taking out a definition. -/
structure Growing (ctx : Context) (known : List ConfigurationClass) (r : Registry)
    (s : LoadState) : Prop where
  decided : ∀ k ∈ known, k.beanName?.isSome → s.decisions.lookup k.name ≠ some true
  registered : r.names <+: s.registry.names
  classOf : ∀ name c, s.registry.classOf? ctx.reader name = some c →
    r.classOf? ctx.reader name = some c ∨ name ∉ r.names ∨ c.name ∈ known.map (·.name)

variable {ctx : Context} {env : Environment} {known : List ConfigurationClass} {r : Registry}
  {s : LoadState}

theorem Growing.registers {name : String} {definition : Definition} {r' : Registry}
    (h : Growing ctx known r s) (hr : s.registry.register name definition = .ok r')
    (hd : definition.factoryMethod?.isSome ∨ name ∉ r.names ∨
      ∀ className c, definition.className? = some className →
        ctx.reader.read? className = some c → c.name ∈ known.map (·.name)) :
    Growing ctx known r { s with registry := r' } where
  decided := h.decided
  registered := h.registered.trans (Registry.names_of_register hr)
  classOf other c hc := by
    by_cases he : other = name
    · subst he
      obtain ⟨d, className, hget, hf, hclass, hread⟩ := Registry.exists_of_classOf? hc
      have hget : r'.get? other = some d := hget
      rw [Registry.get?_of_register hr, if_pos rfl] at hget
      obtain rfl := Option.some.inj hget
      rcases hd with hd | hd | hd
      · rw [hf] at hd
        cases hd
      · exact .inr (.inl hd)
      · exact .inr (.inr (hd className c hclass hread))
    · have hget : r'.get? other = s.registry.get? other := by
        rw [Registry.get?_of_register hr, if_neg he]
      exact h.classOf other c ((Registry.classOf?_congr hget).symm.trans hc)

theorem Growing.congr {s' : LoadState} (h : Growing ctx known r s)
    (hr : s'.registry = s.registry) (hd : s'.decisions = s.decisions) :
    Growing ctx known r s' :=
  ⟨hd ▸ h.decided, hr ▸ h.registered, hr ▸ h.classOf⟩

/-- A known class brings definitions of its own class, of no class, or under new names. -/
theorem Growing.brings {c : ConfigurationClass} {r' : Registry}
    (hwell : ctx.reader.catalogue.WellNamed) (hc : c ∈ known) (h : Growing ctx known r s)
    (hb : Brings ctx c s.registry r') : Growing ctx known r { s with registry := r' } := by
  cases hb with
  | imported _ hr =>
    refine h.registers hr (.inr (.inr fun className d hclass hread => ?_))
    cases hclass
    rw [Reader.name_of_read? hwell hread]
    exact List.mem_map_of_mem hc
  | marked hm =>
    refine ⟨h.decided, ?_, fun name d hd => h.classOf name d ?_⟩
    · exact (Registry.names_markCandidate hm).symm ▸ h.registered
    · exact (Registry.classOf?_markCandidate hm).symm.trans hd
  | method _ hf hr =>
    exact h.registers hr (.inl (by rw [hf]; rfl))
  | registrar _ _ hnew hr =>
    exact h.registers hr (.inr (.inl fun hm => hnew (h.registered.subset hm)))

theorem Growing.brought {c : ConfigurationClass} {s' : LoadState}
    (hwell : ctx.reader.catalogue.WellNamed) (hc : c ∈ known) (h : Growing ctx known r s)
    (hb : Brought ctx c s s') : Growing ctx known r s' := by
  suffices hall : ∀ r', Relation.ReflTransGen (Brings ctx c) s.registry r' →
      Growing ctx known r { s with registry := r' } from (hall _ hb.changes).congr rfl hb.decisions
  intro r' hchanges
  induction hchanges with
  | refl => exact h
  | @tail r₁ r₂ _ hstep ih =>
    exact Growing.brings (s := { s with registry := r₁ }) hwell hc ih hstep

theorem Growing.decides {c : ConfigurationClass} {skipped : Bool} (h : Growing ctx known r s)
    (hs : ∀ k ∈ known, k.name = c.name → k.beanName?.isSome → skipped = false) :
    Growing ctx known r { s with decisions := (c.name, skipped) :: s.decisions } where
  decided k hk hb := by
    show ((c.name, skipped) :: s.decisions).lookup k.name ≠ some true
    rw [List.lookup_cons]
    by_cases he : k.name = c.name
    · rw [he, hs k hk he hb]
      simp
    · rw [beq_false_of_ne he]
      exact h.decided k hk hb
  registered := h.registered
  classOf := h.classOf

section Classes

variable (hu : Unguarded known)

include hu

theorem Growing.decidesKnown {c : ConfigurationClass} {skipped : Bool} (h : Growing ctx known r s)
    (hc : c ∈ known) (hs : skipped = true → c.beanName? = none) :
    Growing ctx known r { s with decisions := (c.name, skipped) :: s.decisions } := by
  refine h.decides fun k hk hn hb => ?_
  -- the class is the only one of its name
  rw [List.inj_on_of_nodup_map hu.nodup hk hc hn] at hb
  refine Bool.eq_false_iff.2 fun ht => ?_
  rw [hs ht] at hb
  cases hb

/-- The conditions of a class that was registered under a bean name do not skip it. -/
theorem Unguarded.of_skips {c : ConfigurationClass} {phase? : Option Phase} (hc : c ∈ known)
    (hs : ctx.skips env (.ofClass c.decl) phase? = .ok true) : c.beanName? = none := by
  refine Option.not_isSome_iff_eq_none.1 fun hb => ?_
  rw [Context.skips_of_unconditional (e := .ofClass _) (hu.unconditional c hc hb)] at hs
  cases hs

/-- A class that was registered under a bean name is not skipped. -/
theorem leads_skips (bound : Nat) {c : ConfigurationClass} (hc : c ∈ known)
    (h : Growing ctx known r s) :
    Leads (skips ctx env known bound c) s
      (fun skipped s' => Growing ctx known r s' ∧ (skipped = true → c.beanName? = none))
      fun _ _ => True := by
  induction bound generalizing c s with
  | zero => trivial
  | succ bound ih =>
    unfold skips
    rw [leads_bind, leads_get]
    split
    next skipped hl =>
      refine ⟨h, fun hs => Option.not_isSome_iff_eq_none.1 fun hb => ?_⟩
      rw [hs] at hl
      exact h.decided c hc hb hl
    next =>
      rw [leads_bind, leads_noteDecision]
      have hfalse : Growing ctx known r { s with decisions := (c.name, false) :: s.decisions } :=
        h.decides fun _ _ _ _ => rfl
      extract_lets note conclude
      have hconclude (unsupported : Bool) (s' : LoadState) (h' : Growing ctx known r s')
          (hn : unsupported = true → c.beanName? = none) :
          Leads (conclude unsupported) s'
            (fun skipped s' => Growing ctx known r s' ∧ (skipped = true → c.beanName? = none))
            fun _ _ => True := by
        unfold conclude note
        split
        next ht => exact ⟨h'.decidesKnown hu hc fun _ => hn ht, fun _ => hn ht⟩
        next =>
          rw [leads_bind, leads_ofExcept]
          refine ⟨fun skipped hs => ?_, fun _ _ => trivial⟩
          have hnone : skipped = true → c.beanName? = none := fun ht => hu.of_skips hc (ht ▸ hs)
          exact ⟨h'.decidesKnown hu hc hnone, hnone⟩
      split
      next hi =>
        have hnone : c.beanName? = none := Option.not_isSome_iff_eq_none.1 fun hb => by
          rw [hu.origin c hc hb] at hi
          cases hi
        rw [leads_bind]
        refine (leads_allSkipped (Growing ctx known r) (fun importer s' h' => ?_) _ hfalse).imp
          fun unsupported s' h' => hconclude unsupported s' h' fun _ => hnone
        split
        next k hk =>
          exact (ih (List.mem_of_find?_eq_some hk) h').imp fun _ _ hd => hd.1
        next => exact h'
      next =>
        rw [pure_bind]
        exact hconclude false _ hfalse fun hf => absurd hf Bool.false_ne_true

theorem leads_loadClass_growing (hwell : ctx.reader.catalogue.WellNamed) {c : ConfigurationClass}
    (hc : c ∈ known) (h : Growing ctx known r s) :
    Leads (loadClass ctx env known c) s (fun _ s' => Growing ctx known r s') fun _ _ => True := by
  refine leads_loadClass ((leads_skips hu _ hc h).imp fun skipped s' hs => ⟨fun ht => ?_, ?_⟩)
  · -- a class that is skipped has no bean name, so no definition goes
    refine hs.1.congr ?_ rfl
    unfold LoadState.skip Registry.leaveOut
    rw [hs.2 ht]
  · exact fun _ s'' hb _ => hs.1.brought hwell hc hb

end Classes

end Load

/-- Where no registered class carries a condition, loading takes out no definition, and under a name
that was taken there is no definition of another class then, unless the class is known. -/
theorem World.registry_of_load {ctx : Context} (hwell : ctx.reader.catalogue.WellNamed)
    {w w' : World}
    {batch known : List ConfigurationClass} {report : LoadReport} (hu : Load.Unguarded known)
    (hb : batch ⊆ known) (h : w.load ctx batch known = (.ok report, w')) :
    w.registry.names <+: w'.registry.names ∧
      ∀ name c, w'.registry.classOf? ctx.reader name = some c →
        w.registry.classOf? ctx.reader name = some c ∨ name ∉ w.registry.names ∨
          c.name ∈ known.map (·.name) := by
  have hl : Leads (batch.forM (Load.loadClass ctx w.environment known)) { registry := w.registry }
      (fun _ s' => Load.Growing ctx known w.registry s') fun _ _ => True :=
    Leads.forM (fun _ s' => Load.Growing ctx known w.registry s')
      ⟨nofun, List.prefix_refl _, fun _ _ hc => .inl hc⟩ fun c rest s' hs h' =>
        Load.leads_loadClass_growing hu hwell (hb (hs.subset List.mem_cons_self)) h'
  obtain ⟨s', hgrowing, -, rfl⟩ := exists_of_load hl h
  exact ⟨hgrowing.registered, hgrowing.classOf⟩

end Wiring
