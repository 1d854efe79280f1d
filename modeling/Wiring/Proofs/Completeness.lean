import Wiring.Proofs.Passes

/-!
# Which configuration classes a resolution misses

New definitions are looked at only after a pass that leaves more definitions behind than there were
before, and only those under new names. So a pass may overlook a configuration class that its
loading has brought in, if loading has also taken out definitions. Every configuration class without
conditions that is left out of the model was overlooked in this way.
-/

open Relation (ReflTransGen)

namespace Wiring

namespace Context

/-- The definitions of roots are not marked. -/
theorem unmarked_of_ofDescriptor {d : Descriptor} {directory : String} {files : FileTree}
    {exported : Table String} {ctx : Context} {w : World}
    (h : ofDescriptor d directory files exported = .ok (ctx, w)) {name : String}
    {definition : Definition} (hd : w.registry.get? name = some definition) :
    definition.kind? = none := by
  have hroots : ∀ (roots : List RootSpec) (r r' : Registry),
      roots.foldlM (fun r root => r.register root.beanName (.ofClass root.className .root)) r =
        .ok r' → (∀ name d, r.get? name = some d → d.kind? = none) →
      ∀ name d, r'.get? name = some d → d.kind? = none := by
    intro roots
    induction roots with
    | nil =>
      rintro r _ ⟨⟩ hr
      exact hr
    | cons root rest ih =>
      intro r r' hfold hr
      obtain ⟨r₁, hreg, hfold⟩ := bind_eq_ok.1 hfold
      refine ih r₁ r' hfold fun name d hd => ?_
      rw [Registry.get?_of_register hreg] at hd
      split at hd
      · cases hd
        rfl
      · exact hr name d hd
  obtain ⟨r, hr, h⟩ := bind_eq_ok.1 h
  cases h
  exact hroots d.roots _ r hr (fun _ _ hn => nomatch hn) name definition hd

end Context

namespace World

/-- The state before the first pass, and its starts. -/
def firstPass (w : World) (ctx : Context) : Passes × List Start :=
  let (found, registry) := Passes.first ctx.reader w.registry
  ({ walk := { world := { w with registry } }, names := w.registry.names }, found)

/-- The loader of a resolution. -/
def loader (ctx : Context) : Loader := fun w => w.load ctx

/-- A resolution comes to this state between two passes, and to these starts. -/
def Goes (w : World) (ctx : Context) (a : Passes × List Start) : Prop :=
  ReflTransGen (Passes.Step ctx (loader ctx)) (w.firstPass ctx) a

end World

namespace Passes

variable {ctx : Context} {a b : Passes × List Start} {name : String} {c : ClassDecl}

/-- A pass overlooks a configuration class without conditions. Loading has brought in the
definition, the walk has not come to the class, but there are no more definitions than before the
pass, or there was one under the name. -/
structure Overlooked (ctx : Context) (a b : Passes × List Start) (name : String) (c : ClassDecl) :
    Prop where
  offered : b.1.walk.registry.Offers ctx.reader name c
  brought : (a.1.walk.parse ctx (roots a.2)).2.registry.classOf? ctx.reader name ≠ some c
  unstored : c.name ∉ b.1.walk.storedNames
  missed : b.1.names.length ≤ a.1.names.length ∨ name ∈ a.1.names

/-- What is found after a pass is stored, starts the next pass, has been overlooked, or was there
before the pass and neither stored nor one of its starts. -/
theorem offered_of_step (hwell : ctx.reader.catalogue.WellNamed) {load : Loader}
    (ha : Standing a.1) (h : Step ctx load a b)
    (ho : b.1.walk.registry.Offers ctx.reader name c) :
    c.name ∈ b.1.walk.storedNames ∨ (∃ s ∈ b.2, ctx.reader.read? s.className = some c) ∨
      Overlooked ctx a b name c ∨
      (a.1.walk.registry.Offers ctx.reader name c ∧ c.name ∉ a.1.walk.storedNames ∧
        ¬ ∃ s ∈ a.2, ctx.reader.read? s.className = some c) := by
  obtain ⟨walk, report, w, hp⟩ := passed_of_pass h.2
  obtain ⟨hwalk, hstarts⟩ := hp.advanced
  obtain ⟨hnames, hclass, hfound⟩ := next_spec hp.next_eq
  by_cases hstored : c.name ∈ b.1.walk.storedNames
  · exact .inl hstored
  have hunstored : c.name ∉ walk.storedNames := hp.storedNames_eq ▸ hstored
  by_cases hbrought : walk.registry.classOf? ctx.reader name = some c
  · -- the walk has left the definition behind, so it was there before
    refine .inr (.inr (.inr ⟨⟨?_, ho.candidate, ho.unconditional⟩, ?_, ?_⟩))
    · rcases hwalk.offered name c ⟨hbrought, ho.candidate, ho.unconditional⟩ with hc | hc | hc
      · exact hc
      · exact absurd hc hunstored
      · exact absurd hc List.not_mem_nil
    · exact fun hc => hunstored (hwalk.stored hc)
    · rintro ⟨s, hs, hread⟩
      exact hunstored (hstarts s hs c hread ho.unconditional)
  · by_cases hmissed : b.1.names.length ≤ a.1.names.length ∨ name ∈ a.1.names
    · refine .inr (.inr (.inl ⟨ho, ?_, hstored, hmissed⟩))
      rw [hp.parsed]
      exact hbrought
    · rw [not_or, Nat.not_le, hp.names_eq, hnames] at hmissed
      refine .inr (.inl (hfound name c (ho.of_classOf?_eq (hclass name).symm)
        hmissed.1 hmissed.2 ?_))
      intro className hread hloaded
      rw [← Reader.name_of_read? hwell hread] at hloaded
      exact hstored ((ha.passed hp).loaded hloaded)

/-- A pass that overlooks a definition has stored a class with a bean name and a condition. -/
theorem Overlooked.exists_conditional (hwell : ctx.reader.catalogue.WellNamed) (ha : Standing a.1)
    (h : Step ctx (World.loader ctx) a b) (ho : Overlooked ctx a b name c) :
    ∃ k ∈ b.1.walk.classes, k.beanName?.isSome ∧
      k.decl.marks.has AnnotationType.conditional = true := by
  by_contra hno
  obtain ⟨walk, report, w, hp⟩ := passed_of_pass h.2
  obtain ⟨hwalk, -⟩ := hp.advanced
  obtain ⟨hnames, hclass, -⟩ := next_spec hp.next_eq
  have hsound := hwalk.sound ha.sound
  have hunguarded : Load.Unguarded walk.classes := by
    refine ⟨hsound.nodup, fun k hk hb => ?_, fun k hk hb => ?_⟩
    · rw [ConfigurationClass.isImported, (hsound.sourced k hk).origin.2 hb]
      rfl
    · refine Bool.eq_false_iff.2 fun hcond => hno ⟨k, ?_, hb, hcond⟩
      rw [hp.classes_eq]
      exact hk
  obtain ⟨hbehind, hloaded⟩ :=
    World.registry_of_load hwell hunguarded List.filter_sublist.subset hp.loads
  have hbefore : a.1.names <+: walk.registry.names := ha.names_eq ▸ hwalk.registered
  have hnew : name ∉ walk.registry.names := by
    rcases hloaded name c ((hclass name).symm.trans ho.offered.class_eq) with hc | hn | hc
    · have hbrought := ho.brought
      rw [hp.parsed] at hbrought
      exact absurd hc hbrought
    · exact hn
    · exact absurd (hp.storedNames_eq ▸ hc) ho.unstored
  rcases ho.missed with hle | hm
  · -- nothing has been taken out, so that nothing has been brought in either
    rw [hp.names_eq, hnames] at hle
    have heq := (hbefore.trans hbehind).eq_of_length_le hle
    have hname : name ∈ w.registry.names := hnames ▸ ho.offered.mem_names
    rw [← heq] at hname
    exact hnew (hbefore.subset hname)
  · exact hnew (hbefore.subset hm)

end Passes

namespace World

open Passes

variable {ctx : Context} {w : World} {a b : Passes × List Start} {name : String} {c : ClassDecl}

theorem standing_firstPass (w : World) (ctx : Context) : Standing (w.firstPass ctx).1 where
  sound := Walk.sound_new _
  names_eq := by
    rcases hf : first ctx.reader w.registry with ⟨found, r⟩
    unfold firstPass
    rw [hf]
    exact (first_spec hf).1.symm
  loaded := List.nil_subset _

/-- Between all passes hold the same things. -/
theorem Goes.standing (h : w.Goes ctx a) : Standing a.1 := by
  induction h with
  | refl => exact w.standing_firstPass ctx
  | tail _ hs ih =>
    obtain ⟨walk, report, w', hp⟩ := passed_of_pass hs.2
    exact ih.passed hp

/-- Between two passes a configuration class without conditions is stored, or starts the next pass,
or a pass has overlooked it. -/
theorem Goes.offered (hwell : ctx.reader.catalogue.WellNamed)
    (hunmarked : ∀ name d, w.registry.get? name = some d → d.kind? = none) (h : w.Goes ctx a)
    (ho : a.1.walk.registry.Offers ctx.reader name c) :
    c.name ∈ a.1.walk.storedNames ∨ (∃ s ∈ a.2, ctx.reader.read? s.className = some c) ∨
      ∃ a' b', w.Goes ctx a' ∧ Step ctx (loader ctx) a' b' ∧
        Overlooked ctx a' b' name c := by
  induction h with
  | refl =>
    rcases hf : first ctx.reader w.registry with ⟨found, r⟩
    unfold firstPass at ho ⊢
    rw [hf] at ho ⊢
    obtain ⟨-, hclass, hfound⟩ := first_spec hf
    exact .inr (.inl (hfound hunmarked name c (ho.of_classOf?_eq (hclass name).symm)))
  | @tail a b ha hs ih =>
    rcases offered_of_step hwell (Goes.standing ha) hs ho with hc | hc | hc | ⟨hoff, hc, hstart⟩
    · exact .inl hc
    · exact .inr (.inl hc)
    · exact .inr (.inr ⟨a, b, ha, hs, hc⟩)
    · rcases ih hoff with hc' | hc' | hc'
      · exact absurd hc' hc
      · exact absurd hc' hstart
      · exact .inr (.inr hc')

/-- A resolution finds every configuration class without conditions whose definition is there in the
end, exactly if no pass overlooks one that is left. A pass overlooks one only where it has stored a
class with a bean name and a condition. -/
theorem resolve_complete_iff {d : Descriptor} {directory : String} {files : FileTree}
    {exported : Table String} {w' : World} {m : Model}
    (h : Context.ofDescriptor d directory files exported = .ok (ctx, w))
    (hr : w.resolve ctx = (.ok m, w')) :
    ((∀ name c, w'.registry.Offers ctx.reader name c → c.name ∈ m.classNames) ↔
      ∀ a b, w.Goes ctx a → Step ctx (loader ctx) a b →
        ∀ name c, Overlooked ctx a b name c → w'.registry.Offers ctx.reader name c →
          c.name ∈ m.classNames) ∧
    ∀ a b, w.Goes ctx a → Step ctx (loader ctx) a b →
      ∀ name c, Overlooked ctx a b name c →
        ∃ k ∈ b.1.walk.classes, k.beanName?.isSome ∧
          k.decl.marks.has AnnotationType.conditional = true := by
  have hwell := (Context.declared_of_ofDescriptor h).wellNamed
  obtain ⟨p, hgoes, rfl, rfl⟩ : ∃ p, w.Goes ctx (p, []) ∧ m = p.model ∧ w' = p.walk.world := by
    unfold resolve at hr
    rcases hp : w.passes ctx (loader ctx) with ⟨_ | _, p⟩
    all_goals
      unfold loader at hp
      rw [hp] at hr
      cases hr
    exact ⟨p, steps_of_run hp, rfl, rfl⟩
  refine ⟨⟨fun hall a b _ _ name c _ ho => hall name c ho, fun hover name c ho => ?_⟩, ?_⟩
  · rcases hgoes.offered hwell (fun _ _ => Context.unmarked_of_ofDescriptor h) ho with
      hc | ⟨s, hs, -⟩ | ⟨a, b, ha, hs, hov⟩
    · exact hc
    · exact absurd hs List.not_mem_nil
    · exact hover a b ha hs name c hov ho
  · exact fun a b ha hs name c hov => hov.exists_conditional hwell ha.standing hs

/-- The second pass takes out one definition, whose class carries a condition, and brings in another
one. -/
def exchange : Descriptor :=
  { roots := [.ofClass "App"]
    classes :=
      [{ name := "App",
          marks :=
            { declared :=
                [.naming AnnotationType.configuration [],
                  .naming AnnotationType.importing ["First"]] } },
        { name := "Gone",
          marks :=
            { declared :=
                [.naming AnnotationType.configuration [],
                  .naming AnnotationType.conditional ["Never"]] } },
        { name := "More",
          marks :=
            { declared :=
                [.naming AnnotationType.configuration [],
                  .naming AnnotationType.importing ["Second"]] } },
        { name := "Late",
          marks := { declared := [.naming AnnotationType.configuration []] } }]
    plugins :=
      [.condition "Never" (some false) none none (some .register) none false,
        .registrar "First" [("gone", "Gone"), ("more", "More")],
        .registrar "Second" [("late", "Late")]] }

theorem resolve_exchange : ∃ ctx w m w' c,
    Context.ofDescriptor exchange "." { workingDirectory := [], files := [] } Table.empty =
      .ok (ctx, w) ∧
    w.resolve ctx = (.ok m, w') ∧ m.classNames = ["App", "Gone", "More"] ∧
    w'.registry.Offers ctx.reader "late" c ∧ c.name = "Late" := by
  obtain ⟨ctx, w, h, hm, hc⟩ : ∃ ctx w,
      Context.ofDescriptor exchange "." { workingDirectory := [], files := [] } Table.empty =
        .ok (ctx, w) ∧
      (w.resolve ctx).1.toOption.map (·.classNames) = some ["App", "Gone", "More"] ∧
      ((w.resolve ctx).2.registry.classOf? ctx.reader "late").map (fun c =>
        (c.name, c.configurationKind?.isSome, c.marks.has AnnotationType.conditional)) =
          some ("Late", true, false) := by
    have h : Context.ofDescriptor exchange "." { workingDirectory := [], files := [] } Table.empty =
      .ok (_, _) := rfl
    exact ⟨_, _, h, by decide +kernel, by decide +kernel⟩
  obtain ⟨c, hc, he⟩ := Option.map_eq_some_iff.1 hc
  simp only [Prod.mk.injEq] at he
  rcases hr : w.resolve ctx with ⟨_ | m, w'⟩
  · rw [hr] at hm
    cases hm
  · rw [hr] at hm hc
    exact ⟨ctx, w, m, w', c, h, hr, Option.some.inj hm, ⟨hc, he.2.1, he.2.2⟩, he.1⟩

/-- The class that is brought in is never walked through. -/
theorem resolve_incomplete_exchange : ∃ ctx w m w',
    Context.ofDescriptor exchange "." { workingDirectory := [], files := [] } Table.empty =
      .ok (ctx, w) ∧
    w.resolve ctx = (.ok m, w') ∧
    ¬ ∀ name c, w'.registry.Offers ctx.reader name c → c.name ∈ m.classNames := by
  obtain ⟨ctx, w, m, w', c, h, hr, hm, ho, hc⟩ := resolve_exchange
  refine ⟨ctx, w, m, w', h, hr, fun hall => ?_⟩
  have hlate := hall "late" c ho
  rw [hm, hc] at hlate
  exact absurd hlate (by decide)

theorem resolve_complete_iff_exchange : ∃ ctx w m w',
    Context.ofDescriptor exchange "." { workingDirectory := [], files := [] } Table.empty =
      .ok (ctx, w) ∧
    w.resolve ctx = (.ok m, w') ∧
    ∃ a b name c, w.Goes ctx a ∧ Step ctx (loader ctx) a b ∧ Overlooked ctx a b name c := by
  obtain ⟨ctx, w, m, w', c, h, hr, hm, ho, hc⟩ := resolve_exchange
  refine ⟨ctx, w, m, w', h, hr, ?_⟩
  by_contra hnone
  have hall := (resolve_complete_iff h hr).1.2 fun a b ha hs name c hov =>
    absurd ⟨a, b, name, c, ha, hs, hov⟩ hnone
  have hlate := hall "late" c ho
  rw [hm, hc] at hlate
  exact absurd hlate (by decide)

end World

end Wiring
