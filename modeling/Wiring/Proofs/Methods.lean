import Wiring.Proofs.Outcomes

/-!
# Bean methods without a definition

When a class has been loaded that is not skipped, there is a definition under the name of each of
its bean methods that carries no condition, its own or another one. A name is given up only where a
class is skipped that was registered under it as its bean name; what the definition under it is of
by then is not looked at. So a bean method is left without a definition only by a class that is
skipped after its own class has been loaded.
-/

namespace Wiring

namespace Load

variable {ctx : Context} {r r' : Registry} {before done after : List (ConfigurationClass × Bool)}
  {name : String} {c : ConfigurationClass} {m : MethodDecl}

/-- A name that is taken stays so, unless a class is skipped that was registered under it. -/
theorem names_of_loaded (h : Loaded ctx r done r') (hn : name ∈ r.names) :
    name ∈ r'.names ∨ ∃ d, (d, true) ∈ done ∧ d.beanName? = some name := by
  induction h with
  | nil => exact .inl hn
  | @skipped c _ _ _ _ ih =>
    by_cases hb : c.beanName? = some name
    · exact .inr ⟨c, List.mem_cons_self, hb⟩
    · rcases ih (Registry.mem_names_leaveOut.2 ⟨hn, hb⟩) with hn' | ⟨d, hd, hb'⟩
      · exact .inl hn'
      · exact .inr ⟨d, List.mem_cons_of_mem _ hd, hb'⟩
  | brought hbrings _ _ ih =>
    rcases ih ((names_of_brings hbrings).subset hn) with hn' | ⟨d, hd, hb⟩
    · exact .inl hn'
    · exact .inr ⟨d, List.mem_cons_of_mem _ hd, hb⟩

/-- The name of a bean method is taken when its class has been loaded, so it is in the end, unless a
class is skipped after it that was registered under the name. -/
theorem methods_of_loaded (h : Loaded ctx r (before ++ (c, false) :: after) r')
    (hm : m ∈ c.beanMethods) (hu : m.marks.has AnnotationType.conditional = false) :
    beanMethodName m ∈ r'.names ∨
      ∃ d, (d, true) ∈ after ∧ d.beanName? = some (beanMethodName m) := by
  obtain ⟨r₁, -, h⟩ := h.split
  cases h with
  | brought _ hmethods h => exact names_of_loaded h (hmethods m hm hu)

end Load

namespace World

open Passes

variable {ctx : Context} {w : World} {a : Passes × List Start} {p : Passes}
  {loaded loaded' : List String} {r r' : Registry} {c : ConfigurationClass}

/-- The bean methods of a class that carry no condition have definitions under their names, but for
those names under which a class was registered that has been skipped later. -/
def Supplied (w : World) (ctx : Context) (loaded : List String) (r : Registry)
    (c : ConfigurationClass) : Prop :=
  ∀ m ∈ c.beanMethods, m.marks.has AnnotationType.conditional = false →
    Load.beanMethodName m ∈ r.names ∨
      ∃ d, w.Loads ctx d true ∧ d.beanName? = some (Load.beanMethodName m) ∧
        [c.name, d.name].Sublist loaded

theorem Supplied.mono (h : w.Supplied ctx loaded r c) (hl : loaded <+: loaded')
    (hr : ∀ name ∈ r.names, name ∈ r'.names ∨ ∃ d, w.Loads ctx d true ∧ d.beanName? = some name ∧
      [c.name, d.name].Sublist loaded') : w.Supplied ctx loaded' r' c := by
  intro m hm hu
  rcases h m hm hu with hn | ⟨d, hd, hb, hs⟩
  · exact hr _ hn
  · exact .inr ⟨d, hd, hb, hs.trans hl.sublist⟩

/-- Between two passes the bean methods of all classes are supplied that have been loaded and not
skipped. -/
theorem Goes.supplied (h : w.Goes ctx a) {name : String} (hn : name ∈ a.1.loaded) :
    ∃ c skipped, w.Loads ctx c skipped ∧ c.name = name ∧
      (skipped = false → w.Supplied ctx a.1.loaded a.1.walk.registry c) := by
  induction h with
  | refl => exact absurd hn List.not_mem_nil
  | @tail a b ha hs ih =>
    have hgoes : w.Goes ctx a := ha
    obtain ⟨done, r, hdone, hloads, hloaded, hnext⟩ := exists_loaded_of_step hgoes.accounted hs
    have hnames : b.1.walk.registry.names = r.names := (next_spec hnext).1
    have hskips (d : ConfigurationClass) (hd : (d, true) ∈ done) : w.Loads ctx d true :=
      ⟨a, b, hgoes, hs, hloads _ hd⟩
    rw [hloaded, List.mem_append] at hn
    rcases hn with hn | hn
    · -- the class was loaded before, and this pass gives up names only by skipping
      obtain ⟨c, skipped, hc, rfl, hsupplied⟩ := ih hn
      refine ⟨c, skipped, hc, rfl, fun hf => (hsupplied hf).mono ⟨_, hloaded.symm⟩ ?_⟩
      intro name hname
      rw [hnames]
      refine (Load.names_of_loaded hdone ((names_of_walked hs).subset hname)).imp_right ?_
      rintro ⟨d, hd, hb⟩
      refine ⟨d, hskips d hd, hb, ?_⟩
      have hmem : d.name ∈ done.map (·.1.name) := List.mem_map_of_mem hd
      rw [hloaded]
      exact (List.singleton_sublist.2 hn).append (List.singleton_sublist.2 hmem)
    · obtain ⟨⟨c, skipped⟩, he, rfl⟩ := List.mem_map.1 hn
      refine ⟨c, skipped, ⟨a, b, hgoes, hs, hloads _ he⟩, rfl, ?_⟩
      rintro rfl m hm hu
      obtain ⟨before, after, rfl⟩ := List.append_of_mem he
      rw [hnames]
      refine (Load.methods_of_loaded hdone hm hu).imp_right ?_
      rintro ⟨d, hd, hb⟩
      refine ⟨d, hskips d (List.mem_append_right _ (List.mem_cons_of_mem _ hd)), hb, ?_⟩
      have hmem : d.name ∈ after.map (·.1.name) := List.mem_map_of_mem hd
      rw [hloaded, List.map_append, List.map_cons]
      refine List.Sublist.trans ?_ (List.sublist_append_right _ _)
      refine List.Sublist.trans ?_ (List.sublist_append_right _ _)
      exact (List.singleton_sublist.2 hmem).cons_cons c.name

/-- In the end of a resolution there is a definition under the name of every bean method without
conditions of a class that no pass has skipped, unless the class did not have the method yet when it
was loaded, or a class that was registered under that name has been skipped after it. -/
theorem methods_of_passes (h : w.passes ctx (loader ctx) = (.ok (), p)) {k : ConfigurationClass}
    (hk : k ∈ p.model.classes) (hskip : ∀ c, w.Loads ctx c true → c.name ≠ k.name) :
    ∃ c, w.Loads ctx c false ∧ c.name = k.name ∧
      ∀ m ∈ k.beanMethods, m.marks.has AnnotationType.conditional = false →
        p.walk.registry.contains (Load.beanMethodName m) = true ∨ m ∉ c.beanMethods ∨
          ∃ d, w.Loads ctx d true ∧ d.beanName? = some (Load.beanMethodName m) ∧
            [c.name, d.name].Sublist p.loaded := by
  have hgoes := goes_of_passes h
  have hl : k.name ∈ p.loaded := (accounted_of_passes h).stored (List.mem_map_of_mem hk)
  obtain ⟨c, skipped, hc, hname, hsupplied⟩ := hgoes.supplied hl
  cases skipped with
  | true => exact absurd hname (hskip c hc)
  | false =>
    refine ⟨c, hc, hname, fun m _ hu => ?_⟩
    by_cases hm : m ∈ c.beanMethods
    · rcases hsupplied rfl m hm hu with hn | hd
      · exact .inl (Registry.contains_iff_mem_names.2 hn)
      · exact .inr (.inr hd)
    · exact .inr (.inl hm)

/-- A bean method takes over the definition of a component that a scan has found. The class of that
component is skipped afterwards. -/
def overtaken : Descriptor :=
  { roots := [.ofClass "App"]
    classes :=
      [{ name := "App",
          marks :=
            { declared :=
                [.naming AnnotationType.configuration [],
                  .naming AnnotationType.componentScan ["p"]] } },
        { name := "p.First",
          marks := { declared := [.naming AnnotationType.configuration []] },
          methods :=
            [{ name := "second", marks := { declared := [.naming AnnotationType.bean []] } }] },
        { name := "p.Second",
          marks :=
            { declared :=
                [.naming AnnotationType.configuration [],
                  .naming AnnotationType.conditional ["Never"]] } }]
    plugins := [.condition "Never" (some false) none none (some .register) none false] }

/-- The class of the bean method is not skipped, and the definition is gone in the end. -/
theorem passes_overtaken : ∃ ctx w p k,
    Context.ofDescriptor overtaken "." { workingDirectory := [], files := [] } Table.empty =
      .ok (ctx, w) ∧
    w.passes ctx (loader ctx) = (.ok (), p) ∧ k ∈ p.model.classes ∧
    (∀ c, w.Loads ctx c true → c.name ≠ k.name) ∧
    k.beanMethods.map Load.beanMethodName = ["second"] ∧
    k.beanMethods.all (fun m => !m.marks.has AnnotationType.conditional) = true ∧
    p.walk.registry.names = ["app", "first"] := by
  have h : Context.ofDescriptor overtaken "." { workingDirectory := [], files := [] } Table.empty =
    .ok (_, _) := rfl
  obtain ⟨ctx, w, p, h, hends, hmodel, hpass, hbatch, hreport, hnames⟩ : ∃ ctx w p,
      Context.ofDescriptor overtaken "." { workingDirectory := [], files := [] } Table.empty =
        .ok (ctx, w) ∧
      w.passes ctx (loader ctx) = (.ok (), p) ∧
      (∃ k ∈ p.model.classes, k.name = "p.First" ∧
        k.beanMethods.map Load.beanMethodName = ["second"] ∧
        k.beanMethods.all (fun m => !m.marks.has AnnotationType.conditional) = true) ∧
      ((w.firstPass ctx).2 ≠ [] ∧
        (Passes.pass ctx (loader ctx) (w.firstPass ctx).1 (w.firstPass ctx).2).1 = .ok []) ∧
      (∃ c ∈ (w.firstPass ctx).1.batch (walked ctx (w.firstPass ctx)), c.name = "p.First") ∧
      loading ctx (w.firstPass ctx) =
        .ok { registered := ["second"], skippedClasses := ["p.Second"] } ∧
      p.walk.registry.names = ["app", "first"] :=
    ⟨_, _, _, h, Prod.ext (by decide +kernel) rfl, by decide +kernel, by decide +kernel,
      by decide +kernel, by decide +kernel, by decide +kernel⟩
  obtain ⟨k, hk, hname, hmethods, hunconditional⟩ := hmodel
  obtain ⟨c, hc, hcname⟩ := hbatch
  refine ⟨ctx, w, p, k, h, hends, hk, fun d hd hn => ?_, hmethods, hunconditional, hnames⟩
  -- the class has been loaded, and was not reported
  have hload := loads_of_firstPass hpass.1 hpass.2 hreport hc
  have hfalse := (hd.unique hload (hn.trans (hname.trans hcname.symm))).2
  rw [hcname] at hfalse
  exact absurd hfalse (by decide)

/-- A bean method of a class that is not skipped, without conditions, ends without a definition. -/
theorem resolve_overtaken : ∃ ctx w m w',
    Context.ofDescriptor overtaken "." { workingDirectory := [], files := [] } Table.empty =
      .ok (ctx, w) ∧
    w.resolve ctx = (.ok m, w') ∧
    ∃ k ∈ m.classes, (∀ c, w.Loads ctx c true → c.name ≠ k.name) ∧
      ∃ method ∈ k.beanMethods, method.marks.has AnnotationType.conditional = false ∧
        w'.registry.contains (Load.beanMethodName method) = false := by
  obtain ⟨ctx, w, p, k, h, hends, hk, hskip, hmethods, hunconditional, hnames⟩ := passes_overtaken
  refine ⟨ctx, w, _, _, h, resolve_of_passes hends, k, hk, hskip, ?_⟩
  have hsecond : "second" ∈ k.beanMethods.map Load.beanMethodName := by
    rw [hmethods]
    exact List.mem_singleton_self _
  obtain ⟨method, hm, hname⟩ := List.mem_map.1 hsecond
  refine ⟨method, hm, by simpa using List.all_eq_true.1 hunconditional method hm, ?_⟩
  have hgone : "second" ∉ p.walk.registry.names := by
    rw [hnames]
    decide
  rw [hname, ← Bool.not_eq_true]
  exact fun hc => hgone (Registry.contains_iff_mem_names.1 hc)

theorem methods_of_passes_overtaken : ∃ ctx w p k,
    Context.ofDescriptor overtaken "." { workingDirectory := [], files := [] } Table.empty =
      .ok (ctx, w) ∧
    w.passes ctx (loader ctx) = (.ok (), p) ∧ k ∈ p.model.classes ∧
    (∀ c, w.Loads ctx c true → c.name ≠ k.name) ∧
    k.beanMethods.map Load.beanMethodName = ["second"] ∧
    ∃ c, w.Loads ctx c false ∧ c.name = k.name ∧
      ∀ m ∈ k.beanMethods, m.marks.has AnnotationType.conditional = false →
        p.walk.registry.contains (Load.beanMethodName m) = true ∨ m ∉ c.beanMethods ∨
          ∃ d, w.Loads ctx d true ∧ d.beanName? = some (Load.beanMethodName m) ∧
            [c.name, d.name].Sublist p.loaded := by
  obtain ⟨ctx, w, p, k, h, hends, hk, hskip, hmethods, -, -⟩ := passes_overtaken
  exact ⟨ctx, w, p, k, h, hends, hk, hskip, hmethods, methods_of_passes hends hk hskip⟩

end World

end Wiring
