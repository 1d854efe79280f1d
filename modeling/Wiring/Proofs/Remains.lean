import Wiring.Proofs.Outcomes
import Wiring.Proofs.Walk.Outward

/-!
# Definitions of classes that have been skipped

When a class is skipped that was registered under a bean name, the definition under that name is
taken out. Definitions of the class under other names are left, and so are those that come in later.
A definition of a class that is skipped was given at the beginning, comes from a scan, or from a
registrar; under the bean name of the class it can only have come in after the class was skipped.
-/

open Relation (ReflTransGen)

namespace Wiring

/-! ## Walks -/

/-- Under names that were taken, no definitions of other classes have come in. -/
structure Registry.Widens (r r' : Registry) : Prop where
  names : r.names ⊆ r'.names
  defines : ∀ name ∈ r.names, ∀ className, r'.Defines name className → r.Defines name className

namespace Registry.Widens

variable {r r' r'' : Registry}

@[refl] theorem refl (r : Registry) : r.Widens r := ⟨List.Subset.refl _, fun _ _ _ h => h⟩

theorem trans (h : r.Widens r') (h' : r'.Widens r'') : r.Widens r'' where
  names := List.Subset.trans h.names h'.names
  defines name hn className hd :=
    h.defines name hn className (h'.defines name (h.names hn) className hd)

theorem markCandidate {reader : Reader} {name : String} {isCandidate : Bool}
    (h : r.markCandidate reader name = (isCandidate, r')) : r.Widens r' where
  names := (names_markCandidate h).symm ▸ List.Subset.refl _
  defines _ _ _ := (defines_markCandidate h).1

theorem register {found : List ClassDecl} {outcome : Except Error (List String)}
    (h : Scan.register r found = (outcome, r')) : r.Widens r' where
  names := Scan.names_subset_register h
  defines name hn className := by
    obtain ⟨added, hadded, -⟩ := Scan.entries_register h
    refine (defines_congr ?_).1
    obtain ⟨d, hd⟩ := Option.isSome_iff_exists.1 (contains_iff_mem_names.2 hn)
    rw [get?_append hadded, hd]
    rfl

end Registry.Widens

/-- Walks widen the registry. -/
def Walk.widening (ctx : Context) : Walk.Outward ctx where
  Kept s t := s.registry.Widens t.registry
  trans hs ht := hs.trans ht
  alike hr _ := hr ▸ .refl _
  reported _ _ := .refl _
  marked hm := .markCandidate hm
  registered hr := .register hr

/-! ## Batches -/

/-- A registrar of the class may register a definition of a class under the name. -/
def ConfigurationClass.Registers (c : ConfigurationClass) (name className : String) : Prop :=
  ∃ b ∈ c.registrars, (name, className) ∈ b.definitions

namespace Load

variable {ctx : Context} {r r' : Registry} {c : ConfigurationClass} {name className : String}
  {done : List (ConfigurationClass × Bool)}

/-- Definitions of another class are brought by registrars only. -/
theorem defines_of_brings (h : ReflTransGen (Brings ctx c) r r') (hc : c.name ≠ className)
    (hd : r'.Defines name className) : r.Defines name className ∨ c.Registers name className := by
  induction h with
  | refl => exact .inl hd
  | tail _ hb ih =>
    cases hb with
    | imported _ hr =>
      rcases hd.of_register hr with hd | ⟨-, -, hclass⟩
      · exact ih hd
      · exact absurd (Option.some.inj hclass) hc
    | marked hm => exact ih ((Registry.defines_markCandidate hm).1 hd)
    | method _ hf hr =>
      rcases hd.of_register hr with hd | ⟨-, hnone, -⟩
      · exact ih hd
      · rw [hf] at hnone
        cases hnone
    | registrar hb hmem _ hr =>
      rcases hd.of_register hr with hd | ⟨rfl, -, hclass⟩
      · exact ih hd
      · obtain rfl := Option.some.inj hclass
        exact .inr ⟨_, hb, hmem⟩

/-- A definition of a class that is not brought by the class itself was there before, or comes from
a registrar; no class has been skipped since that was registered under the name. -/
theorem defines_of_loaded (h : Loaded ctx r done r') (hd : r'.Defines name className)
    (hc : ∀ k, (k, false) ∈ done → k.name ≠ className) :
    (r.Defines name className ∧ ∀ k, (k, true) ∈ done → k.beanName? ≠ some name) ∨
      ∃ before k after, done = before ++ (k, false) :: after ∧ k.Registers name className ∧
        ∀ k', (k', true) ∈ after → k'.beanName? ≠ some name := by
  induction h with
  | nil => exact .inl ⟨hd, fun _ hk => absurd hk List.not_mem_nil⟩
  | @skipped k _ _ _ _ ih =>
    rcases ih hd fun k' hk' => hc k' (List.mem_cons_of_mem _ hk') with
      ⟨hd, hrest⟩ | ⟨before, k', after, rfl, hk'⟩
    · rw [Registry.defines_leaveOut] at hd
      refine .inl ⟨hd.1, fun k' hk' => ?_⟩
      rcases List.mem_cons.1 hk' with he | hk'
      · cases he
        exact hd.2
      · exact hrest k' hk'
    · exact .inr ⟨(k, true) :: before, k', after, rfl, hk'⟩
  | @brought k after _ _ _ hbrings _ _ ih =>
    rcases ih hd fun k' hk' => hc k' (List.mem_cons_of_mem _ hk') with
      ⟨hd, hrest⟩ | ⟨before, k', after, rfl, hk'⟩
    · rcases defines_of_brings hbrings (hc k List.mem_cons_self) hd with hd | hk
      · refine .inl ⟨hd, fun k' hk' => ?_⟩
        rcases List.mem_cons.1 hk' with he | hk'
        · cases he
        · exact hrest k' hk'
      · exact .inr ⟨[], k, after, rfl, hk, hrest⟩
    · exact .inr ⟨(k, false) :: before, k', after, rfl, hk'⟩

end Load

/-! ## Passes -/

namespace Passes

variable {reader : Reader} {r r' : Registry} {names : List String} {found : List Start}
  {name className : String}

/-- Looking at definitions leaves them definitions of the same classes. -/
theorem defines_of_starts (h : starts reader r names = (found, r')) :
    r'.Defines name className ↔ r.Defines name className := by
  induction names generalizing r found with
  | nil =>
    cases h
    exact Iff.rfl
  | cons n rest ih =>
    unfold starts at h
    rcases hs : start? reader r n with ⟨s?, r₁⟩
    rcases hrest : starts reader r₁ rest with ⟨found', r₂⟩
    rw [hs] at h
    simp only [hrest, Prod.mk.injEq] at h
    obtain ⟨-, rfl⟩ := h
    rw [ih hrest]
    rcases start?_cases hs with ⟨-, rfl⟩ | ⟨hm, -⟩
    · exact Iff.rfl
    · exact Registry.defines_of_markCandidate? hm

theorem defines_of_first (h : first reader r = (found, r')) :
    r'.Defines name className ↔ r.Defines name className := by
  unfold first at h
  cases h
  exact defines_of_starts rfl

theorem defines_of_next {p : Passes} (h : p.next reader r = (found, r')) :
    r'.Defines name className ↔ r.Defines name className := by
  unfold next at h
  split at h
  · cases h
    exact Iff.rfl
  · cases h
    exact defines_of_starts rfl

end Passes

/-! ## Resolutions -/

namespace World

open Passes

variable {ctx : Context} {w : World} {a : Passes × List Start} {p : Passes}
  {loaded loaded' : List String} {c : ConfigurationClass} {name : String}

/-- Where a definition comes from, of a class that is skipped. If the class has been skipped, then
under its bean name the definition has come in after that. -/
inductive Remains (w : World) (ctx : Context) (loaded : List String) (c : ConfigurationClass)
    (name : String) : Prop
  | given : w.registry.Defines name c.name → (c.beanName? = some name → c.name ∉ loaded) →
      Remains w ctx loaded c name
  | scanned {a b : Passes × List Start} : w.Goes ctx a → Step ctx (loader ctx) a b →
      name ∉ a.1.walk.registry.names → (walked ctx a).registry.Defines name c.name →
      (c.beanName? = some name → c.name ∈ loaded → c.name ∈ a.1.loaded) →
      Remains w ctx loaded c name
  | registrar {k : ConfigurationClass} : w.Loads ctx k false → k.Registers name c.name →
      (c.beanName? = some name → c.name ∈ loaded → [c.name, k.name].Sublist loaded) →
      Remains w ctx loaded c name

theorem Remains.mono (h : w.Remains ctx loaded c name) (hl : loaded <+: loaded')
    (hc : c.beanName? = some name → c.name ∈ loaded' → c.name ∈ loaded) :
    w.Remains ctx loaded' c name := by
  cases h with
  | given hd hb => exact .given hd fun hn hm => hb hn (hc hn hm)
  | scanned ha hs hn hd hb => exact .scanned ha hs hn hd fun hn hm => hb hn (hc hn hm)
  | registrar hk hd hb => exact .registrar hk hd fun hn hm => (hb hn (hc hn hm)).trans hl.sublist

theorem Goes.remains (h : w.Goes ctx a) (hc : w.Loads ctx c true)
    (hd : a.1.walk.registry.Defines name c.name) : w.Remains ctx a.1.loaded c name := by
  induction h with
  | refl =>
    refine .given ?_ fun _ => List.not_mem_nil
    rcases hf : first ctx.reader w.registry with ⟨found, r⟩
    unfold firstPass at hd
    rw [hf] at hd
    exact (defines_of_first hf).1 hd
  | @tail a b ha hs ih =>
    have hgoes : w.Goes ctx a := ha
    obtain ⟨done, r, hdone, hloads, hloaded, hnext⟩ := exists_loaded_of_step hgoes.accounted hs
    have hprefix : a.1.loaded <+: b.1.loaded := ⟨_, hloaded.symm⟩
    -- the class is skipped wherever it is loaded
    have hsame (k : ConfigurationClass) (skipped : Bool) (hk : (k, skipped) ∈ done)
        (hn : k.name = c.name) : k = c ∧ skipped = true :=
      Loads.unique ⟨a, b, hgoes, hs, hloads _ hk⟩ hc hn
    have hbefore (hm : c.name ∈ b.1.loaded) : c.name ∈ a.1.loaded ∨ (c, true) ∈ done := by
      rw [hloaded, List.mem_append] at hm
      refine hm.imp_right fun hm => ?_
      obtain ⟨⟨k, skipped⟩, hk, hn⟩ := List.mem_map.1 hm
      obtain ⟨rfl, rfl⟩ := hsame k skipped hk hn
      exact hk
    have hother (k : ConfigurationClass) (hk : (k, false) ∈ done) : k.name ≠ c.name := fun hn =>
      absurd (hsame k false hk hn).2 (by decide)
    rcases Load.defines_of_loaded hdone ((defines_of_next hnext).1 hd) hother with
      ⟨hd, hrest⟩ | ⟨before, k, after, rfl, hk, hrest⟩
    · have hkept (hb : c.beanName? = some name) (hm : c.name ∈ b.1.loaded) :
          c.name ∈ a.1.loaded :=
        (hbefore hm).resolve_right fun hmem => hrest c hmem hb
      by_cases hn : name ∈ a.1.walk.registry.names
      · have hwidens := (Walk.widening ctx).parse a.1.walk (roots a.2)
        exact (ih (hwidens.defines name hn c.name hd)).mono hprefix hkept
      · exact .scanned hgoes hs hn hd hkept
    · have hkdone : (k, false) ∈ before ++ (k, false) :: after :=
        List.mem_append_right _ List.mem_cons_self
      refine .registrar ⟨a, b, hgoes, hs, hloads _ hkdone⟩ hk fun hb hm => ?_
      rw [hloaded]
      rcases hbefore hm with hm | hm
      · have hkname : k.name ∈ (before ++ (k, false) :: after).map (·.1.name) :=
          List.mem_map_of_mem hkdone
        exact (List.singleton_sublist.2 hm).append (List.singleton_sublist.2 hkname)
      · -- the class has been skipped before the registrar was run
        rcases List.mem_append.1 hm with hm | hm
        · have hcname : c.name ∈ before.map (·.1.name) := List.mem_map_of_mem hm
          rw [List.map_append, List.map_cons]
          refine List.Sublist.trans ?_ (List.sublist_append_right _ _)
          refine (List.singleton_sublist.2 hcname).append ?_
          exact (List.nil_sublist _).cons_cons k.name
        · rcases List.mem_cons.1 hm with he | hm
          · cases he
          · exact absurd hb (hrest c hm)

theorem Loads.mem_loaded {skipped : Bool} (h : w.Loads ctx c skipped) (hp : w.Goes ctx (p, [])) :
    c.name ∈ p.loaded := by
  obtain ⟨a, b, ha, hs, hl⟩ := h
  have hlast : ∀ b, ¬ Step ctx (loader ctx) (p, []) b := fun b hs => hs.1 rfl
  rcases ReflTransGen.total_of_right_unique (step_rightUnique ctx (loader ctx)) ha hp with hle | hle
  · rcases hle.cases_head with rfl | ⟨b', hs', hrest⟩
    · exact absurd hs (hlast b)
    · obtain rfl := step_rightUnique ctx (loader ctx) hs hs'
      exact (loaded_of_reaches hrest).subset (hl.mem_loaded hs)
  · rcases hle.cases_head with rfl | ⟨b', hs', -⟩
    · exact absurd hs (hlast b)
    · exact absurd hs' (hlast b')

/-- A definition that is left in the end, of a class that some pass has skipped, was given at the
beginning, under a name other than the bean name of the class; or it was registered by a scan, or by
a registrar, under such a name or after the class had been skipped. -/
theorem remains_of_passes (h : w.passes ctx (loader ctx) = (.ok (), p)) (hc : w.Loads ctx c true)
    (hd : p.walk.registry.Defines name c.name) :
    (w.registry.Defines name c.name ∧ c.beanName? ≠ some name) ∨
      (∃ a b, w.Goes ctx a ∧ Step ctx (loader ctx) a b ∧ name ∉ a.1.walk.registry.names ∧
        (walked ctx a).registry.Defines name c.name ∧
        (c.beanName? = some name → c.name ∈ a.1.loaded)) ∨
      ∃ k, w.Loads ctx k false ∧ k.Registers name c.name ∧
        (c.beanName? = some name → [c.name, k.name].Sublist p.loaded) := by
  have hgoes := goes_of_passes h
  have hl : c.name ∈ p.loaded := hc.mem_loaded hgoes
  cases hgoes.remains hc hd with
  | given hd hb => exact .inl ⟨hd, fun hn => hb hn hl⟩
  | scanned ha hs hn hd hb => exact .inr (.inl ⟨_, _, ha, hs, hn, hd, fun hn => hb hn hl⟩)
  | registrar hk hd hb => exact .inr (.inr ⟨_, hk, hd, fun hn => hb hn hl⟩)

/-- A class is a root under two bean names, and is skipped. -/
def twoNames : Descriptor :=
  { roots := [.named "App" (some "one"), .named "App" (some "two")]
    classes :=
      [{ name := "App",
          marks :=
            { declared :=
                [.naming AnnotationType.configuration [],
                  .naming AnnotationType.conditional ["Never"]] } }]
    plugins := [.condition "Never" (some false) none none (some .register) none false] }

/-- The definition under the first name is left. -/
theorem passes_twoNames : ∃ ctx w p c,
    Context.ofDescriptor twoNames "." { workingDirectory := [], files := [] } Table.empty =
      .ok (ctx, w) ∧
    w.passes ctx (loader ctx) = (.ok (), p) ∧ w.Loads ctx c true ∧ c.beanName? = some "two" ∧
    p.walk.registry.Defines "one" c.name := by
  have h : Context.ofDescriptor twoNames "." { workingDirectory := [], files := [] } Table.empty =
    .ok (_, _) := rfl
  let found : List Start := [⟨"one", "App", .unordered⟩, ⟨"two", "App", .unordered⟩]
  obtain ⟨ctx, w, p, h, hfound, hends, hpass, hbatch, hreport, hone⟩ : ∃ ctx w p,
      Context.ofDescriptor twoNames "." { workingDirectory := [], files := [] } Table.empty =
        .ok (ctx, w) ∧
      (starts ctx.reader w.registry (w.registry.names.filter fun name =>
        ((w.registry.get? name).bind (·.kind?)).isNone)).1 = found ∧
      run ctx (loader ctx) (Passes.bound ctx) (w.firstPass ctx).1 found = (.ok (), p) ∧
      (Passes.pass ctx (loader ctx) (w.firstPass ctx).1 found).1 = .ok [] ∧
      (∃ c ∈ (w.firstPass ctx).1.batch (walked ctx ((w.firstPass ctx).1, found)),
        c.name = "App" ∧ c.beanName? = some "two") ∧
      loading ctx ((w.firstPass ctx).1, found) = .ok { skippedClasses := ["App"] } ∧
      (p.walk.registry.get? "one").map (fun d => (d.factoryMethod?, d.className?)) =
        some (none, some "App") :=
    ⟨_, _, _, h, by decide +kernel, Prod.ext (by decide +kernel) rfl, by decide +kernel,
      by decide +kernel, by decide +kernel, by decide +kernel⟩
  have hfirst : (w.firstPass ctx).2 = found := by
    show Precedence.sort Start.precedence (starts ctx.reader w.registry _).1 = found
    rw [hfound]
    exact List.mergeSort_of_pairwise (by decide)
  rw [← hfirst] at hends hpass hbatch hreport
  obtain ⟨c, hc, hname, hbean⟩ := hbatch
  obtain ⟨d, hd, hclass⟩ := Option.map_eq_some_iff.1 hone
  have hload := loads_of_firstPass (hfirst ▸ List.cons_ne_nil _ _) hpass hreport hc
  rw [hname] at hload
  refine ⟨ctx, w, p, c, h, hends, hload, hbean, d, hd, congrArg Prod.fst hclass, ?_⟩
  rw [hname]
  exact congrArg Prod.snd hclass

/-- A class that is skipped has a definition in the end. -/
theorem resolve_twoNames : ∃ ctx w m w',
    Context.ofDescriptor twoNames "." { workingDirectory := [], files := [] } Table.empty =
      .ok (ctx, w) ∧
    w.resolve ctx = (.ok m, w') ∧
    ∃ c, w.Loads ctx c true ∧ ∃ name, w'.registry.Defines name c.name := by
  obtain ⟨ctx, w, p, c, h, hends, hc, -, hd⟩ := passes_twoNames
  exact ⟨ctx, w, _, _, h, resolve_of_passes hends, c, hc, "one", hd⟩

theorem remains_of_passes_twoNames : ∃ ctx w p c,
    Context.ofDescriptor twoNames "." { workingDirectory := [], files := [] } Table.empty =
      .ok (ctx, w) ∧
    w.passes ctx (loader ctx) = (.ok (), p) ∧ w.Loads ctx c true ∧
    p.walk.registry.Defines "one" c.name ∧
    ((w.registry.Defines "one" c.name ∧ c.beanName? ≠ some "one") ∨
      (∃ a b, w.Goes ctx a ∧ Step ctx (loader ctx) a b ∧ "one" ∉ a.1.walk.registry.names ∧
        (walked ctx a).registry.Defines "one" c.name ∧
        (c.beanName? = some "one" → c.name ∈ a.1.loaded)) ∨
      ∃ k, w.Loads ctx k false ∧ k.Registers "one" c.name ∧
        (c.beanName? = some "one" → [c.name, k.name].Sublist p.loaded)) := by
  obtain ⟨ctx, w, p, c, h, hends, hc, -, hd⟩ := passes_twoNames
  exact ⟨ctx, w, p, c, h, hends, hc, hd, remains_of_passes hends hc hd⟩

end World

end Wiring
