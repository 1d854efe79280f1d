import Wiring.Proofs.Candidate
import Wiring.Proofs.Scan
import Wiring.Proofs.Walk.Roots
import Wiring.Proofs.Walk.Stored

/-!
# What every walk keeps

Whatever directives classes carry, each class is stored once, and it has a bean name exactly if no
class imports it. A class that is stored stays so, and so is every class without conditions once it
has been entered: the roots, and the configuration classes among the components that scans register.
-/

namespace Wiring

namespace ConfigurationClass

/-- The class came in one way: under a bean name, or by imports of others, each of them noted once.
-/
structure Sourced (c : ConfigurationClass) : Prop where
  nodup : c.importedBy.Nodup
  origin : c.importedBy = [] ↔ c.beanName?.isSome

theorem sourced_explicit (decl : ClassDecl) (beanName : String) :
    (explicit decl beanName).Sourced :=
  ⟨.nil, by simp [explicit]⟩

theorem sourced_imported (decl : ClassDecl) (importer : String) :
    (imported decl importer).Sourced :=
  ⟨List.pairwise_singleton _ _, by simp [imported]⟩

namespace Sourced

variable {c d : ConfigurationClass} (h : c.Sourced)

include h

theorem of_sameNode (hd : c.SameNode d) : d.Sourced := by
  obtain ⟨-, hb, hi⟩ := hd
  exact ⟨hi ▸ h.nodup, by rw [hi, hb]; exact h.origin⟩

theorem mergeImporters (hi : c.isImported = true) : (c.mergeImporters d).Sourced := by
  rw [isImported_iff] at hi
  have hne : (c.mergeImporters d).importedBy ≠ [] := fun he =>
    hi (List.eq_nil_of_subset_nil (he ▸ subset_mergeNames c.importedBy d.importedBy))
  refine ⟨nodup_mergeNames _ h.nodup, fun he => absurd he hne, fun hb => ?_⟩
  exact absurd (h.origin.2 hb) hi

end Sourced

end ConfigurationClass

namespace Walk

/-- The stored classes are different, and each of them came in one way. -/
structure Sound (s : WalkState) : Prop where
  nodup : s.storedNames.Nodup
  sourced : ∀ k ∈ s.classes, k.Sourced

/-- What a walk has made of a state, where some of the registered names still wait to be looked at:
what was stored and registered is so still, and a configuration class without conditions that has
been registered since then is stored, unless it waits. -/
structure Advanced (ctx : Context) (s : WalkState) (waiting : List String) (t : WalkState) :
    Prop where
  sound : Sound s → Sound t
  stored : s.storedNames ⊆ t.storedNames
  registered : s.registry.names <+: t.registry.names
  offered : ∀ name c, t.registry.Offers ctx.reader name c →
    s.registry.classOf? ctx.reader name = some c ∨ c.name ∈ t.storedNames ∨ name ∈ waiting

variable {ctx : Context} {s t u : WalkState} {waiting : List String} {name : String}

theorem sound_new (world : World) : Sound { world } := ⟨.nil, nofun⟩

namespace Sound

theorem of_classes_eq (h : Sound s) (hc : t.classes = s.classes) : Sound t := by
  have hnames : t.storedNames = s.storedNames := congrArg (List.map _) hc
  exact ⟨hnames ▸ h.nodup, hc ▸ h.sourced⟩

theorem store {d : ConfigurationClass} (h : Sound s) (hd : d.Sourced) : Sound (s.store d) := by
  refine ⟨WalkState.nodup_store h.nodup, fun k hk => ?_⟩
  rcases WalkState.mem_classes_store hk with hk | rfl
  · exact h.sourced k hk
  · exact hd

theorem discard (h : Sound s) : Sound (s.discard name) :=
  ⟨h.nodup.sublist WalkState.sublist_storedNames_discard,
    fun k hk => h.sourced k (List.mem_of_mem_eraseP hk)⟩

theorem update {f : ConfigurationClass → ConfigurationClass} (h : Sound s)
    (hname : ∀ k, (f k).name = k.name)
    (hf : ∀ k ∈ s.classes, k.name = name → k.Sourced → (f k).Sourced) :
    Sound (s.update name f) := by
  refine ⟨?_, fun k hk => ?_⟩
  · rw [WalkState.storedNames_update hname]
    exact h.nodup
  rcases WalkState.mem_classes_update hk with hk | ⟨j, hj, hn, rfl⟩
  · exact h.sourced k hk
  · exact hf j hj hn (h.sourced j hj)

end Sound

namespace Advanced

theorem refl (ctx : Context) (s : WalkState) : Advanced ctx s [] s :=
  ⟨id, List.Subset.refl _, List.prefix_refl _, fun _ _ ho => .inl ho.class_eq⟩

theorem trans (h : Advanced ctx s waiting t) (h' : Advanced ctx t [] u) :
    Advanced ctx s waiting u where
  sound hs := h'.sound (h.sound hs)
  stored := List.Subset.trans h.stored h'.stored
  registered := h.registered.trans h'.registered
  offered name c ho := by
    rcases h'.offered name c ho with hc | hc | hw
    · rcases h.offered name c ⟨hc, ho.candidate, ho.unconditional⟩ with hc | hc | hw
      · exact .inl hc
      · exact .inr (.inl (h'.stored hc))
      · exact .inr (.inr hw)
    · exact .inr (.inl hc)
    · exact absurd hw List.not_mem_nil

theorem of_storedNames_eq (hs : Sound s → Sound t) (hn : t.storedNames = s.storedNames)
    (hr : t.registry = s.registry) : Advanced ctx s [] t where
  sound := hs
  stored := hn ▸ List.Subset.refl _
  registered := hr ▸ List.prefix_refl _
  offered _ _ ho := .inl (hr ▸ ho.class_eq)

theorem of_classes_eq (hc : t.classes = s.classes) (hr : t.registry = s.registry) :
    Advanced ctx s [] t :=
  of_storedNames_eq (fun hs => hs.of_classes_eq hc) (congrArg (List.map _) hc) hr

theorem withImports (f g : ImportLog → ImportLog) (h : Advanced ctx (s.withImports f) [] t) :
    Advanced ctx s [] (t.withImports g) :=
  ((of_classes_eq (s := s) (t := s.withImports f) rfl rfl).trans h).trans
    (of_classes_eq (s := t) (t := t.withImports g) rfl rfl)

theorem store {s₀ : WalkState} {d : ConfigurationClass} (h : Advanced ctx s₀ [] t)
    (hs : Sound s → Sound s₀) (hr : s₀.registry = s.registry) (hd : d.Sourced)
    (hstored : ∀ name ∈ s.storedNames, name ≠ d.name → name ∈ s₀.storedNames) :
    Advanced ctx s [] (t.store d) where
  sound hsound := (h.sound (hs hsound)).store hd
  stored name hn := by
    rw [WalkState.mem_storedNames_store]
    by_cases hne : name = d.name
    · exact .inr hne
    · exact .inl (h.stored (hstored name hn hne))
  registered := hr ▸ h.registered
  offered name c ho := by
    rcases h.offered name c ho with hc | hc | hw
    · exact .inl (hr ▸ hc)
    · exact .inr (.inl (WalkState.mem_storedNames_store.2 (.inl hc)))
    · exact .inr (.inr hw)

theorem marked {isCandidate : Bool} {r : Registry} (h : Advanced ctx s waiting t)
    (hm : t.registry.markCandidate ctx.reader name = (isCandidate, r)) :
    Advanced ctx s waiting (t.withRegistry r) where
  sound hs := (h.sound hs).of_classes_eq rfl
  stored := h.stored
  registered := by
    show s.registry.names <+: r.names
    rw [Registry.names_markCandidate hm]
    exact h.registered
  offered other c ho :=
    h.offered other c (ho.of_classOf?_eq (Registry.classOf?_markCandidate hm).symm)

/-- Registering components makes them wait. -/
theorem registered_scan {found : List ClassDecl} {names : List String} {r : Registry}
    (h : Scan.register s.registry found = (.ok names, r)) :
    Advanced ctx s names (s.withRegistry r) := by
  obtain ⟨added, hentries, hnames, -⟩ := Scan.entries_register h
  obtain rfl := hnames names rfl
  refine ⟨fun hs => hs.of_classes_eq rfl, List.Subset.refl _, ?_, fun name c ho => ?_⟩
  · show s.registry.names <+: r.names
    unfold Registry.names
    rw [hentries, List.map_append]
    exact List.prefix_append _ _
  · by_cases hold : name ∈ s.registry.names
    · have hget : r.get? name = s.registry.get? name := by
        obtain ⟨d, hd⟩ := Option.isSome_iff_exists.1 (Registry.contains_iff_mem_names.2 hold)
        rw [Registry.get?_append hentries, hd]
        rfl
      exact .inl ((Registry.classOf?_congr hget).symm.trans ho.class_eq)
    · have hnew : name ∈ r.names := ho.mem_names
      unfold Registry.names at hold hnew
      rw [hentries, List.map_append, List.mem_append] at hnew
      exact .inr (.inr (hnew.resolve_left hold))

end Advanced

/-- What is asked of a walk to keep what it stored, and to store what it enters. -/
def nodeContract (ctx : Context) : Contract where
  Ready _ v h :=
    match v with
    | .enter => h.inHand.Sourced
    | _ => True
  Kept s t := Advanced ctx s [] t
  Entered c s t := Advanced ctx s [] t ∧
    (c.decl.marks.has AnnotationType.conditional = false → c.name ∈ t.storedNames)
  Scanned s names t := Advanced ctx s names t
  Broken s _ t := Sound s → Sound t

section Laws

variable (ctx)

theorem nodeContract_generalLaws : (nodeContract ctx).GeneralLaws ctx where
  refl := .refl ctx
  trans hs ht := hs.trans ht
  broken_trans hs ht h := ht (hs.sound h)
  refused _ h := h
  unparsed _ h := h
  during _ h := h
  exhausted _ h := h

theorem nodeContract_enterLaws : (nodeContract ctx).EnterLaws ctx where
  skipped _ hskip := by
    refine ⟨.refl ctx _, fun hu => ?_⟩
    rw [Context.skips_of_unconditional (e := .ofClass _) hu] at hskip
    cases hskip
  merged {n c s k} _ hk _ hki := by
    have hnames := s.storedNames_mergeImporters c.name c
    refine ⟨.of_storedNames_eq (fun hs => hs.update (fun _ => rfl) fun j hj hn hsj => ?_)
      hnames rfl, fun _ => ?_⟩
    · obtain ⟨hmem, hname⟩ := WalkState.mem_of_stored? hk
      rw [WalkState.eq_of_name_eq hs.nodup hj hmem (hn.trans hname.symm)] at hsj ⊢
      exact hsj.mergeImporters hki
    · rw [hnames]
      exact WalkState.mem_storedNames_of_stored? hk
  ignored _ hk _ _ := ⟨.refl ctx _, fun _ => WalkState.mem_storedNames_of_stored? hk⟩
  enters _ _ := trivial
  entered {n c s t d} hr _ hk hcd := by
    refine ⟨hk.store id rfl (ConfigurationClass.Sourced.of_sameNode hr hcd) fun _ hn _ => hn,
      fun _ => ?_⟩
    exact WalkState.mem_storedNames_store.2 (.inr hcd.name_eq.symm)
  reenters _ _ _ := trivial
  reentered {n c s k t d} hr _ _ hk hcd := by
    refine ⟨hk.store (fun hs => hs.discard) rfl (ConfigurationClass.Sourced.of_sameNode hr hcd)
      fun _ hn hne => WalkState.mem_storedNames_discard hn (hcd.name_eq ▸ hne), fun _ => ?_⟩
    exact WalkState.mem_storedNames_store.2 (.inr hcd.name_eq.symm)
  reenter_broken hb hs := hb hs.discard
  entered_imported h := h.1

theorem nodeContract_ascendLaws : (nodeContract ctx).AscendLaws ctx where
  reported _ := .of_classes_eq rfl rfl
  member _ _ _ _ := ConfigurationClass.sourced_imported _ _
  through_member _ _ _ hu := hu.withImports _ _
  through_member_broken _ _ _ hb hs := (hb (hs.of_classes_eq rfl)).of_classes_eq rfl
  sources _ _ := .of_classes_eq rfl rfl
  ascend_imports _ _ _ := trivial
  noted _ _ := .of_classes_eq rfl rfl
  ascends _ _ _ _ _ := trivial

theorem nodeContract_scanLaws : (nodeContract ctx).ScanLaws ctx where
  scan_begun _ _ _ hreg := .registered_scan hreg
  scan_refused _ hs := hs.of_classes_eq rfl
  scan_passed {s name names t isCandidate r} hs hm hclass := by
    have hmarked := Advanced.marked hs hm
    refine ⟨hmarked.sound, hmarked.stored, hmarked.registered, fun other c ho => ?_⟩
    rcases hmarked.offered other c ho with hin | hin | hin
    · exact .inl hin
    · exact .inr (.inl hin)
    rcases List.mem_cons.1 hin with rfl | hin
    · -- a definition without a class is not one of a configuration class
      obtain ⟨className, hname, -⟩ := Registry.className_of_classOf? ho.class_eq
      rcases Registry.markCandidate?_of_markCandidate hm with ⟨hcand, -⟩ | ⟨-, hnone, -⟩
      · exact absurd ((hclass hcand).symm.trans hname) nofun
      · obtain ⟨r', hr'⟩ := (ho.of_classOf?_eq
          (Registry.classOf?_markCandidate hm).symm).exists_markCandidate?
        rw [hnone] at hr'
        cases hr'
    · exact .inr (.inr hin)
  scan_enters _ _ _ _ _ _ := ConfigurationClass.sourced_explicit _ _
  scan_entered {s name names t r className decl u} hs hm hclass hread hu := by
    have hall := (Advanced.marked hs hm).trans hu.1
    refine ⟨hall.sound, hall.stored, hall.registered, fun other c ho => ?_⟩
    rcases hall.offered other c ho with hin | hin | hin
    · exact .inl hin
    · exact .inr (.inl hin)
    rcases List.mem_cons.1 hin with rfl | hin
    · rcases hu.1.offered other c ho with hin | hin | hin
      · obtain ⟨className', hname, hread'⟩ := Registry.className_of_classOf? hin
        obtain rfl := Option.some.inj (hclass.symm.trans hname)
        obtain rfl := Option.some.inj ((Reader.read_eq_ok.1 hread).symm.trans hread')
        exact .inr (.inl (hu.2 ho.unconditional))
      · exact .inr (.inl hin)
      · exact absurd hin List.not_mem_nil
    · exact .inr (.inr hin)
  scan_broken hs hm hb h := hb ((Advanced.marked hs hm).sound h)
  scan_done hs := hs

theorem nodeContract_importLaws : (nodeContract ctx).ImportLaws ctx where
  through_imports _ _ hk := hk.withImports _ _
  through_imports_broken _ _ hb hs := (hb (hs.of_classes_eq rfl)).of_classes_eq rfl
  recorded _ _ := .of_classes_eq rfl rfl
  imports_enter _ _ _ _ _ := ConfigurationClass.sourced_imported _ _
  imports_more _ _ _ _ _ _ := trivial
  waits _ := .of_classes_eq rfl rfl
  registrars _ _ :=
    .of_storedNames_eq (fun hs => hs.update (fun _ => rfl)
      fun _ _ _ hk => hk.of_sameNode ⟨rfl, rfl, rfl⟩)
      (WalkState.storedNames_update fun _ => rfl) rfl

theorem nodeContract_lawful : (nodeContract ctx).Lawful ctx where
  toGeneralLaws := nodeContract_generalLaws ctx
  toEnterLaws := nodeContract_enterLaws ctx
  toAscendLaws := nodeContract_ascendLaws ctx
  toScanLaws := nodeContract_scanLaws ctx
  toImportLaws := nodeContract_importLaws ctx

end Laws

/-! ## Whole walks -/

/-- The root is stored, unless it cannot be read or carries a condition. -/
def RootStored (ctx : Context) (s : WalkState) (root : String × String) : Prop :=
  ∀ decl, ctx.reader.read? root.2 = some decl →
    decl.marks.has AnnotationType.conditional = false → decl.name ∈ s.storedNames

/-- A walk keeps what there was, and stores its roots. If it fails, the stored classes are sound
nevertheless. -/
theorem advanced_of_parse (ctx : Context) (s : WalkState) (roots : List (String × String)) :
    (Sound s → Sound (s.parse ctx roots).2) ∧
      ((s.parse ctx roots).1 = .ok () → Advanced ctx s [] (s.parse ctx roots).2 ∧
        ∀ root ∈ roots, RootStored ctx (s.parse ctx roots).2 root) := by
  have hwalk := Contract.leads_fromRoots (nodeContract_lawful ctx).steps
    ((nodeContract_lawful ctx).visit _) roots (h := ⟨default, s⟩)
    (fun rest t => Advanced ctx s [] t ∧ ∀ root ∈ roots, root ∈ rest ∨ RootStored ctx t root)
    ⟨.refl ctx s, fun _ hr => .inl hr⟩
    (fun beanName className rest t decl _ ht hread => by
      refine ⟨ConfigurationClass.sourced_explicit _ _, fun u hu => ?_⟩
      refine ⟨ht.1.trans hu.1, fun root hr => ?_⟩
      rcases ht.2 root hr with hm | hstored
      · rcases List.mem_cons.1 hm with rfl | hm
        · refine .inr fun decl' hread' hun => ?_
          obtain rfl := Option.some.inj ((Reader.read_eq_ok.1 hread).symm.trans hread')
          exact hu.2 hun
        · exact .inl hm
      · exact .inr fun decl hread hun => hu.1.stored (hstored decl hread hun))
    fun _ _ _ _ _ _ _ _ => trivial
  have hparse := WalkState.parse_of_leads
    (fun t => Advanced ctx s [] t ∧ ∀ root ∈ roots, RootStored ctx t root)
    (fun _ t => Sound s → Sound t) (hwalk.mono (fun _ h' hd => ?_) fun e h' hb => ?_)
  · rcases hp : s.parse ctx roots with ⟨_ | _, t⟩
    · exact ⟨hparse.2 _ t hp, nofun⟩
    · obtain ⟨ht, hroots⟩ := hparse.1 t hp
      exact ⟨ht.sound, fun _ => ⟨ht, hroots⟩⟩
  · obtain ⟨t, u, ⟨ht, hroots⟩, hu, hst⟩ := hd
    have hbegun : Advanced ctx t [] { t with deferred := ⟨none⟩ } := .of_classes_eq rfl rfl
    have hfinished : Advanced ctx u [] { u with deferred := .finish } := .of_classes_eq rfl rfl
    have hsettled := (hbegun.trans hu).trans hfinished
    rw [hst]
    refine ⟨ht.trans hsettled, fun root hr decl hread hun => hsettled.stored ?_⟩
    exact (hroots root hr).resolve_left List.not_mem_nil decl hread hun
  · intro hs
    rcases hb with ⟨_, t, ht, hu⟩ | ⟨t, u, ht, hu, hst⟩
    · exact hu (ht.1.sound hs)
    · rw [hst]
      exact (hu ((ht.1.sound hs).of_classes_eq rfl)).of_classes_eq rfl

/-! ## Sequences of walks -/

/-- A state that a sequence of walks comes to, whether they succeed or fail. Between two of them
everything but the stored classes may change. -/
inductive Reached (ctx : Context) : WalkState → Prop
  | new (world : World) : Reached ctx { world }
  | parse {s : WalkState} (roots : List (String × String)) (h : Reached ctx s) :
    Reached ctx (s.parse ctx roots).2
  | between {s t : WalkState} (h : Reached ctx s) (hc : t.classes = s.classes) : Reached ctx t

theorem sound_of_reached (h : Reached ctx s) : Sound s := by
  induction h with
  | new world => exact sound_new world
  | parse roots _ ih => exact (advanced_of_parse ctx _ roots).1 ih
  | between _ hc ih => exact ih.of_classes_eq hc

/-- However often walks are made, and whether they succeed or fail: each class is stored once, under
a bean name and without importers, or without one and with importers, each of them noted once. -/
theorem nodes_of_reached (h : Reached ctx s) :
    s.storedNames.Nodup ∧ ∀ c ∈ s.classes,
      (c.beanName?.isSome = true ∧ c.importedBy = []) ∨
      (c.beanName? = none ∧ c.importedBy ≠ [] ∧ c.importedBy.Nodup) := by
  have hs := sound_of_reached h
  refine ⟨hs.nodup, fun c hc => ?_⟩
  obtain ⟨hnodup, horigin⟩ := hs.sourced c hc
  by_cases hi : c.importedBy = []
  · exact .inl ⟨horigin.1 hi, hi⟩
  · refine .inr ⟨?_, hi, hnodup⟩
    rwa [horigin, Option.not_isSome_iff_eq_none] at hi

/-- Two classes that import a third one, of which the first imports an unknown class as well. -/
def shared : Descriptor :=
  { classes :=
      [{ name := "First",
          marks := { declared := [.naming AnnotationType.importing ["Log", "Unknown"]] } },
        { name := "Second", marks := { declared := [.naming AnnotationType.importing ["Log"]] } },
        { name := "Log" }] }

/-- A walk that fails, and one that succeeds after it. -/
theorem nodes_of_reached_shared : ∃ ctx w s t,
    Context.ofDescriptor shared "." { workingDirectory := [], files := [] } Table.empty =
      .ok (ctx, w) ∧
    s = (({ world := w } : WalkState).parse ctx [("first", "First")]).2 ∧
    (({ world := w } : WalkState).parse ctx [("first", "First")]).1 ≠ .ok () ∧
    t = (s.parse ctx [("second", "Second")]).2 ∧
    (s.parse ctx [("second", "Second")]).1 = .ok () ∧
    t.storedNames = ["Log", "Second"] ∧
    t.storedNames.Nodup ∧ ∀ c ∈ t.classes,
      (c.beanName?.isSome = true ∧ c.importedBy = []) ∨
      (c.beanName? = none ∧ c.importedBy ≠ [] ∧ c.importedBy.Nodup) := by
  have h : Context.ofDescriptor shared "." { workingDirectory := [], files := [] } Table.empty =
    .ok (_, _) := rfl
  refine ⟨_, _, _, _, h, rfl, by decide +kernel, rfl, by decide +kernel, by decide +kernel, ?_⟩
  exact nodes_of_reached (.parse _ (.parse _ (.new _)))

end Walk

end Wiring
