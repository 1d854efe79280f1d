import Mathlib.Data.List.Nodup
import Wiring.Proofs.Walk.Imports

/-!
# Records of where classes came from

A walk records with each class that it stores how the class came in. A class may be reached in many
ways, and a root may have been stored as an import before it is entered; then it is gone through
again, while its record is missing. What is on record all the time is stated with that hole. It
stays so when another importer is added, when a class is stored and when a root leaves its hole.
-/

namespace Wiring

variable (ctx : Context) (roots : List (String × String))

namespace Walk

/-! ## Records -/

/-- A record of a class says what is known of it: a root keeps its bean name and no importers, any
other class has importers, each of them once. -/
structure Faithful (k : ConfigurationClass) : Prop where
  read : ctx.reader.read? k.name = some k.decl
  reached : ctx.Reaches roots k.name
  methods : k.beanMethods = beanMethods ctx.reader k.decl
  resources : k.importedResources = []
  registrars : k.registrars = []
  root : k.importedBy = [] → ∃ root ∈ roots, root.2 = k.name ∧ k.beanName? = some root.1
  unnamed : k.importedBy ≠ [] → k.beanName? = none
  nodup : k.importedBy.Nodup
  importers : ∀ p ∈ k.importedBy, ctx.Reaches roots p ∧ ctx.Imports p k.name

/-- The class is stored, and if it is not a root then with this importer. -/
def Noted (s : WalkState) (importer name : String) : Prop :=
  ∃ k ∈ s.classes, k.name = name ∧ (k.importedBy = [] ∨ importer ∈ k.importedBy)

/-- What holds all the time: the stored classes have faithful records and are complete, apart from
the hole: the root that is being gone through. -/
structure Recorded (hole? : Option String) (s : WalkState) : Prop where
  silent : s.diagnostics.problems = []
  nodup : s.storedNames.Nodup
  faithful : ∀ k ∈ s.classes, Faithful ctx roots k
  complete : ∀ p ∈ s.storedNames, ∀ name, ctx.Imports p name → some name = hole? ∨ Noted s p name
  ordered : ∀ k ∈ s.classes, k.importedBy ≠ [] → ∀ p ∈ s.storedNames, ctx.Imports p k.name →
    [k.name, p].Sublist s.storedNames
  hole : ∀ name, hole? = some name → name ∉ s.storedNames

/-- What has been stored since then, as far as it satisfies a condition; importers on record stay
there, and so do the records of roots. -/
structure Grown (added : String → Prop) (s t : WalkState) : Prop where
  noted : ∀ p name, Noted s p name → Noted t p name
  roots : ∀ k ∈ s.classes, k.importedBy = [] → k ∈ t.classes
  names : ∀ name ∈ t.storedNames, name ∈ s.storedNames ∨ added name

variable {ctx roots} {hole? : Option String} {s t u : WalkState} {p name : String}

theorem faithful_explicit {decl : ClassDecl} {beanName : String}
    (hd : ctx.reader.read? decl.name = some decl) (hr : (beanName, decl.name) ∈ roots) :
    Faithful ctx roots ((ConfigurationClass.explicit decl beanName).gathered ctx) where
  read := hd
  reached := (Context.ImportPath.ofRoot hr).reaches
  methods := List.nil_append _
  resources := rfl
  registrars := rfl
  root _ := ⟨_, hr, rfl, rfl⟩
  unnamed hne := absurd rfl hne
  nodup := .nil
  importers := nofun

/-- A class that has been gone through as an import has a faithful record. -/
theorem faithful_imported {decl : ClassDecl} (hd : ctx.reader.read? decl.name = some decl)
    (hp : ctx.Reaches roots p) (hi : ctx.Imports p decl.name) :
    Faithful ctx roots ((ConfigurationClass.imported decl p).gathered ctx) where
  read := hd
  reached := hp.tail hi
  methods := List.nil_append _
  resources := rfl
  registrars := rfl
  root := nofun
  unnamed _ := rfl
  nodup := List.pairwise_singleton _ _
  importers q hq := by
    rw [List.mem_singleton.1 hq]
    exact ⟨hp, hi⟩

theorem Noted.mem_storedNames (h : Noted s p name) : name ∈ s.storedNames := by
  obtain ⟨k, hk, rfl, -⟩ := h
  exact List.mem_map_of_mem hk

theorem Noted.of_subset (h : Noted s p name) (hs : s.classes ⊆ t.classes) : Noted t p name := by
  obtain ⟨k, hk, hn⟩ := h
  exact ⟨k, hs hk, hn⟩

theorem Grown.refl (added : String → Prop) (s : WalkState) : Grown added s s :=
  ⟨fun _ _ h => h, fun _ h _ => h, fun _ h => .inl h⟩

theorem Grown.trans {added added' : String → Prop} (h : Grown added s t) (h' : Grown added' t u)
    (ha : ∀ name, added' name → added name) : Grown added s u where
  noted p name hn := h'.noted p name (h.noted p name hn)
  roots k hk hi := h'.roots k (h.roots k hk hi) hi
  names name hn := by
    rcases h'.names name hn with hn | hn
    · exact h.names name hn
    · exact .inr (ha name hn)

/-- What has been recorded is recorded in every state with the same classes and problems. -/
theorem Recorded.congr (h : Recorded ctx roots hole? s) (hc : t.classes = s.classes)
    (hd : t.diagnostics = s.diagnostics) : Recorded ctx roots hole? t := by
  have hnames : t.storedNames = s.storedNames := congrArg (List.map _) hc
  have hnoted : ∀ p name, Noted s p name → Noted t p name :=
    fun _ _ hn => hn.of_subset (hc ▸ List.Subset.refl _)
  constructor
  · rw [hd]
    exact h.silent
  · rw [hnames]
    exact h.nodup
  · rw [hc]
    exact h.faithful
  · rw [hnames]
    exact fun p hp name hi => (h.complete p hp name hi).imp_right (hnoted p name)
  · rw [hc, hnames]
    exact h.ordered
  · rw [hnames]
    exact h.hole

theorem Recorded.unique (h : Recorded ctx roots hole? s) {j k : ConfigurationClass}
    (hj : j ∈ s.classes) (hk : k ∈ s.classes) (hn : j.name = k.name) : j = k :=
  WalkState.eq_of_name_eq h.nodup hj hk hn

/-! ## An import of a stored class -/

theorem importedBy_mergeImporters (k : ConfigurationClass) (decl : ClassDecl) (p : String) :
    (k.mergeImporters (.imported decl p)).importedBy =
      if p ∈ k.importedBy then k.importedBy else k.importedBy ++ [p] := by
  simp only [ConfigurationClass.mergeImporters, ConfigurationClass.imported,
    ConfigurationClass.mergeNames]

theorem Faithful.merged {k : ConfigurationClass} (h : Faithful ctx roots k)
    (hi : k.importedBy ≠ []) (hp : ctx.Reaches roots p) (hpi : ctx.Imports p k.name)
    (decl : ClassDecl) : Faithful ctx roots (k.mergeImporters (.imported decl p)) := by
  have hmerged := importedBy_mergeImporters k decl p
  have hne : (k.mergeImporters (.imported decl p)).importedBy ≠ [] := fun he =>
    hi (List.eq_nil_of_subset_nil (he ▸ ConfigurationClass.subset_mergeNames k.importedBy [p]))
  refine ⟨h.read, h.reached, h.methods, h.resources, h.registrars, fun he => absurd he hne,
    fun _ => h.unnamed hi, ?_, ?_⟩
  · exact ConfigurationClass.nodup_mergeNames [p] h.nodup
  · intro q hq
    rw [hmerged] at hq
    split at hq
    · exact h.importers q hq
    · rcases List.mem_append.1 hq with hq | hq
      · exact h.importers q hq
      · rw [List.mem_singleton.1 hq]
        exact ⟨hp, hpi⟩

section Merged

variable {k : ConfigurationClass} {decl : ClassDecl} (h : Recorded ctx roots hole? s)
  (hk : s.stored? name = some k) (hi : k.importedBy ≠ []) (hp : ctx.Reaches roots p)
  (hpi : ctx.Imports p name)

include h hk

/-- A record after another importer of the stored class has been added: that of the class has
changed. -/
theorem mem_classes_merged {j : ConfigurationClass} :
    j ∈ (s.update name (·.mergeImporters (.imported decl p))).classes ↔
      j = k.mergeImporters (.imported decl p) ∨ j ∈ s.classes ∧ j.name ≠ name := by
  obtain ⟨hmem, hname⟩ := WalkState.mem_of_stored? hk
  rw [WalkState.classes_update h.nodup, List.mem_map]
  constructor
  · rintro ⟨i, hi, rfl⟩
    by_cases hn : i.name = name
    · rw [if_pos hn, h.unique hi hmem (hn.trans hname.symm)]
      exact .inl rfl
    · rw [if_neg hn]
      exact .inr ⟨hi, hn⟩
  · rintro (rfl | ⟨hj, hn⟩)
    · exact ⟨k, hmem, if_pos hname⟩
    · exact ⟨j, hj, if_neg hn⟩

theorem noted_merged : Noted (s.update name (·.mergeImporters (.imported decl p))) p name := by
  obtain ⟨-, hname⟩ := WalkState.mem_of_stored? hk
  refine ⟨_, (mem_classes_merged h hk).2 (.inl rfl), hname, .inr ?_⟩
  rw [importedBy_mergeImporters]
  split
  next hm => exact hm
  next => exact List.mem_append_right _ (List.mem_singleton_self p)

include hi

theorem grown_merged (added : String → Prop) :
    Grown added s (s.update name (·.mergeImporters (.imported decl p))) := by
  obtain ⟨hmem, hname⟩ := WalkState.mem_of_stored? hk
  constructor
  · rintro q _ ⟨j, hj, rfl, hq⟩
    by_cases hn : j.name = name
    · obtain rfl := h.unique hj hmem (hn.trans hname.symm)
      refine ⟨_, (mem_classes_merged h hk).2 (.inl rfl), rfl, .inr ?_⟩
      rw [importedBy_mergeImporters]
      have hq := hq.resolve_left hi
      split
      · exact hq
      · exact List.mem_append_left _ hq
    · exact ⟨j, (mem_classes_merged h hk).2 (.inr ⟨hj, hn⟩), rfl, hq⟩
  · intro j hj he
    refine (mem_classes_merged h hk).2 (.inr ⟨hj, fun hn => hi ?_⟩)
    rw [← h.unique hj hmem (hn.trans hname.symm), he]
  · intro n hn
    rw [WalkState.storedNames_mergeImporters] at hn
    exact .inl hn

/-- Adding an importer that is on record already changes nothing. -/
theorem classes_merged_of_noted (hn : Noted s p name) :
    (s.update name (·.mergeImporters (.imported decl p))).classes = s.classes := by
  obtain ⟨hmem, hname⟩ := WalkState.mem_of_stored? hk
  obtain ⟨j, hj, hjn, hjp⟩ := hn
  obtain rfl := h.unique hj hmem (hjn.trans hname.symm)
  have hp := hjp.resolve_left hi
  rw [WalkState.classes_update h.nodup]
  refine (List.map_congr_left fun i hi => ?_).trans (List.map_id _)
  split
  next hin =>
    obtain rfl := h.unique hi hj (hin.trans hjn.symm)
    have hmerged := importedBy_mergeImporters i decl p
    rw [if_pos hp] at hmerged
    show { i with importedBy := (i.mergeImporters (.imported decl p)).importedBy } = i
    rw [hmerged]
  next => rfl

include hp hpi in
theorem Recorded.merged :
    Recorded ctx roots hole? (s.update name (·.mergeImporters (.imported decl p))) := by
  obtain ⟨hmem, hname⟩ := WalkState.mem_of_stored? hk
  have hnames := s.storedNames_mergeImporters name (.imported decl p)
  constructor
  · exact h.silent
  · rw [hnames]
    exact h.nodup
  · intro j hj
    rcases (mem_classes_merged h hk).1 hj with rfl | ⟨hj, -⟩
    · exact (h.faithful k hmem).merged hi hp (hname ▸ hpi) decl
    · exact h.faithful j hj
  · rw [hnames]
    exact fun q hq n hqn =>
      (h.complete q hq n hqn).imp_right ((grown_merged h hk hi fun _ => False).noted q n)
  · rw [hnames]
    intro j hj hne q hq hqj
    rcases (mem_classes_merged h hk).1 hj with rfl | ⟨hj, -⟩
    · exact h.ordered k hmem hi q hq hqj
    · exact h.ordered j hj hne q hq hqj
  · rw [hnames]
    exact h.hole

end Merged

/-! ## Storing a class that has been gone through -/

section Store

variable {c : ConfigurationClass}

theorem subset_classes_store (hn : c.name ∉ t.storedNames) : t.classes ⊆ (t.store c).classes := by
  rw [WalkState.classes_store hn]
  exact List.subset_append_left _ _

theorem Grown.store {added : String → Prop} (h : Grown added s t) (hn : c.name ∉ t.storedNames)
    (ha : added c.name) : Grown added s (t.store c) where
  noted p name hp := (h.noted p name hp).of_subset (subset_classes_store hn)
  roots k hk hi := subset_classes_store hn (h.roots k hk hi)
  names name hm := by
    rw [WalkState.storedNames_store hn, List.mem_append, List.mem_singleton] at hm
    rcases hm with hm | rfl
    · exact h.names name hm
    · exact .inr ha

/-- Storing a class whose imports have been noted. The hole may be filled with it. -/
theorem Recorded.store {hole' : Option String} (h : Recorded ctx roots hole? t)
    (hn : c.name ∉ t.storedNames) (hf : Faithful ctx roots c)
    (himports : ∀ name, ctx.Imports c.name name → Noted t c.name name)
    (hnew : c.importedBy ≠ [] → ∀ p ∈ t.storedNames ++ [c.name], ¬ ctx.Imports p c.name)
    (hfill : ∀ name, some name = hole? → some name = hole' ∨ name = c.name ∧ c.importedBy = [])
    (hhole : ∀ name, hole' = some name → name ∉ t.storedNames ++ [c.name]) :
    Recorded ctx roots hole' (t.store c) := by
  have hnames := WalkState.storedNames_store hn
  have hclasses := WalkState.classes_store hn
  have hmem : ∀ k, k ∈ (t.store c).classes ↔ k ∈ t.classes ∨ k = c := fun k => by
    rw [hclasses, List.mem_append, List.mem_singleton]
  constructor
  · exact h.silent
  · exact WalkState.nodup_store h.nodup
  · intro k hk
    rcases (hmem k).1 hk with hk | rfl
    · exact h.faithful k hk
    · exact hf
  · intro p hp name hi
    rw [hnames, List.mem_append, List.mem_singleton] at hp
    rcases hp with hp | rfl
    · rcases h.complete p hp name hi with hhole | hnoted
      · refine (hfill name hhole).imp_right fun hc => ?_
        exact ⟨c, (hmem c).2 (.inr rfl), hc.1.symm, .inl hc.2⟩
      · exact .inr (hnoted.of_subset (subset_classes_store hn))
    · exact .inr ((himports name hi).of_subset (subset_classes_store hn))
  · intro k hk hne p hp hi
    rw [hnames] at hp ⊢
    rcases (hmem k).1 hk with hk | rfl
    · rcases List.mem_append.1 hp with hp | hp
      · exact (h.ordered k hk hne p hp hi).trans (List.sublist_append_left _ _)
      · rw [List.mem_singleton.1 hp]
        exact (List.singleton_sublist.2 (List.mem_map_of_mem hk)).append (List.Sublist.refl _)
    · exact absurd hi (hnew hne p hp)
  · rw [hnames]
    exact hhole

/-- A root is about to be gone through, and leaves a hole if it had been stored. -/
theorem Recorded.begun {s₀ : WalkState} (h : Recorded ctx roots none s) (hb : Begun c s s₀) :
    Recorded ctx roots (some c.name) s₀ := by
  have hnames := hb.storedNames_eq h.nodup
  have hmem : ∀ k, k ∈ s₀.classes ↔ k ∈ s.classes ∧ k.name ≠ c.name := fun k => by
    rw [hb.classes_eq h.nodup, List.mem_filter, bne_iff_ne]
  have hstored : ∀ name, name ∈ s₀.storedNames ↔ name ∈ s.storedNames ∧ name ≠ c.name :=
    fun name => by rw [hnames, List.mem_filter, bne_iff_ne]
  constructor
  · rw [hb.diagnostics_eq]
    exact h.silent
  · rw [hnames]
    exact h.nodup.filter _
  · exact fun k hk => h.faithful k ((hmem k).1 hk).1
  · intro p hp name hi
    rcases h.complete p ((hstored p).1 hp).1 name hi with hnone | ⟨k, hk, rfl, hn⟩
    · cases hnone
    · by_cases hc : k.name = c.name
      · exact .inl (congrArg some hc)
      · exact .inr ⟨k, (hmem k).2 ⟨hk, hc⟩, rfl, hn⟩
  · intro k hk hne p hp hi
    obtain ⟨hk, hkc⟩ := (hmem k).1 hk
    obtain ⟨hp, hpc⟩ := (hstored p).1 hp
    have hsub := (h.ordered k hk hne p hp hi).filter (· != c.name)
    rw [hnames]
    simpa [hkc, hpc] using hsub
  · rintro name ⟨⟩
    exact hb.not_mem_storedNames h.nodup

end Store

end Walk

end Wiring
