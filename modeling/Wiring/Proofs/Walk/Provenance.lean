import Mathlib.Data.List.Nodup
import Mathlib.Data.List.Perm.Subperm
import Wiring.Proofs.Walk.Nesting
import Wiring.Proofs.Walk.Records

/-!
# Where classes came from

Where classes only import and imports lead in no circle, a walk stores exactly the classes reached
from the roots, each behind the classes that it imports, and records of each by which classes it was
imported. The contract says what entering a class makes of the records while a hole is left; from it
follows what a whole walk records, and that another walk over the same roots only moves their
records.
-/

open Relation (ReflTransGen TransGen)

namespace Wiring

namespace Walk

variable {ctx : Context} {roots : List (String × String)} {hole? : Option String}
  {s t u : WalkState} {p name : String}

/-! ## The contract -/

/-- A class that is about to be entered while the hole is gone through: the root that leaves it, or
one that the innermost class imports. -/
inductive Arrival (ctx : Context) (roots : List (String × String)) (hole : String) :
    ConfigurationClass → WalkState → Prop
  | root {decl beanName s} (hd : ctx.reader.read? decl.name = some decl)
    (hr : (beanName, decl.name) ∈ roots) (hn : decl.name = hole) (hs : s.imports.stack = [])
    (h : Recorded ctx roots none s) : Arrival ctx roots hole (.explicit decl beanName) s
  | imported {decl p below s} (hd : ctx.reader.read? decl.name = some decl)
    (hp : ctx.Imports p decl.name) (hs : s.imports.stack = p :: below)
    (hpath : ctx.ImportPath roots (p :: below)) (hlast : (p :: below).getLast? = some hole)
    (h : Recorded ctx roots (some hole) s) : Arrival ctx roots hole (.imported decl p) s

/-- What entering a class makes of the state. Where its importer, or all that it imports, had been
noted, nothing changes but the place of a root. -/
def Arrived (ctx : Context) (roots : List (String × String)) (hole : String)
    (c : ConfigurationClass) (s t : WalkState) : Prop :=
  match c.importedBy with
  | [] => Recorded ctx roots none t ∧ c.gathered ctx ∈ t.classes ∧
    (∀ k ∈ s.classes, k.importedBy = [] → k.name ≠ c.name → k ∈ t.classes) ∧
    ((∀ name, ctx.Imports c.name name → Noted s c.name name) →
      t.classes = s.classes.filter (·.name != c.name) ++ [c.gathered ctx])
  | p :: _ => Recorded ctx roots (some hole) t ∧ Noted t p c.name ∧
    Grown (ReflTransGen ctx.Imports c.name) s t ∧ (Noted s p c.name → t.classes = s.classes)

/-- How far going through the imports of a class has come. -/
structure Underway (ctx : Context) (roots : List (String × String)) (hole : String)
    (c : ConfigurationClass) (s : WalkState) (rest : List String) (t : WalkState) : Prop where
  recorded : Recorded ctx roots (some hole) t
  grown : Grown (TransGen ctx.Imports c.name) s t
  noted : ∀ name, ctx.Imports c.name name → name ∈ rest ∨ Noted t c.name name
  unchanged : (∀ name, ctx.Imports c.name name → Noted s c.name name) → t.classes = s.classes

/-- What is asked of walking through imports to record where classes came from. The only failure is
that the bound on the depth of the steps is used up. -/
def provenanceContract (ctx : Context) (roots : List (String × String)) (hole : String) :
    ImportContract where
  Ready := Arrival ctx roots hole
  Entered := Arrived ctx roots hole
  Going := Underway ctx roots hole
  Broken e _ := e.rootCause = .exhausted "the walk through configuration classes"

section Laws

variable {hole : String} {c : ConfigurationClass} {s₀ : WalkState}

namespace Arrival

variable (h : Arrival ctx roots hole c s)

include h

theorem read : ctx.reader.read? c.name = some c.decl := by
  cases h with
  | root hd => exact hd
  | imported hd => exact hd

theorem path : ctx.ImportPath roots (c.name :: s.imports.stack) := by
  cases h with
  | root hd hr hn hs => rw [hs]; exact .ofRoot hr
  | imported hd hp hs hpath => rw [hs]; exact hpath.cons hp

theorem last : (c.name :: s.imports.stack).getLast? = some hole := by
  cases h with
  | root hd hr hn hs => rw [hs]; exact congrArg some hn
  | imported hd hp hs hpath hlast => rw [hs, List.getLast?_cons_cons, hlast]

theorem imports {name : String} (hn : name ∈ collectImports ctx.reader c.decl) :
    ctx.Imports c.name name := by
  rw [Context.Imports, Context.importsOf_eq h.read]
  exact hn

theorem begun (hb : Begun c s s₀) : Recorded ctx roots (some hole) s₀ := by
  cases h with
  | root hd hr hn hs h => exact hn ▸ h.begun hb
  | imported hd hp hs hpath hlast h =>
    cases hb with
    | new => exact h
    | anew _ hc => cases hc

theorem storedNames_nodup : s.storedNames.Nodup := by
  cases h with
  | root hd hr hn hs h => exact h.nodup
  | imported hd hp hs hpath hlast h => exact h.nodup

variable (hacyclic : ∀ name, ctx.Reaches roots name → ¬ TransGen ctx.Imports name name)

include hacyclic

theorem not_imports_self : ¬ ctx.Imports c.name c.name :=
  fun hi => hacyclic _ h.path.reaches (.single hi)

theorem not_mem_stack : c.name ∉ s.imports.stack :=
  fun hm => hacyclic _ h.path.reaches (h.path.transGen hm)

theorem depth_lt (hdepth : ctx.reader.classNames.length ≤ ctx.settings.maxImportDepth) :
    s.imports.depth < ctx.settings.maxImportDepth := by
  have hsub := h.path.subset_classNames h.read
  have hle := ((h.path.nodup hacyclic).subperm hsub).length_le
  rw [List.length_cons] at hle
  exact Nat.lt_of_lt_of_le hle hdepth

theorem not_mem_storedNames {rest : List String} (hb : Begun c s s₀)
    (hu : Underway ctx roots hole c s₀ rest t) : c.name ∉ t.storedNames := by
  intro hm
  rcases hu.grown.names _ hm with hs | hi
  · exact hb.not_mem_storedNames h.storedNames_nodup hs
  · exact hacyclic _ h.path.reaches hi

/-- A class all of whose imports have been gone through is stored as it has to be. -/
theorem arrived (hb : Begun c s s₀) (hu : Underway ctx roots hole c s₀ [] t) :
    Arrived ctx roots hole c s (t.store (c.gathered ctx)) := by
  have hnot : (c.gathered ctx).name ∉ t.storedNames := h.not_mem_storedNames hacyclic hb hu
  have hself := h.not_imports_self hacyclic
  have hnoted : ∀ name, ctx.Imports c.name name → Noted t c.name name :=
    fun name hi => (hu.noted name hi).resolve_left List.not_mem_nil
  have hmem : c.gathered ctx ∈ (t.store (c.gathered ctx)).classes := by
    rw [WalkState.classes_store hnot]
    exact List.mem_append_right _ (List.mem_singleton_self _)
  cases h with
  | @root decl beanName s hd hr hn hs h =>
    have hsame : ∀ k ∈ s.classes, k.name ≠ decl.name → k ∈ s₀.classes := fun k hk hne => by
      rw [hb.classes_eq h.nodup, List.mem_filter, bne_iff_ne]
      exact ⟨hk, hne⟩
    refine ⟨?_, hmem, fun k hk hi hne => ?_, fun hall => ?_⟩
    · refine hu.recorded.store hnot (faithful_explicit hd hr) hnoted (fun hne => absurd rfl hne) ?_
        nofun
      rintro name ⟨⟩
      exact .inr ⟨hn.symm, rfl⟩
    · exact subset_classes_store hnot (hu.grown.roots k (hsame k hk hne) hi)
    · have hclasses := hu.unchanged fun name hi => by
        obtain ⟨k, hk, rfl, hp⟩ := hall name hi
        refine ⟨k, hsame k hk fun he => hself ?_, rfl, hp⟩
        rw [he] at hi
        exact hi
      rw [WalkState.classes_store hnot, hclasses, hb.classes_eq h.nodup]
  | @imported decl p below s hd hp hs hpath hlast h =>
    obtain rfl : s₀ = s := by
      cases hb with
      | new => rfl
      | anew _ hc => cases hc
    have hpc := hpath.cons hp
    have hhole : decl.name ≠ hole := by
      rintro rfl
      exact hacyclic _ hpc.reaches (hpc.transGen (List.mem_of_getLast? hlast))
    have hfaithful := faithful_imported hd hpath.reaches hp
    refine ⟨?_, ⟨_, hmem, rfl, .inr (List.mem_singleton_self p)⟩, ?_, fun hstored => ?_⟩
    · refine hu.recorded.store hnot hfaithful hnoted (fun _ q hq hi => ?_)
        (fun name hn => .inl hn) ?_
      · rcases List.mem_append.1 hq with hq | hq
        · rcases hu.recorded.complete q hq _ hi with he | hm
          · exact hhole (Option.some.inj he)
          · exact hnot hm.mem_storedNames
        · rw [List.mem_singleton.1 hq] at hi
          exact hself hi
      · rintro name ⟨⟩ hm
        rcases List.mem_append.1 hm with hm | hm
        · exact hu.recorded.hole _ rfl hm
        · exact hhole (List.mem_singleton.1 hm).symm
    · exact ((Grown.refl _ _).trans hu.grown fun _ hi => hi.to_reflTransGen).store hnot .refl
    · exact absurd hstored.mem_storedNames (hb.not_mem_storedNames h.nodup)

end Arrival

theorem Arrival.underway (h : Arrival ctx roots hole c s) (hb : Begun c s s₀) :
    Underway ctx roots hole c s₀ (collectImports ctx.reader c.decl) s₀ where
  recorded := h.begun hb
  grown := .refl _ _
  noted name hi := by
    rw [Context.Imports, Context.importsOf_eq h.read] at hi
    exact .inl hi
  unchanged _ := rfl

theorem Underway.congr {rest : List String} (h : Underway ctx roots hole c s₀ rest t)
    (hc : u.classes = t.classes) (hd : u.diagnostics = t.diagnostics) :
    Underway ctx roots hole c s₀ rest u where
  recorded := h.recorded.congr hc hd
  grown := by
    have hnames : u.storedNames = t.storedNames := congrArg (List.map _) hc
    refine ⟨fun p name hn => ?_, fun k hk hi => ?_, fun name hn => ?_⟩
    · exact (h.grown.noted p name hn).of_subset (hc ▸ List.Subset.refl _)
    · exact hc ▸ h.grown.roots k hk hi
    · exact h.grown.names name (hnames ▸ hn)
  noted name hi := (h.noted name hi).imp_right fun hn => hn.of_subset (hc ▸ List.Subset.refl _)
  unchanged hall := hc.trans (h.unchanged hall)

/-- One more import has been gone through. -/
theorem Underway.next {rest : List String} {decl : ClassDecl}
    (h : Underway ctx roots hole c s₀ (name :: rest) t) (hn : decl.name = name)
    (hi : ctx.Imports c.name name) (hu : Arrived ctx roots hole (.imported decl c.name) t u) :
    Underway ctx roots hole c s₀ rest u := by
  obtain ⟨hrecorded, hnoted, hgrown, hunchanged⟩ := hu
  have hnoted : Noted u c.name name := hn ▸ hnoted
  refine ⟨hrecorded, h.grown.trans hgrown fun n hr => ?_, fun n hin => ?_, fun hall => ?_⟩
  · have hr : ReflTransGen ctx.Imports name n := hn ▸ hr
    exact .head' hi hr
  · rcases h.noted n hin with hm | hm
    · rcases List.mem_cons.1 hm with rfl | hm
      · exact .inr hnoted
      · exact .inl hm
    · exact .inr (hgrown.noted _ _ hm)
  · have hclasses := h.unchanged hall
    refine (hunchanged ?_).trans hclasses
    show Noted t c.name decl.name
    rw [hn]
    exact (hall name hi).of_subset (hclasses ▸ List.Subset.refl _)

variable (hc : ctx.Declared) (ho : ctx.OnlyImports roots)
  (hacyclic : ∀ name, ctx.Reaches roots name → ¬ TransGen ctx.Imports name name)
  (hdepth : ctx.reader.classNames.length ≤ ctx.settings.maxImportDepth)

include hc ho hacyclic hdepth

/-- Walking through imports keeps to the contract where they lead in no circle. -/
theorem provenanceContract_lawful (hole : String) :
    (provenanceContract ctx roots hole).Lawful ctx where
  plain hr := ho.plain _ _ (Arrival.path hr).reaches (Arrival.read hr)
  importable {c s name} hr hn := by
    have hi := Arrival.imports hr hn
    have hreached := (Arrival.path hr).reaches
    exact ⟨ho.noPlugin _ _ hreached hi, ho.known _ _ hreached hi⟩
  merged {c s k} hr hk hi hki := by
    rw [ConfigurationClass.isImported_iff] at hki
    cases hr with
    | root => cases hi
    | imported hd hp hs hpath hlast h =>
      exact ⟨h.merged hk hki hpath.reaches hp, noted_merged h hk, grown_merged h hk hki _,
        classes_merged_of_noted h hk hki⟩
  ignored {c s k} hr hk hi hki := by
    have hki : k.importedBy = [] := by
      by_contra hne
      rw [ConfigurationClass.isImported_iff.2 hne] at hki
      cases hki
    obtain ⟨hmem, hname⟩ := WalkState.mem_of_stored? hk
    cases hr with
    | root => cases hi
    | imported hd hp hs hpath hlast h =>
      exact ⟨h, ⟨k, hmem, hname, .inl hki⟩, .refl _ _, fun _ => rfl⟩
  leaf {c s s₀} hr hb hl := by
    have hu := Arrival.underway hr hb
    rw [hl] at hu
    exact Arrival.arrived hr hacyclic hb hu
  chained {c s s₀} hr hb hch := by
    rw [hb.imports_eq, ImportLog.isChained, Bool.and_eq_true] at hch
    exact absurd (List.mem_of_elem_eq_true hch.1) (Arrival.not_mem_stack hr hacyclic)
  deep {c s s₀} hr hb _ hd := by
    rw [hb.imports_eq] at hd
    exact absurd hd (Nat.not_le_of_lt (Arrival.depth_lt hr hacyclic hdepth))
  begun {c s s₀} hr hb _ := (Arrival.underway hr hb).congr rfl rfl
  next {c s s₀ name rest t decl} hr hb hg hst hn hd := by
    have hname : decl.name = name := Reader.name_of_read? hc.wellNamed hd
    rw [hb.imports_eq] at hst
    refine .imported (hname ▸ hd) (hname ▸ Arrival.imports hr hn) hst (Arrival.path hr)
      (Arrival.last hr) ?_
    exact (Underway.recorded hg).congr rfl rfl
  nexted {c s s₀ name rest t decl u} hr hb hg hst hn hd hu := by
    have hname : decl.name = name := Reader.name_of_read? hc.wellNamed hd
    exact Underway.next (t := t.withImports (·.record c.name name))
      (Underway.congr hg rfl rfl) hname (Arrival.imports hr hn) hu
  done {c s s₀ t} hr hb hg _ := Arrival.arrived hr hacyclic hb (Underway.congr hg rfl rfl)
  popped hb := hb
  during message hb := by
    show (Error.during message _).rootCause = _
    rw [Error.rootCause_during]
    exact hb
  exhausted _ _ := rfl

end Laws

/-! ## Whole walks -/

/-- The root has a record under its bean name, and without importers. -/
def RootRecorded (s : WalkState) (root : String × String) : Prop :=
  ∃ k ∈ s.classes, k.name = root.2 ∧ k.importedBy = [] ∧ k.beanName? = some root.1

/-- Where a walk has led: to exactly the classes reached from the roots, each stored once. A root
has its bean name and no importers. The importers of any other class are exactly those classes
reached that import it, each noted once, and it is stored before all of them. -/
structure Provenance (ctx : Context) (roots : List (String × String)) (s : WalkState) : Prop where
  silent : s.diagnostics.problems = []
  nodup : s.storedNames.Nodup
  stored_iff : ∀ name, name ∈ s.storedNames ↔ ctx.Reaches roots name
  root_iff : ∀ k ∈ s.classes, k.importedBy = [] ↔ k.name ∈ roots.map (·.2)
  beanName : ∀ k ∈ s.classes, k.importedBy = [] →
    ∃ root ∈ roots, root.2 = k.name ∧ k.beanName? = some root.1
  importers_nodup : ∀ k ∈ s.classes, k.importedBy.Nodup
  importers_iff : ∀ k ∈ s.classes, k.importedBy ≠ [] →
    ∀ p, p ∈ k.importedBy ↔ ctx.Reaches roots p ∧ ctx.Imports p k.name
  ordered : ∀ k ∈ s.classes, k.importedBy ≠ [] →
    ∀ p ∈ k.importedBy, [k.name, p].Sublist s.storedNames

/-- What is on record of a root is what going through it gathers. -/
theorem Recorded.stored?_root {decl : ClassDecl} {beanName : String}
    (h : Recorded ctx roots hole? s) (hd : ctx.reader.read? decl.name = some decl)
    (hr : RootRecorded s (beanName, decl.name)) :
    s.stored? decl.name = some ((ConfigurationClass.explicit decl beanName).gathered ctx) := by
  obtain ⟨k, hk, hname : k.name = decl.name, hi, hb⟩ := hr
  have hf := h.faithful k hk
  have hdecl : k.decl = decl := by
    have hread := hf.read
    rw [hname, hd] at hread
    exact (Option.some.inj hread).symm
  have hgathered : k = (ConfigurationClass.explicit decl beanName).gathered ctx :=
    calc k = ⟨k.decl, k.beanName?, k.importedBy, k.beanMethods, k.importedResources,
          k.registrars⟩ := rfl
      _ = ⟨decl, some beanName, [], beanMethods ctx.reader decl, [], []⟩ := by
        rw [hf.methods, hf.resources, hf.registrars, hdecl, hb, hi]
      _ = (ConfigurationClass.explicit decl beanName).gathered ctx := rfl
  rw [← hname, WalkState.stored?_of_mem h.nodup hk, hgathered]

theorem rootRecorded_of_arrived {beanName : String} {decl : ClassDecl} {hole : String}
    (hdistinct : (roots.map (·.2)).Nodup) (hr : (beanName, decl.name) ∈ roots)
    (ha : Arrived ctx roots hole (.explicit decl beanName) s t) {root : String × String}
    (hroot : root ∈ roots) (h : root = (beanName, decl.name) ∨ RootRecorded s root) :
    RootRecorded t root := by
  obtain ⟨-, hmem, hkept, -⟩ := ha
  by_cases he : root.2 = decl.name
  · obtain rfl := List.inj_on_of_nodup_map hdistinct hroot hr he
    exact ⟨_, hmem, rfl, rfl, rfl⟩
  · rcases h with rfl | ⟨k, hk, hn, hi, hb⟩
    · exact absurd rfl he
    · exact ⟨k, hkept k hk hi fun hc => he (hn.symm.trans hc), hn, hi, hb⟩

/-- Once all roots have been entered, everything reached is stored. -/
theorem Recorded.provenance (h : Recorded ctx roots none s)
    (hroots : ∀ root ∈ roots, RootRecorded s root) : Provenance ctx roots s := by
  have hnoted : ∀ p ∈ s.storedNames, ∀ name, ctx.Imports p name → Noted s p name :=
    fun p hp name hi => (h.complete p hp name hi).resolve_left nofun
  have hreached : ∀ name, ctx.Reaches roots name → name ∈ s.storedNames := by
    rintro name ⟨root, hr, hi⟩
    induction hi with
    | refl =>
      obtain ⟨k, hk, hn, -⟩ := hroots root hr
      exact hn ▸ List.mem_map_of_mem hk
    | tail _ hab ih => exact (hnoted _ ih _ hab).mem_storedNames
  constructor
  · exact h.silent
  · exact h.nodup
  · refine fun name => ⟨fun hm => ?_, hreached name⟩
    obtain ⟨k, hk, rfl⟩ := List.mem_map.1 hm
    exact (h.faithful k hk).reached
  · refine fun k hk => ⟨fun hi => ?_, fun hm => ?_⟩
    · obtain ⟨root, hr, hn, -⟩ := (h.faithful k hk).root hi
      exact List.mem_map.2 ⟨root, hr, hn⟩
    · obtain ⟨root, hr, hn⟩ := List.mem_map.1 hm
      obtain ⟨j, hj, hjn, hji, -⟩ := hroots root hr
      exact h.unique hj hk (hjn.trans hn) ▸ hji
  · exact fun k hk hi => (h.faithful k hk).root hi
  · exact fun k hk => (h.faithful k hk).nodup
  · refine fun k hk hne p => ⟨(h.faithful k hk).importers p, fun ⟨hp, hi⟩ => ?_⟩
    obtain ⟨j, hj, hjn, hjp⟩ := hnoted p (hreached p hp) k.name hi
    obtain rfl := h.unique hj hk hjn
    exact hjp.resolve_left hne
  · intro k hk hne p hp
    obtain ⟨hpr, hpi⟩ := (h.faithful k hk).importers p hp
    exact h.ordered k hk hne p (hreached p hpr) hpi

section Parse

variable (hc : ctx.Declared) (ho : ctx.OnlyImports roots)
  (hacyclic : ∀ name, ctx.Reaches roots name → ¬ TransGen ctx.Imports name name)
  (hdepth : ctx.reader.classNames.length ≤ ctx.settings.maxImportDepth)
  (hknown : ∀ root ∈ roots, ∃ decl, ctx.reader.read? root.2 = some decl)

include hc ho hacyclic hdepth hknown

/-- A walk comes to its end, and keeps what entering each root keeps. -/
theorem parse_keeps (keeps : List (String × String) → WalkState → Prop)
    (hrecorded : ∀ rest t, keeps rest t → Recorded ctx roots none t) (hk : keeps roots s)
    (hdeferred : s.deferred = {}) (hrest : Resting ctx s.imports)
    (hstep : ∀ beanName decl rest t u, (beanName, decl.name) :: rest <:+ roots →
      ctx.reader.read? decl.name = some decl → keeps ((beanName, decl.name) :: rest) t →
      Arrived ctx roots decl.name (.explicit decl beanName) t u → keeps rest u) :
    ∃ t, s.parse ctx roots = (.ok (), t) ∧ keeps [] t ∧ t.deferred = {} ∧
      Resting ctx t.imports := by
  have hwalk := ImportContract.leads_fromRoots (h := ⟨default, s⟩)
    (provenanceContract_lawful hc ho hacyclic hdepth) roots
    (fun _ e t hb => hb) keeps hk hrest.1 hdeferred
    fun beanName className rest t hsuf ht hs => by
      have hmem := hsuf.subset List.mem_cons_self
      refine ⟨fun e he => ?_, fun decl hd => ?_⟩
      · obtain ⟨decl, hd⟩ := hknown _ hmem
        rw [Reader.read_eq_ok.2 hd] at he
        cases he
      · obtain rfl : decl.name = className := Reader.name_of_read? hc.wellNamed hd
        exact ⟨.root hd hmem rfl hs (hrecorded _ t ht), fun u hu => hstep _ _ _ t u hsuf hd ht hu⟩
  have hparse := WalkState.parse_of_leads (fun t => keeps [] t ∧ t.deferred = s.deferred)
    (fun e _ => e.rootCause = .exhausted "the walk through configuration classes")
    (hwalk.imp fun _ _ hd => ⟨hd.1, hd.2.2⟩)
  obtain ⟨hdirect, hrest'⟩ := resting_of_parse hc hrest roots
  rcases hp : s.parse ctx roots with ⟨e | _, t⟩
  · have he := hdirect e (by rw [hp])
    rw [hparse.2 e t hp] at he
    exact absurd he (by decide)
  · obtain ⟨ht, hd⟩ := hparse.1 t hp
    rw [hp] at hrest'
    exact ⟨t, rfl, ht, hd.trans hdeferred, hrest'⟩

/-- A first walk ends with everything on record. -/
theorem parse_records (hdistinct : (roots.map (·.2)).Nodup) (world : World) :
    ∃ s, ({ world } : WalkState).parse ctx roots = (.ok (), s) ∧
      (Recorded ctx roots none s ∧ ∀ root ∈ roots, RootRecorded s root) ∧
      s.deferred = {} ∧ Resting ctx s.imports := by
  have hnew : Recorded ctx roots none { world } :=
    ⟨rfl, .nil, nofun, nofun, nofun, nofun⟩
  obtain ⟨s, hs, ⟨h, hrecorded⟩, hd, hrest⟩ := parse_keeps hc ho hacyclic hdepth hknown
    (fun rest t => Recorded ctx roots none t ∧ ∀ root ∈ roots, root ∈ rest ∨ RootRecorded t root)
    (fun _ _ h => h.1) ⟨hnew, fun _ hr => .inl hr⟩ rfl (resting_new ctx)
    fun beanName decl rest t u hsuf _ ht ha => by
      refine ⟨ha.1, fun root hr => ?_⟩
      have hentered : root = (beanName, decl.name) ∨ RootRecorded t root → RootRecorded u root :=
        rootRecorded_of_arrived hdistinct (hsuf.subset List.mem_cons_self) ha hr
      rcases ht.2 root hr with hm | hm
      · rcases List.mem_cons.1 hm with he | hm
        · exact .inr (hentered (.inl he))
        · exact .inl hm
      · exact .inr (hentered (.inr hm))
  exact ⟨s, hs, ⟨h, fun root hr => (hrecorded root hr).resolve_left List.not_mem_nil⟩, hd, hrest⟩

/-- Another walk over the same roots moves their records behind all others. -/
theorem parse_moves_roots (hdistinct : (roots.map (·.2)).Nodup) (h : Recorded ctx roots none s)
    (hroots : ∀ root ∈ roots, RootRecorded s root) (hdeferred : s.deferred = {})
    (hrest : Resting ctx s.imports) :
    ∃ t, s.parse ctx roots = (.ok (), t) ∧
      (Recorded ctx roots none t ∧ ∀ root ∈ roots, RootRecorded t root) ∧
      t.classes = s.movedBehind roots := by
  obtain ⟨t, ht, ⟨hrecorded, hentered, done, hdone, hclasses⟩, -, -⟩ :=
    parse_keeps hc ho hacyclic hdepth hknown
    (fun rest t => Recorded ctx roots none t ∧ (∀ root ∈ roots, RootRecorded t root) ∧
      ∃ done, roots = done ++ rest ∧ t.classes = s.movedBehind done)
    (fun _ _ h => h.1) ⟨h, hroots, [], rfl, s.movedBehind_nil.symm⟩ hdeferred hrest
    fun beanName decl rest t u hsuf hd ht ha => by
      obtain ⟨hrecorded, hentered, done, hdone, hclasses⟩ := ht
      have hmem : (beanName, decl.name) ∈ roots := hsuf.subset List.mem_cons_self
      have hstored : decl.name ∈ t.storedNames := by
        obtain ⟨k, hk, hn : k.name = decl.name, -⟩ := hentered _ hmem
        exact hn ▸ List.mem_map_of_mem hk
      have hmoved := ha.2.2.2 fun name hi =>
        (hrecorded.complete _ hstored name hi).resolve_left nofun
      refine ⟨ha.1, fun root hr => ?_, done ++ [(beanName, decl.name)], ?_, ?_⟩
      · exact rootRecorded_of_arrived hdistinct hmem ha hr (.inr (hentered root hr))
      · rw [hdone, List.append_assoc, List.singleton_append]
      · rw [hdone, List.map_append, List.map_cons] at hdistinct
        have hlast : decl.name ∉ done.map (·.2) := fun hm =>
          (List.nodup_append.1 hdistinct).2.2 _ hm _ List.mem_cons_self rfl
        have hbehind := WalkState.movedBehind_concat (beanName, decl.name) hlast
          (h.stored?_root hd (hroots _ hmem))
        rw [hmoved, hclasses]
        exact hbehind.symm
  rw [List.append_nil] at hdone
  exact ⟨t, ht, ⟨hrecorded, hentered⟩, hdone ▸ hclasses⟩

end Parse

/-- Where classes only import and imports lead in no circle, a walk from different known classes
comes to its end, reports nothing, and records where every class came from. Another walk from the
same roots only moves their records behind all others. -/
theorem parse_provenance {d : Descriptor} {directory : String} {files : FileTree}
    {exported : Table String} {w : World}
    (h : Context.ofDescriptor d directory files exported = .ok (ctx, w))
    (ho : ctx.OnlyImports roots)
    (hacyclic : ∀ name, ctx.Reaches roots name → ¬ TransGen ctx.Imports name name)
    (hdepth : ctx.reader.classNames.length ≤ ctx.settings.maxImportDepth)
    (hknown : ∀ root ∈ roots, ∃ decl, ctx.reader.read? root.2 = some decl)
    (hdistinct : (roots.map (·.2)).Nodup) (world : World) :
    ∃ s t, ({ world } : WalkState).parse ctx roots = (.ok (), s) ∧ Provenance ctx roots s ∧
      s.parse ctx roots = (.ok (), t) ∧ Provenance ctx roots t ∧
      t.classes = s.movedBehind roots ∧ t.classes.Perm s.classes := by
  have hc := Context.declared_of_ofDescriptor h
  obtain ⟨s, hs, ⟨hrecorded, hroots⟩, hdeferred, hrest⟩ :=
    parse_records hc ho hacyclic hdepth hknown hdistinct world
  obtain ⟨t, ht, ⟨hrecorded', hroots'⟩, hmoved⟩ :=
    parse_moves_roots hc ho hacyclic hdepth hknown hdistinct hrecorded hroots hdeferred hrest
  refine ⟨s, t, hs, hrecorded.provenance hroots, ht, hrecorded'.provenance hroots', hmoved, ?_⟩
  rw [hmoved]
  exact WalkState.movedBehind_perm hrecorded.nodup hdistinct

/-- A class that is imported by two others, and a root that is imported before it is entered. -/
def market : Descriptor :=
  { classes :=
      [{ name := "Shop",
          marks := { declared := [.naming AnnotationType.importing ["Till", "Log"]] } },
        { name := "Till",
          marks := { declared := [.naming AnnotationType.importing ["Log", "Coin"]] } },
        { name := "Log", marks := { declared := [.naming AnnotationType.importing ["Coin"]] } },
        { name := "Coin" }] }

def marketRoots : List (String × String) := [("shop", "Shop"), ("log", "Log")]

theorem parse_provenance_market : ∃ ctx w,
    Context.ofDescriptor market "." { workingDirectory := [], files := [] } Table.empty =
      .ok (ctx, w) ∧
    ctx.OnlyImports marketRoots ∧
    (∀ name, ctx.Reaches marketRoots name → ¬ TransGen ctx.Imports name name) ∧
    ∃ s t, ({ world := w } : WalkState).parse ctx marketRoots = (.ok (), s) ∧
      Provenance ctx marketRoots s ∧ s.parse ctx marketRoots = (.ok (), t) ∧
      Provenance ctx marketRoots t ∧ t.classes = s.movedBehind marketRoots ∧
      t.classes.Perm s.classes := by
  have h : Context.ofDescriptor market "." { workingDirectory := [], files := [] } Table.empty =
    .ok (_, _) := rfl
  refine ⟨_, _, h, ?only, ?acyclic,
    parse_provenance h ?only ?acyclic ?depth ?known ?distinct _⟩
  case only =>
    exact .of_closed ["Coin", "Log", "Till", "Shop"] (by decide +kernel) (by decide +kernel)
  case acyclic =>
    exact Context.not_circle_of_order ["Coin", "Log", "Till", "Shop"] (by decide +kernel)
      (by decide +kernel)
  case depth => decide +kernel
  case known =>
    refine fun root hr => Option.isSome_iff_exists.1 ?_
    revert root
    decide +kernel
  case distinct => decide +kernel

end Walk

end Wiring
