import Mathlib.Data.Set.Insert
import Mathlib.Logic.Relation
import Wiring.Proofs.Walk.Explicit

/-!
# Where stored classes come from

Importers may lead around in circles, and a class may be stored several times on the way, each time
with other importers. Even so, the importers of every stored class lead to an explicit registration.
While a class is being gone through this holds only if that class is taken for granted: what it
imports is stored before it. It no longer has to be when it is stored itself.
-/

namespace Wiring

open ConfigurationClass (SameNode)

namespace WalkState

/-- One stored class is imported by another one. -/
def ImportedBy (s : WalkState) (c d : ConfigurationClass) : Prop :=
  c ∈ s.classes ∧ d ∈ s.classes ∧ d.name ∈ c.importedBy

end WalkState

namespace Walk

/-- The class of a name goes back, through stored classes of `among` alone, to an explicit
registration or to a class that is taken for granted. -/
inductive Rooted (s : WalkState) (among granted : Set String) : String → Prop
  | granted {name : String} : name ∈ granted → Rooted s among granted name
  | explicit {name : String} {k : ConfigurationClass} : name ∈ among → s.stored? name = some k →
      k.isExplicit = true → Rooted s among granted name
  | imported {name importer : String} {k : ConfigurationClass} : name ∈ among →
      s.stored? name = some k → importer ∈ k.importedBy → Rooted s among granted importer →
      Rooted s among granted name

/-- Every stored class goes back to an explicit registration or to a class that is taken for
granted. -/
def AllRooted (granted : Set String) (s : WalkState) : Prop :=
  ∀ name k, s.stored? name = some k → Rooted s .univ granted name

/-- The stored class of a name goes back to whatever a class goes back to. -/
def Upheld (k : ConfigurationClass) (t : WalkState) (name : String) : Prop :=
  ∃ k', t.stored? name = some k' ∧ (k.isExplicit = true → k'.isExplicit = true) ∧
    k.importedBy ⊆ k'.importedBy

/-- A walk has taken no class the way back that it had, and stored none without one. -/
structure Uproots (granted : Set String) (s t : WalkState) : Prop where
  follows : ∀ {among granted' name}, Rooted s among granted' name → Rooted t among granted' name
  all : AllRooted granted s → AllRooted granted t

variable {ctx : Context} {s t u : WalkState} {among among' granted granted' : Set String}
  {name : String} {c d k : ConfigurationClass}

theorem upheld_of_stored? (h : t.stored? name = some k) : Upheld k t name :=
  ⟨k, h, id, List.Subset.refl _⟩

/-- The way back from a class can be followed in another state, where its steps may be left out, or
still be there. -/
theorem Rooted.transfer (h : Rooted s among granted name)
    (hgranted : ∀ n ∈ granted, Rooted t among' granted' n)
    (hstored : ∀ n ∈ among, ∀ k, s.stored? n = some k →
      Rooted t among' granted' n ∨ n ∈ among' ∧ Upheld k t n) :
    Rooted t among' granted' name := by
  induction h with
  | granted hn => exact hgranted _ hn
  | explicit hn hk he =>
    rcases hstored _ hn _ hk with hr | ⟨hn', k', hk', he', -⟩
    · exact hr
    · exact .explicit hn' hk' (he' he)
  | imported hn hk hi _ ih =>
    rcases hstored _ hn _ hk with hr | ⟨hn', k', hk', -, hi'⟩
    · exact hr
    · exact .imported hn' hk' (hi' hi) ih

theorem Rooted.exists_stored? (h : Rooted s among ∅ name) : ∃ k, s.stored? name = some k := by
  cases h with
  | granted hn => exact absurd hn (Set.notMem_empty _)
  | explicit _ hk _ => exact ⟨_, hk⟩
  | imported _ hk _ _ => exact ⟨_, hk⟩

theorem Rooted.follow (h : Rooted s among granted name)
    (hstored : ∀ n k, s.stored? n = some k → Upheld k t n) : Rooted t among granted name :=
  h.transfer (fun _ hn => .granted hn) fun n hn k hk => .inr ⟨hn, hstored n k hk⟩

/-! ## Storing the class that was gone through -/

/-- A class that comes back under its name, with an earlier form of it being taken out or not. -/
structure Replaces (c : ConfigurationClass) (s s' : WalkState) : Prop where
  others : ∀ n, n ≠ c.name → s'.stored? n = s.stored? n
  same : ∀ k, s.stored? c.name = some k → c.isExplicit = true

theorem replaces_new (h : s.stored? c.name = none) : Replaces c s s where
  others _ _ := rfl
  same k hk := by rw [h] at hk; cases hk

theorem replaces_discarded (hc : c.Sourced) (hi : c.isImported = false) :
    Replaces c s (s.discard c.name) where
  others _ hn := WalkState.stored?_discard_of_ne hn
  same _ _ := by
    have hnone : c.importedBy = [] := by simpa [ConfigurationClass.isImported] using hi
    simp [ConfigurationClass.isExplicit, hi, hc.origin.1 hnone]

/-- Every way back that there was before a class was gone through is there when it has been stored.
A way that does not come to the class is kept by the walk; one that does ends there from now on. -/
theorem Replaces.follows {s' : WalkState} (h : Replaces c s s') (hd : c.SameNode d)
    (hw : ∀ {among granted name}, Rooted s' among granted name → Rooted t among granted name)
    (hr : Rooted s among granted name) : Rooted (t.store d) among granted name := by
  have hwithin : Rooted s' (among \ {c.name}) (granted ∪ {n | n = c.name ∧ n ∈ among ∧
      ∃ k, s.stored? n = some k}) name := by
    refine hr.transfer (fun n hn => .granted (.inl hn)) fun n hn k hk => ?_
    by_cases he : n = c.name
    · exact .inl (.granted (.inr ⟨he, hn, k, hk⟩))
    · exact .inr ⟨⟨hn, he⟩, upheld_of_stored? ((h.others n he).trans hk)⟩
  refine (hw hwithin).transfer (fun n hn => ?_) fun n hn k hk => .inr ⟨hn.1, ?_⟩
  · rcases hn with hn | ⟨rfl, hn, k, hk⟩
    · exact .granted hn
    · refine .explicit hn (k := d) ?_ ((sameNode_isExplicit hd).trans (h.same k hk))
      rw [WalkState.stored?_store, if_pos hd.name_eq.symm]
  · refine upheld_of_stored? ?_
    rw [WalkState.stored?_store, if_neg (hd.name_eq ▸ hn.2)]
    exact hk

/-- Every class has its way back while one of them, which may have been taken out, is taken for
granted. -/
theorem Replaces.allRooted {s' : WalkState} (h : Replaces c s s') (hs : AllRooted granted s) :
    AllRooted (insert c.name granted) s' := by
  intro name k hk
  by_cases he : name = c.name
  · exact .granted (.inl he)
  refine (hs name k ((h.others name he).symm.trans hk)).transfer
    (fun n hn => .granted (.inr hn)) fun n _ k hk => ?_
  by_cases hn : n = c.name
  · exact .inl (.granted (.inl hn))
  · exact .inr ⟨trivial, upheld_of_stored? ((h.others n hn).trans hk)⟩

/-- A class has been gone through, taken for granted, and is stored. What went back to it goes back
to what it came from. -/
theorem Replaces.uproots {s' : WalkState} (h : Replaces c s s') (hc : c.Sourced) (hd : c.SameNode d)
    (hfrom : ∀ importer ∈ c.importedBy, Rooted s .univ granted importer)
    (hw : Uproots (insert c.name granted) s' t) : Uproots granted s (t.store d) := by
  have hfollows {among granted' : Set String} {name : String} :
      Rooted s among granted' name → Rooted (t.store d) among granted' name :=
    h.follows hd hw.follows
  have hstored : (t.store d).stored? c.name = some d := by
    rw [WalkState.stored?_store, if_pos hd.name_eq.symm]
  have hself : Rooted (t.store d) .univ granted c.name := by
    rcases hi : c.importedBy with _ | ⟨importer, rest⟩
    · refine .explicit trivial hstored ((sameNode_isExplicit hd).trans ?_)
      simp [ConfigurationClass.isExplicit, ConfigurationClass.isImported, hi, hc.origin.1 hi]
    · have hmem : importer ∈ c.importedBy := hi ▸ List.mem_cons_self
      exact .imported trivial hstored (hd.2.2 ▸ hmem) (hfollows (hfrom importer hmem))
  have hgranted (n : String) (hn : n ∈ insert c.name granted) :
      Rooted (t.store d) .univ granted n := by
    rcases hn with rfl | hn
    · exact hself
    · exact .granted hn
  refine ⟨hfollows, fun hs name k hk => ?_⟩
  rw [WalkState.stored?_store] at hk
  by_cases he : name = d.name
  · rw [he, hd.name_eq]
    exact hself
  rw [if_neg he] at hk
  refine (hw.all (h.allRooted hs) name k hk).transfer hgranted fun n _ k hk => ?_
  by_cases hn : n = c.name
  · exact .inl (hn ▸ hself)
  · refine .inr ⟨trivial, upheld_of_stored? ?_⟩
    rw [WalkState.stored?_store, if_neg (hd.name_eq ▸ hn)]
    exact hk

namespace Uproots

theorem refl (granted : Set String) (s : WalkState) : Uproots granted s s := ⟨id, id⟩

theorem trans (h : Uproots granted s t) (h' : Uproots granted t u) : Uproots granted s u :=
  ⟨fun hr => h'.follows (h.follows hr), fun hs => h'.all (h.all hs)⟩

theorem of_upheld (h : ∀ n k, s.stored? n = some k → Upheld k t n)
    (hnames : t.storedNames = s.storedNames) : Uproots granted s t where
  follows hr := hr.follow h
  all hs name k hk := by
    have hname : name ∈ s.storedNames := hnames ▸ WalkState.mem_storedNames_of_stored? hk
    rcases hk' : s.stored? name with _ | k'
    · exact absurd hname (WalkState.stored?_eq_none_iff.1 hk')
    · exact (hs name k' hk').follow h

theorem of_classes_eq (h : t.classes = s.classes) : Uproots granted s t :=
  have hstored (n : String) : t.stored? n = s.stored? n := by
    unfold WalkState.stored?
    rw [h]
  of_upheld (fun n _ hk => upheld_of_stored? ((hstored n).trans hk)) (congrArg (List.map _) h)

theorem withImports (f g : ImportLog → ImportLog) (h : Uproots granted (s.withImports f) t) :
    Uproots granted s (t.withImports g) :=
  ((of_classes_eq (s := s) (t := s.withImports f) rfl).trans h).trans
    (of_classes_eq (s := t) (t := t.withImports g) rfl)

theorem update {f : ConfigurationClass → ConfigurationClass} {other : String}
    (hname : ∀ k, (f k).name = k.name)
    (hf : ∀ k, ((k.isExplicit = true → (f k).isExplicit = true) ∧ k.importedBy ⊆ (f k).importedBy) ∨
      s.stored? other ≠ some k) : Uproots granted s (s.update other f) := by
  refine of_upheld (fun n k hk => ?_) (WalkState.storedNames_update hname)
  by_cases hn : n = other
  · subst hn
    refine ⟨f k, ?_, (hf k).resolve_right fun h => h hk⟩
    rw [WalkState.stored?_update hname, if_pos rfl, hk]
    rfl
  · refine upheld_of_stored? ?_
    rw [WalkState.stored?_update hname, if_neg hn]
    exact hk

end Uproots

/-! ## Whole walks -/

/-- What is asked of a walk to leave no class without its way back, where some classes are taken for
granted. -/
def rootedContract (granted : Set String) : Contract where
  Ready _ v h := AllRooted granted h.state ∧
    match v with
    | .enter => h.inHand.Sourced ∧
        ∀ importer ∈ h.inHand.importedBy, Rooted h.state .univ granted importer
    | _ => Rooted h.state .univ granted h.inHand.name
  Kept := Uproots granted
  Entered _ := Uproots granted
  Scanned s _ := Uproots granted s
  Broken _ _ _ := True

theorem rootedContract_generalLaws (ctx : Context) (granted : Set String) :
    (rootedContract granted).GeneralLaws ctx where
  refl := .refl granted
  trans hs ht := hs.trans ht
  broken_trans _ _ := trivial
  refused _ := trivial
  unparsed _ := trivial
  during _ _ := trivial
  exhausted _ := trivial

theorem rootedContract_stepLaws (ctx : Context) (granted : Set String) :
    (rootedContract granted).StepLaws ctx where
  toGeneralLaws := rootedContract_generalLaws ctx granted
  reported _ := .of_classes_eq rfl
  member {n source c s t m} hr hk _ _ := by
    have hpushed : Uproots granted t (t.withImports (·.push c.name)) := .of_classes_eq rfl
    have hall := hk.trans hpushed
    refine ⟨hall.all hr.1, ConfigurationClass.sourced_imported _ _, fun importer hi => ?_⟩
    rw [List.mem_singleton.1 hi]
    exact hall.follows hr.2
  through_member _ _ _ hu := hu.withImports _ _
  through_member_broken _ _ _ _ := trivial
  sources _ _ := .of_classes_eq rfl
  ascend_imports hr hk hd := ⟨hk.all hr.1, hd.name_eq ▸ hk.follows hr.2⟩
  noted _ _ := .of_classes_eq rfl
  ascends {n source c s d t name above} hr hk hd _ _ := by
    have hall := hk.trans (.of_classes_eq (t := t.noteSuperclass name d.name) rfl)
    exact ⟨hall.all hr.1, hd.name_eq ▸ hall.follows hr.2⟩
  scan_begun _ _ _ _ := .of_classes_eq rfl
  scan_refused _ := trivial
  scan_passed hs _ _ := hs.trans (.of_classes_eq rfl)
  scan_enters {n source c s t name names u r className decl} hr hk hs _ _ _ := by
    have hall := (hk.trans hs).trans (.of_classes_eq (t := u.withRegistry r) rfl)
    exact ⟨hall.all hr.1, ConfigurationClass.sourced_explicit _ _, nofun⟩
  scan_entered {s name names t r className decl u} hs _ _ _ hu :=
    (hs.trans (.of_classes_eq (t := t.withRegistry r) rfl)).trans hu
  scan_broken _ _ _ := trivial
  scan_done hs := hs
  through_imports _ _ hk := hk.withImports _ _
  through_imports_broken _ _ _ := trivial
  recorded _ _ := .of_classes_eq rfl
  imports_enter {n source names guarded c s t name decl} hr _ hk _ _ := by
    have hall := Uproots.withImports _ (·.record source.name name) hk
    refine ⟨hall.all hr.1, ConfigurationClass.sourced_imported _ _, fun importer hi => ?_⟩
    rw [List.mem_singleton.1 hi]
    exact hall.follows hr.2
  imports_more source' names' hr _ hk hd := by
    have hall := Uproots.withImports _ id hk
    refine ⟨hall.all hr.1, ?_⟩
    rcases hd with hd | hd
    · exact hd.name_eq ▸ hall.follows hr.2
    · rw [(WalkState.mem_of_stored? hd).2]
      exact hall.all hr.1 _ _ hd
  waits _ := .of_classes_eq rfl
  registrars name added := .update (fun _ => rfl) fun _ => .inl ⟨id, List.Subset.refl _⟩
  imported h := h

/-- Entering a class, which is taken for granted while it is being gone through. -/
theorem leads_enter_rooted {n : Nat} {h : Held}
    (hv : ∀ granted, (rootedContract granted).Meets n (visit ctx n))
    (hr : (rootedContract granted).Ready (n + 1) .enter h) :
    Leads (enter ctx (visit ctx n)) h (fun _ h' => (rootedContract granted).Done .enter h h')
      fun _ _ => True := by
  obtain ⟨c, s⟩ := h
  obtain ⟨hall, hsourced, hfrom⟩ := hr
  refine Invariant.leads_enter (fun _ _ => trivial) (fun _ => .refl _ s) (fun k hk _ hki => ?_)
    (fun _ _ _ _ => .refl _ s) fun s' hs => ?_
  · refine .update (fun _ => rfl) fun k' => ?_
    by_cases he : k' = k
    · refine .inl ⟨fun hx => ?_, ConfigurationClass.subset_mergeNames _ _⟩
      simp [ConfigurationClass.isExplicit, he, hki] at hx
    · exact .inr fun hk' => he (Option.some.inj (hk'.symm.trans hk))
  · have hreplaces : Replaces c s s' := by
      rcases hs with ⟨hn, rfl⟩ | ⟨-, hi, rfl⟩
      · exact replaces_new hn
      · exact replaces_discarded hsourced hi
    refine (hv (insert c.name granted) (.ascend c.decl) ⟨c, s'⟩
      ⟨hreplaces.allRooted hall, .granted (.inl rfl)⟩).mono (fun _ h' hd => ?_) fun _ _ _ => trivial
    exact hreplaces.uproots hsourced hd.2 hfrom hd.1

theorem meets_rooted (ctx : Context) (n : Nat) (granted : Set String) :
    (rootedContract granted).Meets n (visit ctx n) := by
  induction n generalizing granted with
  | zero => exact fun _ _ _ => trivial
  | succ n ih =>
    intro v h hr
    have hK := rootedContract_stepLaws ctx granted
    cases v with
    | enter => exact leads_enter_rooted ih hr
    | ascend source => exact Contract.leads_ascend hK (ih granted) hr
    | imports source names guarded => exact Contract.leads_visitImports hK (ih granted) hr

/-- A walk from a new state stores no class without a way back. -/
theorem allRooted_of_parse {world : World} {roots : List (String × String)}
    (h : ({ world } : WalkState).parse ctx roots = (.ok (), t)) : AllRooted ∅ t := by
  have hwalk := Contract.leads_fromRoots (rootedContract_stepLaws ctx ∅)
    (meets_rooted ctx _ ∅) roots
    (h := ⟨default, { world }⟩) (fun _ s => AllRooted ∅ s) (fun _ _ hk => by cases hk)
    (fun beanName className rest s decl _ hs _ =>
      ⟨⟨hs, ConfigurationClass.sourced_explicit _ _, nofun⟩, fun u hu => hu.all hs⟩)
    fun s hs source names u d hu hd => by
      have hbegun : Uproots ∅ s { s with deferred := ⟨none⟩ } := .of_classes_eq rfl
      have hall : AllRooted ∅ u := (hbegun.trans hu).all hs
      refine ⟨hall, ?_⟩
      show Rooted u .univ ∅ d.name
      rw [(WalkState.mem_of_stored? hd).2]
      exact hall _ _ hd
  have hparse := WalkState.parse_of_leads (fun t => AllRooted ∅ t) (fun _ _ => True)
    (hwalk.mono (fun _ h' hd => ?_) fun _ _ _ => trivial)
  · exact hparse.1 t h
  · obtain ⟨s, u, hs, hu, hst⟩ := hd
    have hbegun : Uproots ∅ s { s with deferred := ⟨none⟩ } := .of_classes_eq rfl
    have hfinished : Uproots ∅ u { u with deferred := .finish } := .of_classes_eq rfl
    rw [hst]
    exact ((hbegun.trans hu).trans hfinished).all hs

/-- A way back is a chain of importers. -/
theorem Rooted.exists_chain (h : Rooted s among ∅ name) (hk : s.stored? name = some k) :
    ∃ root ∈ s.classes, root.isExplicit = true ∧ Relation.ReflTransGen s.ImportedBy k root := by
  induction h generalizing k with
  | granted hn => exact absurd hn (Set.notMem_empty _)
  | explicit _ hk' he =>
    obtain rfl := Option.some.inj (hk.symm.trans hk')
    exact ⟨k, (WalkState.mem_of_stored? hk).1, he, .refl⟩
  | imported _ hk' hi hr ih =>
    obtain rfl := Option.some.inj (hk.symm.trans hk')
    obtain ⟨d, hd⟩ : ∃ d, s.stored? _ = some d := hr.exists_stored?
    obtain ⟨root, hroot, he, hchain⟩ := ih hd
    obtain ⟨hmem, hname⟩ := WalkState.mem_of_stored? hd
    exact ⟨root, hroot, he, .head ⟨(WalkState.mem_of_stored? hk).1, hmem, hname ▸ hi⟩ hchain⟩

end Walk

namespace WalkState

variable {ctx : Context} {t : WalkState} {roots : List (String × String)}

/-- Whatever a walk from a new state has gone through, the importers of every class that it stores
lead to an explicit registration, through stored classes alone. -/
theorem parse_rooted {world : World} (h : ({ world } : WalkState).parse ctx roots = (.ok (), t)) :
    ∀ c ∈ t.classes, ∃ root ∈ t.classes, root.isExplicit = true ∧
      Relation.ReflTransGen t.ImportedBy c root := by
  intro c hc
  have hsound : Walk.Sound t := by
    have hs := (Walk.advanced_of_parse ctx { world } roots).1 (Walk.sound_new world)
    rwa [h] at hs
  have hstored := stored?_of_mem hsound.nodup hc
  exact (Walk.allRooted_of_parse h _ c hstored).exists_chain hstored

/-- Two classes import each other, and what the second one has as a member, finds, selects and waits
for leads back to both. -/
def entangled : Descriptor :=
  { classes :=
      [{ name := "Root",
          marks :=
            { declared :=
                [.naming AnnotationType.configuration [],
                  .naming AnnotationType.importing ["First"]] } },
        { name := "First",
          marks :=
            { declared :=
                [.naming AnnotationType.configuration [],
                  .naming AnnotationType.importing ["p.Second"]] } },
        { name := "p.Second",
          memberClasses := ["q.Inner"],
          marks :=
            { declared :=
                [.naming AnnotationType.configuration [],
                  .naming AnnotationType.componentScan ["p"],
                  .naming AnnotationType.importing ["First", "Chooser", "Waiting"]] } },
        { name := "q.Inner",
          marks := { declared := [.naming AnnotationType.configuration []] } },
        { name := "Chosen", marks := { declared := [.naming AnnotationType.importing ["First"]] } },
        { name := "Late", marks := { declared := [.naming AnnotationType.importing ["Chosen"]] } }],
    plugins :=
      [.selector "Chooser" ["Chosen"],
        .deferredSelector "Waiting" ["Late"] none none false] }

theorem parse_rooted_entangled : ∃ ctx w t,
    Context.ofDescriptor entangled "." { workingDirectory := [], files := [] } Table.empty =
      .ok (ctx, w) ∧
    ({ world := w } : WalkState).parse ctx [("root", "Root")] = (.ok (), t) ∧
    t.classes.map (fun c => (c.name, c.importedBy)) =
      [("q.Inner", ["p.Second"]), ("First", ["Root"]), ("Chosen", ["p.Second", "Late"]),
        ("p.Second", ["First"]), ("Root", []), ("Late", ["p.Second"])] ∧
    ∀ c ∈ t.classes, ∃ root ∈ t.classes, root.isExplicit = true ∧
      Relation.ReflTransGen t.ImportedBy c root := by
  have h : Context.ofDescriptor entangled "." { workingDirectory := [], files := [] } Table.empty =
    .ok (_, _) := rfl
  refine ⟨_, _, _, h, Prod.ext ?ends rfl, ?_, parse_rooted (Prod.ext ?ends rfl)⟩
  case ends => decide +kernel
  · decide +kernel

end WalkState

end Wiring
