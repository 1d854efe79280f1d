import Wiring.Proofs.Walk.Nodes
import Wiring.Proofs.Walk.Watch

/-!
# Explicit registrations

A class that is stored as an explicit registration stays one while no import of it is being gone
through: imports of a stored class leave explicit registrations alone. An import that is being gone
through stores the class at its end, whatever has been stored under its name within it.
-/

namespace Wiring

/-- Is the class an explicit registration? -/
def ConfigurationClass.isExplicit (c : ConfigurationClass) : Bool :=
  c.beanName?.isSome && !c.isImported

namespace WalkState

/-- Is the class of a name stored as an explicit registration? -/
def isExplicit (s : WalkState) (name : String) : Bool :=
  (s.stored? name).any (·.isExplicit)

/-- Within a walk that succeeds, does some piece of work leave behind what is looked for? -/
def Sights (s : WalkState) (ctx : Context) (sight : Walk.Sight) (roots : List (String × String)) :
    Prop :=
  (s.parseUntil ctx sight roots).1 ≠ .ok ()

theorem isExplicit_iff {s : WalkState} {name : String} :
    s.isExplicit name = true ↔ ∃ k, s.stored? name = some k ∧ k.isExplicit = true := by
  unfold isExplicit
  cases s.stored? name <;> simp

end WalkState

namespace Walk

/-- A class of the name is stored, and not as an imported one. -/
def Unimported (name : String) (classes : List ConfigurationClass) : Prop :=
  ∃ k, classes.find? (·.name == name) = some k ∧ k.isImported = false

/-- The class of the name is not stored as an explicit registration. -/
def Implicit (name : String) (classes : List ConfigurationClass) : Prop :=
  ∀ k, classes.find? (·.name == name) = some k → k.isExplicit = false

/-- The class of the name is stored as an explicit registration, and no import of it is being gone
through. -/
def explicitSight (name : String) : Sight := fun underway s =>
  s.isExplicit name && !underway.any fun c => c.name == name && c.isImported

variable {ctx : Context} {name : String} {s t : WalkState} {c d : ConfigurationClass}

theorem unimported_of_isExplicit (h : s.isExplicit name = true) : Unimported name s.classes := by
  obtain ⟨k, hk, he⟩ := WalkState.isExplicit_iff.1 h
  unfold ConfigurationClass.isExplicit at he
  simp only [Bool.and_eq_true, Bool.not_eq_true'] at he
  exact ⟨k, hk, he.2⟩

theorem isExplicit_of_unimported (hs : Sound s) (h : Unimported name s.classes) :
    s.isExplicit name = true := by
  obtain ⟨k, hk, hi⟩ := h
  refine WalkState.isExplicit_iff.2 ⟨k, hk, ?_⟩
  have horigin := (hs.sourced k (WalkState.mem_of_stored? hk).1).origin
  unfold ConfigurationClass.isImported at hi
  have hnil : k.importedBy = [] := by simpa using hi
  simp [ConfigurationClass.isExplicit, ConfigurationClass.isImported, hnil, horigin.1 hnil]

theorem implicit_iff : Implicit name s.classes ↔ s.isExplicit name = false := by
  unfold Implicit WalkState.isExplicit
  show (∀ k, s.stored? name = some k → _) ↔ _
  cases s.stored? name <;> simp

theorem sameNode_isImported (h : c.SameNode d) : d.isImported = c.isImported := by
  unfold ConfigurationClass.isImported
  rw [h.2.2]

theorem sameNode_isExplicit (h : c.SameNode d) : d.isExplicit = c.isExplicit := by
  unfold ConfigurationClass.isExplicit
  rw [h.2.1, sameNode_isImported h]

namespace Unimported

theorem store_of_ne (h : Unimported name s.classes) (hd : d.name ≠ name) :
    Unimported name (s.store d).classes := by
  obtain ⟨k, hk, hi⟩ := h
  refine ⟨k, ?_, hi⟩
  show (s.store d).stored? name = some k
  rw [WalkState.stored?_store, if_neg (Ne.symm hd)]
  exact hk

theorem store_self (hd : d.isImported = false) : Unimported d.name (s.store d).classes := by
  refine ⟨d, ?_, hd⟩
  show (s.store d).stored? d.name = some d
  rw [WalkState.stored?_store, if_pos rfl]

theorem store_sameNode (h : c.SameNode d) (hi : c.isImported = false) :
    Unimported c.name (s.store d).classes := by
  rw [← h.name_eq]
  exact store_self ((sameNode_isImported h).trans hi)

theorem discard_of_ne {other : String} (h : Unimported name s.classes) (hd : other ≠ name) :
    Unimported name (s.discard other).classes := by
  obtain ⟨k, hk, hi⟩ := h
  refine ⟨k, ?_, hi⟩
  show (s.discard other).stored? name = some k
  rw [WalkState.stored?_discard_of_ne (Ne.symm hd)]
  exact hk

theorem update_of_ne {other : String} {f : ConfigurationClass → ConfigurationClass}
    (h : Unimported name s.classes) (hf : ∀ k, (f k).name = k.name) (hd : other ≠ name) :
    Unimported name (s.update other f).classes := by
  obtain ⟨k, hk, hi⟩ := h
  refine ⟨k, ?_, hi⟩
  show (s.update other f).stored? name = some k
  rw [WalkState.stored?_update hf, if_neg (Ne.symm hd)]
  exact hk

end Unimported

theorem exists_stored?_registrars (s : WalkState) (other : String) (added : List RegistrarBinding)
    (name : String) : ∃ f : ConfigurationClass → ConfigurationClass,
      (∀ d : ConfigurationClass, d.SameNode (f d)) ∧
        (s.update other fun d => { d with registrars := d.registrars ++ added }).stored? name =
          (s.stored? name).map f := by
  rw [WalkState.stored?_update (by exact fun _ => rfl)]
  split
  · refine ⟨_, ?_, rfl⟩
    exact fun _ => ⟨rfl, rfl, rfl⟩
  · exact ⟨id, fun d => .refl d, by simp⟩

theorem unregistered_unimported : Unregistered (Unimported name) := by
  rintro s other added ⟨k, hk, hi⟩
  obtain ⟨f, hf, hstored⟩ := exists_stored?_registrars s other added name
  refine ⟨f k, hstored.trans ?_, (sameNode_isImported (hf k)).trans hi⟩
  rw [show s.stored? name = some k from hk]
  rfl

theorem unregistered_implicit : Unregistered (Implicit name) := by
  intro s other added h k hk
  obtain ⟨f, hf, hstored⟩ := exists_stored?_registrars s other added name
  obtain ⟨j, hj, rfl⟩ := Option.map_eq_some_iff.1 (hstored.symm.trans hk)
  exact (sameNode_isExplicit (hf j)).trans (h j hj)

/-! ## Walks that come to an explicit registration -/

theorem ends_gather {sure : List ConfigurationClass → Prop} {n : Nat}
    (hstore : ∀ (t : WalkState) d, c.SameNode d → sure (t.store d).classes) :
    Ends sure (gather (visit ctx n)) ⟨c, s⟩ := by
  unfold Ends gather
  simp only [leads_bind, leads_inHand, leads_modifyState]
  exact (leads_sameNode ctx n c s).mono (fun _ h' hd => hstore _ _ hd) fun _ _ _ => trivial

theorem explicitSight_of_imported {underway : List ConfigurationClass} (hc : c ∈ underway)
    (hname : c.name = name) (hi : c.isImported = true) : explicitSight name underway s = false := by
  have hany : (underway.any fun c => c.name == name && c.isImported) = true :=
    List.any_eq_true.2 ⟨c, hc, by simp [hname, hi]⟩
  simp [explicitSight, hany]

/-- Entering a class as an explicit registration, which no condition skips. -/
theorem ends_enter_explicit {n : Nat} (hi : c.isImported = false)
    (hu : c.decl.marks.has AnnotationType.conditional = false) :
    Ends (Unimported c.name) (enter ctx (visit ctx n)) ⟨c, s⟩ := by
  have hgather (s : WalkState) : Ends (Unimported c.name) (gather (visit ctx n)) ⟨c, s⟩ :=
    ends_gather fun _ _ hd => .store_sameNode hd hi
  unfold Ends enter
  simp only [leads_bind, leads_inHand, leads_state]
  rw [Context.skips_of_unconditional (e := .ofClass _) hu, leads_ofExcept]
  refine ⟨?_, fun e he => by cases he⟩
  rintro skipped ⟨⟩
  simp only [Bool.false_eq_true, if_false]
  split
  · exact hgather s
  · rw [hi]
    exact hgather _

section Tracking

variable {n : Nat} {underway : List ConfigurationClass}

theorem tracks_enter_of_ne (hne : c.name ≠ name)
    (ih : ∀ v h, Tracks (Unimported name)
      (visitUntil ctx (explicitSight name) n (c :: underway) v) (visit ctx n v) h) :
    Tracks (Unimported name)
      (enter ctx (visitUntil ctx (explicitSight name) n (c :: underway)))
      (enter ctx (visit ctx n)) ⟨c, s⟩ := by
  have hgather (s : WalkState) : Tracks (Unimported name)
      (gather (visitUntil ctx (explicitSight name) n (c :: underway)))
      (gather (visit ctx n)) ⟨c, s⟩ :=
    tracks_gather ih (leads_sameNode ctx n c) fun t d hd hu => hu.store_of_ne (hd.name_eq ▸ hne)
  refine tracks_enter (hgather s) (fun _ => .after ⟨fun hu => hu.discard_of_ne hne, hgather _⟩) ?_
  intro k _ _ _ hu
  exact hu.update_of_ne (fun _ => rfl) hne

/-- Entering an import of the class. Within it nothing is looked for, and where an explicit
registration is stored it is left alone. -/
theorem tracks_enter_imported (hi : c.isImported = true) :
    Tracks (Unimported c.name)
      (enter ctx (visitUntil ctx (explicitSight c.name) n (c :: underway)))
      (enter ctx (visit ctx n)) ⟨c, s⟩ := by
  rw [run_visitUntil_of_never fun more s =>
    explicitSight_of_imported (List.mem_append_right _ List.mem_cons_self) rfl hi]
  refine .self fun hu => ?_
  have hstored : ∃ k, s.stored? c.name = some k ∧ k.isImported = false := hu
  obtain ⟨k, hk, hki⟩ := hstored
  unfold Ends enter
  simp only [leads_bind, leads_inHand, leads_state, hk, hi, hki]
  refine leads_ofExcept.2 ⟨fun skipped _ => ?_, fun _ _ => trivial⟩
  cases skipped with
  | true => exact hu
  | false => exact hu

/-- Entering the class as an explicit registration. Wherever the watched step stops, the class is
stored as one in the end. -/
theorem tracks_enter_explicit (hi : c.isImported = false) :
    Tracks (Unimported c.name)
      (enter ctx (visitUntil ctx (explicitSight c.name) n (c :: underway)))
      (enter ctx (visit ctx n)) ⟨c, s⟩ := by
  have hstore (t : WalkState) (d : ConfigurationClass) (hd : c.SameNode d) :
      Unimported c.name (t.store d).classes := .store_sameNode hd hi
  have hgather (s : WalkState) : Tracks (fun _ => True)
      (gather (visitUntil ctx (explicitSight c.name) n (c :: underway)))
      (gather (visit ctx n)) ⟨c, s⟩ :=
    tracks_gather (tracks_visitUntil_any n _) (leads_sameNode ctx n c) fun _ _ _ _ => trivial
  refine tracks_enter (.of_ends (hgather s) (ends_gather hstore)) (fun _ => ?_) ?_
  · refine .of_ends (.after ⟨id, hgather _⟩) ?_
    unfold Ends
    rw [leads_bind]
    exact ends_gather hstore
  · intro k _ hi' _ _
    rw [hi] at hi'
    cases hi'

/-- Under watch for an explicit registration of the class, while no class of the name is being gone
through. -/
theorem tracks_visitUntil_explicit (n : Nat) (hnone : ∀ c ∈ underway, c.name ≠ name) (v : Visit)
    (h : Held) :
    Tracks (Unimported name) (visitUntil ctx (explicitSight name) n underway v)
      (visit ctx n v) h := by
  induction n generalizing underway v h with
  | zero => exact .self fun _ => trivial
  | succ n ih =>
    refine tracks_visitUntil (fun s hs => ?_) ?_
    · unfold explicitSight at hs
      rw [Bool.and_eq_true] at hs
      exact unimported_of_isExplicit hs.1
    cases v with
    | enter =>
      obtain ⟨c, s⟩ := h
      by_cases hname : c.name = name
      · subst hname
        cases hi : c.isImported with
        | true => exact tracks_enter_imported hi
        | false => exact tracks_enter_explicit hi
      · refine tracks_enter_of_ne hname (ih fun d hd => ?_)
        rcases List.mem_cons.1 hd with rfl | hd
        · exact hname
        · exact hnone d hd
    | ascend source => exact (tracking ctx unregistered_unimported).ascend (ih hnone) source h
    | imports source names guarded =>
      exact (tracking ctx unregistered_unimported).visitImports (ih hnone) (steady_visit ctx n)
        source names guarded h trivial

theorem ends_visitUntil_implicit (n : Nat) (v : Visit) (h : Held) :
    Ends (Implicit name) (visitUntil ctx (explicitSight name) n [] v) h := by
  cases n with
  | zero => exact trivial
  | succ n =>
    unfold Ends visitUntil
    simp only [leads_bind, leads_inHand, leads_lookOut]
    refine leads_of_forall (fun _ h' => ?_) fun _ _ => trivial
    split
    next => exact trivial
    next hno => exact implicit_iff.2 (by simpa [explicitSight] using hno)

end Tracking

section Roots

variable {root : String × String} {decl : ClassDecl} (hread : ctx.reader.read? root.2 = some decl)
  (hu : decl.marks.has AnnotationType.conditional = false)

include hread hu

theorem ends_enterRoot (h : Held) :
    Ends (Unimported decl.name) (enterRootBy ctx (visit ctx (depthBound ctx)) root.1 root.2) h := by
  unfold Ends enterRootBy enterExplicit
  rw [leads_during, leads_bind, leads_ofExcept]
  refine ⟨fun d hd => ?_, fun _ _ => trivial⟩
  obtain rfl := Option.some.inj ((Reader.read_eq_ok.1 hd).symm.trans hread)
  unfold enterClass
  rw [leads_discard, leads_holding]
  cases depthBound ctx with
  | zero => exact trivial
  | succ n => exact ends_enter_explicit (c := .explicit d root.1) rfl hu

/-- A root stays an explicit registration, whatever is gone through after it. -/
theorem ends_fromRoots {roots : List (String × String)} (hr : root ∈ roots) {h : Held} :
    Ends (Unimported decl.name) (fromRoots ctx roots) h := by
  have hv (v : Visit) (h : Held) : Tracks (Unimported decl.name)
      (visitUntil ctx (explicitSight decl.name) (depthBound ctx) [] v)
      (visit ctx (depthBound ctx) v) h :=
    tracks_visitUntil_explicit _ (fun _ hc => absurd hc List.not_mem_nil) v h
  have henter (other : String × String) (rest : List (String × String)) (h : Held)
      (hk : root ∈ other :: rest ∨ Unimported decl.name h.state.classes) :
      Leads (enterRootBy ctx (visit ctx (depthBound ctx)) other.1 other.2) h
        (fun _ h' => root ∈ rest ∨ Unimported decl.name h'.state.classes) fun _ _ => True := by
    rcases hk with hm | hk
    · rcases List.mem_cons.1 hm with rfl | hm
      · exact (ends_enterRoot hread hu h).imp fun _ _ => .inr
      · exact leads_of_forall (fun _ _ => .inl hm) fun _ _ => trivial
    · exact ((tracks_enterRootBy hv unregistered_unimported _ _).keeps hk).imp fun _ _ => .inr
  unfold Ends
  rw [fromRoots_eq, fromRootsBy, leads_bind]
  refine (Leads.forM (fun rest (h' : Held) => root ∈ rest ∨ Unimported decl.name h'.state.classes)
    (.inl hr) fun other rest h' _ => henter other rest h').imp fun _ h' hk => ?_
  exact (tracks_settleBy hv unregistered_unimported).keeps (hk.resolve_left List.not_mem_nil)

end Roots

end Walk

namespace WalkState

variable {ctx : Context} {s t : WalkState} {roots : List (String × String)} {name : String}

theorem isExplicit_iff_of_parse (hs : Walk.Sound s) (h : s.parse ctx roots = (.ok (), t)) :
    t.isExplicit name = true ↔
      s.isExplicit name = true ∨ s.Sights ctx (Walk.explicitSight name) roots := by
  have hsound := (Walk.advanced_of_parse ctx s roots).1 hs
  rw [h] at hsound
  have hwatch : Walk.Tracks (Walk.Unimported name)
      (Walk.fromRootsUntil ctx (Walk.explicitSight name) roots) (Walk.fromRoots ctx roots)
      ⟨default, s⟩ :=
    Walk.tracks_fromRootsBy
      (Walk.tracks_visitUntil_explicit _ fun _ hc => absurd hc List.not_mem_nil)
      Walk.unregistered_unimported roots
  obtain ⟨hkeeps, hruns⟩ := hwatch.runWith h
  constructor
  · intro ht
    by_contra hno
    rw [not_or, Bool.not_eq_true] at hno
    obtain ⟨hbefore, hsilent⟩ := hno
    rcases hruns with hsame | ⟨hstopped, -⟩
    · -- a watched walk that has come to its end has seen to it that the class is not explicit
      have himplicit : Walk.Tracks (Walk.Implicit name)
          (Walk.fromRootsUntil ctx (Walk.explicitSight name) roots)
          (Walk.fromRootsUntil ctx (Walk.explicitSight name) roots) ⟨default, s⟩ :=
        Walk.tracks_fromRootsBy
          (fun v h' => .self fun _ => Walk.ends_visitUntil_implicit _ v h')
          Walk.unregistered_implicit roots
      have hafter := (himplicit.runWith hsame).1 (Walk.implicit_iff.2 hbefore)
      rw [Walk.implicit_iff.1 hafter] at ht
      cases ht
    · exact hsilent hstopped
  · rintro (hbefore | hsights)
    · exact Walk.isExplicit_of_unimported hsound (hkeeps (Walk.unimported_of_isExplicit hbefore))
    · rcases hruns with hsame | ⟨-, hsure⟩
      · exact absurd (congrArg Prod.fst hsame) hsights
      · exact Walk.isExplicit_of_unimported hsound hsure

theorem isExplicit_of_root (hs : Walk.Sound s) (h : s.parse ctx roots = (.ok (), t))
    {root : String × String} (hr : root ∈ roots) {decl : ClassDecl}
    (hread : ctx.reader.read? root.2 = some decl)
    (hu : decl.marks.has AnnotationType.conditional = false) : t.isExplicit decl.name = true := by
  have hsound := (Walk.advanced_of_parse ctx s roots).1 hs
  rw [h] at hsound
  have hends : Walk.Ends (Walk.Unimported decl.name) (Walk.fromRoots ctx roots) ⟨default, s⟩ :=
    Walk.ends_fromRoots hread hu hr
  have hparse := parse_of_leads (fun t => Walk.Unimported decl.name t.classes)
    (fun _ _ => True) hends
  exact Walk.isExplicit_of_unimported hsound (hparse.1 t h)

/-- An explicit registration wins over the imports of a class that are gone through after it. A walk
that succeeds leaves a class stored as an explicit registration exactly if it was one before, or if
some piece of work has left it stored as one while no import of it was being gone through. The roots
without conditions are among these classes. -/
theorem parse_explicit_iff (hs : Walk.Sound s) (h : s.parse ctx roots = (.ok (), t)) :
    (∀ name, t.isExplicit name = true ↔
      s.isExplicit name = true ∨ s.Sights ctx (Walk.explicitSight name) roots) ∧
    ∀ root ∈ roots, ∀ decl, ctx.reader.read? root.2 = some decl →
      decl.marks.has AnnotationType.conditional = false → t.isExplicit decl.name = true :=
  ⟨fun _ => isExplicit_iff_of_parse hs h,
    fun _ hr _ hread hu => isExplicit_of_root hs h hr hread hu⟩

/-- An imported class leads to a scan that finds it again. The scan finds another class as well,
which is imported after that. -/
def foundAgain : Descriptor :=
  { classes :=
      [{ name := "Root",
          marks :=
            { declared :=
                [.naming AnnotationType.configuration [],
                  .naming AnnotationType.importing ["p.Found"]] } },
        { name := "p.Found",
          marks :=
            { declared :=
                [.naming AnnotationType.configuration [],
                  .naming AnnotationType.importing ["Finder"]] } },
        { name := "p.Kept", marks := { declared := [.naming AnnotationType.configuration []] } },
        { name := "Finder",
          marks :=
            { declared :=
                [.naming AnnotationType.componentScan ["p"],
                  .naming AnnotationType.importing ["p.Kept"]] } }] }

/-- The walk has stored the class as an explicit registration, and leaves it stored as an imported
one. -/
theorem parse_explicit_lost : ∃ ctx w t,
    Context.ofDescriptor foundAgain "." { workingDirectory := [], files := [] } Table.empty =
      .ok (ctx, w) ∧
    ({ world := w } : WalkState).parse ctx [("root", "Root")] = (.ok (), t) ∧
    ({ world := w } : WalkState).Sights ctx (fun _ s => s.isExplicit "p.Found")
      [("root", "Root")] ∧
    t.isExplicit "p.Found" = false := by
  have h : Context.ofDescriptor foundAgain "." { workingDirectory := [], files := [] } Table.empty =
    .ok (_, _) := rfl
  refine ⟨_, _, _, h, Prod.ext ?_ rfl, ?_, ?_⟩
  · decide +kernel
  · unfold Sights
    decide +kernel
  · decide +kernel

theorem parse_explicit_iff_foundAgain : ∃ ctx w t,
    Context.ofDescriptor foundAgain "." { workingDirectory := [], files := [] } Table.empty =
      .ok (ctx, w) ∧
    Walk.Sound { world := w } ∧
    ({ world := w } : WalkState).parse ctx [("root", "Root")] = (.ok (), t) ∧
    ({ world := w } : WalkState).Sights ctx (Walk.explicitSight "p.Kept") [("root", "Root")] ∧
    t.isExplicit "p.Kept" = true := by
  have h : Context.ofDescriptor foundAgain "." { workingDirectory := [], files := [] } Table.empty =
    .ok (_, _) := rfl
  refine ⟨_, _, _, h, Walk.sound_new _, Prod.ext ?ends rfl, ?sights,
    ((parse_explicit_iff (Walk.sound_new _) (Prod.ext ?ends rfl)).1 _).2 (.inr ?sights)⟩
  case ends => decide +kernel
  case sights =>
    unfold Sights
    decide +kernel

end WalkState

end Wiring
