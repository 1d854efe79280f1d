import Wiring.Proofs.Declared
import Wiring.Proofs.Walk.Roots
import Wiring.Proofs.Walk.Stored

/-!
# The classes that deferred imports wait for

A deferred import waits for the class that was in hand when it was met. That class is stored as soon
as it is no longer being gone through, and classes that are stored stay so, even if a scan takes one
out to go through it again. So once the roots have been entered everything that waits is for a
stored class, and it is never found missing afterwards.
-/

namespace Wiring

namespace DeferredQueue

variable {q : DeferredQueue} {d e : DeferredImport}

/-- The selections that wait. -/
def waiting (q : DeferredQueue) : List DeferredImport := q.pending?.getD []

theorem mem_waiting_handle (h : e ∈ (q.handle d).2.waiting) : e ∈ q.waiting ∨ e = d := by
  unfold handle at h
  cases hp : q.pending? with
  | none =>
    rw [hp] at h
    exact .inl h
  | some pending =>
    rw [hp] at h
    rcases List.mem_append.1 h with h | h
    · refine .inl ?_
      unfold waiting
      rw [hp]
      exact h
    · exact .inr (List.mem_singleton.1 h)

theorem mem_begin : e ∈ q.begin.1 ↔ e ∈ q.waiting := Precedence.mem_sort

end DeferredQueue

namespace Walk

variable {ctx : Context}

/-! ## What work makes of those that wait -/

/-- What is stored stays so. What waits waited before, or it is for a stored class or for one of
those that are busy. -/
structure Attended (busy : List String) (s t : WalkState) : Prop where
  stored : s.storedNames ⊆ t.storedNames
  waits {d} : d ∈ t.deferred.waiting → d ∈ s.deferred.waiting ∨
    d.importing.name ∈ t.storedNames ∨ d.importing.name ∈ busy

namespace Attended

variable {busy : List String} {s t u : WalkState}

theorem alike (hs : t.storedNames = s.storedNames) (hd : t.deferred = s.deferred) :
    Attended busy s t := by
  constructor
  · rw [hs]
    exact List.Subset.refl _
  · intro d hwaits
    rw [hd] at hwaits
    exact .inl hwaits

theorem refl (s : WalkState) : Attended busy s s := alike rfl rfl

theorem trans (h : Attended busy s t) (h' : Attended busy t u) : Attended busy s u := by
  refine ⟨List.Subset.trans h.stored h'.stored, ?_⟩
  intro d hd
  rcases h'.waits hd with hd | hd
  · rcases h.waits hd with hd | hd | hd
    · exact .inl hd
    · exact .inr (.inl (h'.stored hd))
    · exact .inr (.inr hd)
  · exact .inr hd

theorem weaken (h : Attended [] s t) : Attended busy s t := by
  refine ⟨h.stored, ?_⟩
  intro d hd
  rcases h.waits hd with hd | hd | hd
  · exact .inl hd
  · exact .inr (.inl hd)
  · exact absurd hd List.not_mem_nil

theorem handle (s : WalkState) {d : DeferredImport} (hd : d.importing.name ∈ busy) :
    Attended busy s { s with deferred := (s.deferred.handle d).2 } := by
  refine ⟨List.Subset.refl _, ?_⟩
  intro e he
  rcases DeferredQueue.mem_waiting_handle he with he | rfl
  · exact .inl he
  · exact .inr (.inr hd)

theorem store {c : ConfigurationClass}
    (hs : ∀ name ∈ s.storedNames, name ∈ t.storedNames ∨ name = c.name)
    (hd : t.deferred = s.deferred) (h : Attended [c.name] t u) : Attended [] s (u.store c) := by
  constructor
  · intro name hn
    rw [WalkState.mem_storedNames_store]
    exact (hs name hn).imp_left fun hn => h.stored hn
  · intro d hwaits
    rw [WalkState.mem_storedNames_store]
    rcases h.waits hwaits with hd' | hd' | hd'
    · rw [hd] at hd'
      exact .inl hd'
    · exact .inr (.inl (.inl hd'))
    · exact .inr (.inl (.inr (List.mem_singleton.1 hd')))

end Attended

/-- How far work has come that began with a class in hand. -/
structure Attending (g h : Held) : Prop where
  same : h.inHand.decl = g.inHand.decl
  attended : Attended [g.inHand.name] g.state h.state

namespace Attending

variable {g h h' : Held}

theorem refl (g : Held) : Attending g g := ⟨rfl, .refl _⟩

theorem trans (hg : Attending g h) (hh : Attending h h') : Attending g h' := by
  have hname : h.inHand.name = g.inHand.name := congrArg ClassDecl.name hg.same
  refine ⟨hh.same.trans hg.same, hg.attended.trans ?_⟩
  rw [← hname]
  exact hh.attended

theorem alike (hg : Attending g h) (hi : h'.inHand.decl = h.inHand.decl)
    (hs : h'.state.storedNames = h.state.storedNames) (hd : h'.state.deferred = h.state.deferred) :
    Attending g h' :=
  hg.trans ⟨hi, .alike hs hd⟩

end Attending

/-! ## Every piece of work -/

theorem isUnparsed_of_refused (hc : ctx.Declared) {e : Error} (h : Refused ctx e) :
    e.rootCause.isUnparsed = false := by
  have hown := h.isOwn hc
  rw [Error.rootCause_of_isDirect (Error.isDirect_of_isOwn hown)]
  exact Error.isUnparsed_of_isOwn hown

/-- What is to hold of work that began with a class in hand: it never fails because a class is
missing. -/
def attending (hc : ctx.Declared) (g : Held) : Invariant ctx where
  Holds := Attending g
  Fails e _ := e.rootCause.isUnparsed = false
  refused _ hr := isUnparsed_of_refused hc hr
  during name he := by
    rw [Error.rootCause_during]
    exact he

/-- A handler of pieces of work attends to what waits, and never misses a class. -/
structure Attends (visit : Visit → Walk Unit) : Prop where
  enter (c : ConfigurationClass) (s : WalkState) : Leads (visit .enter) ⟨c, s⟩
    (fun _ h' => Attended [] s h'.state) fun e _ => e.rootCause.isUnparsed = false
  ascend (source : ClassDecl) (h : Held) : Leads (visit (.ascend source)) h
    (fun _ => Attending h) fun e _ => e.rootCause.isUnparsed = false
  imports (source : ClassDecl) (names : List String) (guarded : Bool) (h : Held) :
    Leads (visit (.imports source names guarded)) h
      (fun _ => Attending h) fun e _ => e.rootCause.isUnparsed = false

section Steps

variable {visit : Visit → Walk Unit} (hc : ctx.Declared) (hv : Attends visit) {source : ClassDecl}
  {g h : Held}

theorem holding_enter_attending (hv : Attends visit) (hg : Attending g h) (c : ConfigurationClass)
    {t : WalkState} {back : WalkState → WalkState}
    (ht : t.storedNames = h.state.storedNames ∧ t.deferred = h.state.deferred)
    (hback : ∀ u, (back u).storedNames = u.storedNames ∧ (back u).deferred = u.deferred) :
    (attending hc g).Holding visit h .enter c t (Attending g) back := by
  refine (hv.enter c t).mono ?_ fun _ _ he => he
  intro _ h' hk
  obtain ⟨hs, hd⟩ := hback h'.state
  have hbegun : Attended [h.inHand.name] h.state t := .alike ht.1 ht.2
  exact hg.trans ⟨rfl, (hbegun.trans hk.weaken).trans (.alike hs hd)⟩

theorem leads_imports_attending (hv : Attends visit) (hg : Attending g h) (source : ClassDecl)
    (names : List String) (guarded : Bool) : Leads (visit (.imports source names guarded)) h
      (fun _ => (attending hc g).Holds) (attending hc g).Fails :=
  (hv.imports source names guarded h).mono (fun _ _ hk => hg.trans hk) fun _ _ he => he

include hv

theorem byMembers_attending : (attending hc g).ByMembers visit source where
  reported hg _ := hg.alike rfl rfl rfl
  member hg _ _ := holding_enter_attending hc hv hg _ ⟨rfl, rfl⟩ fun _ => ⟨rfl, rfl⟩

theorem byScans_attending : (attending hc g).ByScans visit source fun _ _ => Attending g where
  begun hg _ _ := hg.alike rfl rfl rfl
  unregistered _ hr := isUnparsed_of_refused hc (.definition (by rw [hr]))
  passed hg _ _ := hg.alike rfl rfl rfl
  unreadable _ _ _ _ he := isUnparsed_of_refused hc (.unreadable he)
  found _ hg _ _ _ := holding_enter_attending hc hv hg _ ⟨rfl, rfl⟩ fun _ => ⟨rfl, rfl⟩
  done _ hg := hg

/-- The class that deferred imports are gone through for is stored, so what they lead to waits for a
stored class. -/
theorem byDeferred_attending : (attending hc g).ByDeferred visit where
  stored {h k source' names'} hg hk := by
    refine (hv.imports source' names' false ⟨k, h.state⟩).mono ?_ fun _ _ he => he
    intro _ h' hh
    refine hg.trans ⟨rfl, hh.attended.stored, ?_⟩
    intro d hd
    rcases hh.attended.waits hd with hd | hd | hd
    · exact .inl hd
    · exact .inr (.inl hd)
    · refine .inr (.inl (hh.attended.stored ?_))
      rw [List.mem_singleton.1 hd, (WalkState.mem_of_stored? hk).2]
      exact WalkState.mem_storedNames_of_stored? hk
  registrars name added hg := hg.alike rfl (WalkState.storedNames_update fun _ => rfl) rfl

theorem byImports_attending (names : List String) :
    (attending hc g).ByImports visit source names where
  toByDeferred := byDeferred_attending hc hv
  entered hg _ _ := holding_enter_attending hc hv hg _ ⟨rfl, rfl⟩ fun _ => ⟨rfl, rfl⟩
  more source' names' hg := leads_imports_attending hc hv hg source' names' false
  waits {h} d hg hd := by
    refine hg.trans ⟨rfl, .handle h.state ?_⟩
    rw [hd]
    exact List.mem_singleton.2 rfl
  same hg hg' := hg'.same.trans hg.same.symm
  registrar _ hg := hg.alike rfl rfl rfl

include hc

theorem leads_ascend_attending (source : ClassDecl) (g : Held) :
    Leads (ascend ctx visit source) g (fun _ => Attending g)
      fun e _ => e.rootCause.isUnparsed = false := by
  have hby : (attending hc g).ByAscend visit source fun _ _ => Attending g :=
    { toByMembers := byMembers_attending hc hv
      toByScans := byScans_attending hc hv
      sources := fun hg _ _ => hg.alike rfl rfl rfl
      imports := fun hg => leads_imports_attending hc hv hg _ _ true
      located := fun _ hg => hg.alike rfl rfl rfl }
  refine Invariant.leads_ascend (Attending g) (Attending g) hby (.refl g) ?_ ?_ ?_ ?_
  · intro h above hg _
    exact hg.alike rfl rfl rfl
  · intro h hg _
    exact hg
  · intro h name e _ _ he
    exact isUnparsed_of_refused hc (.unreadable he)
  · intro h name above hg _ _
    refine (hv.ascend above _).mono ?_ fun _ _ he => he
    intro _ h' hh
    have hnoted : Attending g ⟨h.inHand, h.state.noteSuperclass name h.inHand.name⟩ :=
      hg.alike rfl rfl rfl
    exact hnoted.trans hh

theorem leads_visitImports_attending (source : ClassDecl) (names : List String) (guarded : Bool)
    (g : Held) : Leads (visitImports ctx visit source names guarded) g (fun _ => Attending g)
      fun e _ => e.rootCause.isUnparsed = false := by
  have hg := Attending.refl g
  refine Invariant.leads_visitImports (I := attending hc g) hg (fun _ => hg.alike rfl rfl rfl)
    rfl ?_
  intro _
  refine ⟨hg.alike rfl rfl rfl, byImports_attending hc hv names, ?_, ?_⟩
  · intro h' hh
    exact hh.alike rfl rfl rfl
  · intro e h' he
    exact (attending hc g).during (h := h') _ he

theorem leads_enter_attending (c : ConfigurationClass) (s : WalkState) :
    Leads (enter ctx visit) ⟨c, s⟩ (fun _ h' => Attended [] s h'.state)
      fun e _ => e.rootCause.isUnparsed = false := by
  refine Invariant.leads_enter ?_ ?_ ?_ ?_ ?_
  · intro e he
    exact isUnparsed_of_refused hc (.condition he)
  · intro _
    exact .refl s
  · intro k _ _ _
    exact .alike (WalkState.storedNames_mergeImporters _ _ _) rfl
  · intro k _ _ _
    exact .refl s
  · intro s' hs'
    refine (hv.ascend c.decl ⟨c, s'⟩).mono ?_ fun _ _ he => he
    intro _ h' hh
    have hname : h'.inHand.name = c.name := congrArg ClassDecl.name hh.same
    have hattended := hh.attended
    rw [← show h'.inHand.name = (⟨c, s'⟩ : Held).inHand.name from hname] at hattended
    rcases hs' with ⟨-, rfl⟩ | ⟨-, -, rfl⟩
    · exact Attended.store (fun name hn => .inl hn) rfl hattended
    · refine Attended.store (t := s.discard c.name) ?_ rfl hattended
      intro name hn
      by_cases he : name = c.name
      · exact .inr (he.trans hname.symm)
      · exact .inl (WalkState.mem_storedNames_discard hn he)

end Steps

/-- All pieces of work of a walk attend to what waits. -/
theorem attends_visit (hc : ctx.Declared) : ∀ n, Attends (visit ctx n)
  | 0 => ⟨fun _ _ => rfl, fun _ _ => rfl, fun _ _ _ _ => rfl⟩
  | n + 1 =>
    have ih := attends_visit hc n
    ⟨leads_enter_attending hc ih, leads_ascend_attending hc ih, leads_visitImports_attending hc ih⟩

/-! ## Whole walks -/

section Roots

variable (hc : ctx.Declared)

include hc

theorem leads_enterRootsBy_attended (roots : List (String × String)) (h : Held) :
    Leads (enterRootsBy ctx (visit ctx (depthBound ctx)) roots) h
      (fun _ h' => Attended [] h.state h'.state) fun e _ => e.rootCause.isUnparsed = false := by
  refine Leads.forM (fun _ (h' : Held) => Attended [] h.state h'.state) (.refl _) ?_
  intro root _ h' _ hk
  unfold enterRootBy enterExplicit
  rw [leads_during, leads_bind, leads_ofExcept]
  constructor
  · intro decl _
    rw [Invariant.leads_enterClass]
    refine ((attends_visit hc _).enter _ _).mono (fun _ _ ht => hk.trans ht) ?_
    intro e _ he
    rw [Error.rootCause_during]
    exact he
  · intro e he
    rw [Error.rootCause_during]
    exact isUnparsed_of_refused hc (.unreadable he)

theorem leads_settlementBy_attended {h : Held}
    (hs : ∀ d ∈ h.state.deferred.begin.1, d.importing.name ∈ h.state.storedNames) :
    Leads (settlementBy ctx (visit ctx (depthBound ctx))) h
      (fun _ h' => h.state.storedNames ⊆ h'.state.storedNames)
      fun e _ => e.rootCause.isUnparsed = false := by
  have hg := Attending.refl ⟨h.inHand, { h.state with deferred := ⟨none⟩ }⟩
  have hby := byDeferred_attending hc (attends_visit hc (depthBound ctx))
    (g := ⟨h.inHand, { h.state with deferred := ⟨none⟩ }⟩)
  rw [leads_settlementBy]
  refine (Invariant.leads_visitDeferred hby false _ nofun ?_ hg).mono
    (fun _ _ hk => hk.attended.stored) fun _ _ he => he
  intro d hd h' hk _ hmissing
  exact absurd (hk.attended.stored (hs d hd)) (WalkState.stored?_eq_none_iff.1 hmissing)

end Roots

/-- A state that a sequence of walks comes to that all succeed. Between two of them everything may
change but the deferred imports. -/
inductive Succeeded (ctx : Context) : WalkState → Prop
  | new (world : World) : Succeeded ctx { world }
  | parse {s : WalkState} {roots : List (String × String)} (h : Succeeded ctx s)
    (hp : (s.parse ctx roots).1 = .ok ()) : Succeeded ctx (s.parse ctx roots).2
  | between {s t : WalkState} (h : Succeeded ctx s) (hd : t.deferred = s.deferred) : Succeeded ctx t

theorem waiting_of_succeeded {s : WalkState} (h : Succeeded ctx s) : s.deferred.waiting = [] := by
  induction h with
  | new world => rfl
  | @parse s roots _ hp _ =>
    rcases hs : s.parse ctx roots with ⟨outcome, t⟩
    rcases parse_eq_iff.1 hs with ⟨e, u, -, rfl, -⟩ | ⟨u, v, -, -, rfl⟩
    · rw [hs] at hp
      cases hp
    · rfl
  | between _ hd ih =>
    rw [hd]
    exact ih

/-- In the context of a descriptor, and after walks that all succeed, no walk fails because a class
is missing that imports are to be gone through for. Once the roots have been entered, each class
that a deferred import waits for is stored, and stays so while they are settled. -/
theorem parse_never_unparsed {d : Descriptor} {directory : String} {files : FileTree}
    {exported : Table String} {w : World}
    (h : Context.ofDescriptor d directory files exported = .ok (ctx, w)) {s : WalkState}
    (hs : Succeeded ctx s) (roots : List (String × String)) :
    (∀ className, Error.rootCauseOf? (s.parse ctx roots).1 ≠ some (.invalidConfiguration className
      "import group returned an entry for a class that was not parsed")) ∧
    ∀ u, (enterRootsBy ctx (visit ctx (depthBound ctx)) roots).run.run ⟨default, s⟩ = (.ok (), u) →
      (∀ d ∈ u.state.deferred.begin.1, d.importing.name ∈ u.state.storedNames) ∧
      ∀ v, (settlementBy ctx (visit ctx (depthBound ctx))).run.run u = (.ok (), v) →
        u.state.storedNames ⊆ v.state.storedNames := by
  have hc := Context.declared_of_ofDescriptor h
  have hroots := leads_enterRootsBy_attended hc roots ⟨default, s⟩
  unfold Leads at hroots
  -- nothing waits at the beginning, so that what waits after the roots is for stored classes
  have hstored {u : Held} (hu : Attended [] s u.state) :
      ∀ d ∈ u.state.deferred.begin.1, d.importing.name ∈ u.state.storedNames := by
    intro d hd
    rcases hu.waits (DeferredQueue.mem_begin.1 hd) with hd | hd | hd
    · rw [waiting_of_succeeded hs] at hd
      exact absurd hd List.not_mem_nil
    · exact hd
    · exact absurd hd List.not_mem_nil
  have hsettle {u : Held} (hu : Attended [] s u.state) :=
    leads_settlementBy_attended hc (hstored hu)
  constructor
  · intro className
    rcases hp : s.parse ctx roots with ⟨outcome, t⟩
    have hnever {e : Error} (he : e.rootCause.isUnparsed = false) : some e.rootCause ≠
        some (.invalidConfiguration className Error.unparsedText) := by
      intro heq
      rw [Option.some.inj heq] at he
      exact absurd (beq_self_eq_true Error.unparsedText) (Bool.eq_false_iff.1 he)
    cases outcome with
    | ok _ => nofun
    | error e =>
      rcases parse_eq_iff.1 hp with ⟨_, u, hrun, ⟨⟩, -⟩ | ⟨u, v, hrun, hsettled, -⟩
      · rw [hrun] at hroots
        exact hnever hroots
      · rw [hrun] at hroots
        have hend := hsettle hroots
        unfold Leads at hend
        rw [hsettled] at hend
        exact hnever hend
  · intro u hrun
    rw [hrun] at hroots
    refine ⟨hstored hroots, ?_⟩
    intro v hsettled
    have hend := hsettle hroots
    unfold Leads at hend
    rw [hsettled] at hend
    exact hend

/-- A class whose deferred import leads to one that finds classes and has another deferred import.
-/
def handovers : Descriptor :=
  { classes :=
      [{ name := "App", marks := { declared := [.naming AnnotationType.importing ["Late"]] } },
        { name := "Next",
          marks :=
            { declared :=
                [.naming AnnotationType.componentScan ["p"],
                  .naming AnnotationType.importing ["p.Found", "Later"]] } },
        { name := "p.Found",
          marks :=
            { declared :=
                [.naming AnnotationType.configuration [],
                  .naming AnnotationType.importing ["Later"]] } },
        { name := "Log" }]
    plugins :=
      [.deferredSelector "Late" ["p.Found", "Next"] (some "Turned") none false,
        .deferredSelector "Later" ["Log"] none none false,
        .group "Turned" .declared] }

/-- A walk after another one. While the deferred import of its root is settled, another one is met
for two classes, of which one is stored already and is gone through again when it is found. -/
theorem parse_never_unparsed_handovers : ∃ ctx w s,
    Context.ofDescriptor handovers "." { workingDirectory := [], files := [] } Table.empty =
      .ok (ctx, w) ∧
    s = (({ world := w } : WalkState).parse ctx [("log", "Log")]).2 ∧
    Succeeded ctx s ∧
    (s.parse ctx [("app", "App")]).1 = .ok () ∧
    (s.parse ctx [("app", "App")]).2.storedNames = ["Log", "App", "p.Found", "Next"] ∧
    (∀ className, Error.rootCauseOf? (s.parse ctx [("app", "App")]).1 ≠
      some (.invalidConfiguration className
        "import group returned an entry for a class that was not parsed")) ∧
    ∀ u, (enterRootsBy ctx (visit ctx (depthBound ctx)) [("app", "App")]).run.run ⟨default, s⟩ =
        (.ok (), u) →
      (∀ d ∈ u.state.deferred.begin.1, d.importing.name ∈ u.state.storedNames) ∧
      ∀ v, (settlementBy ctx (visit ctx (depthBound ctx))).run.run u = (.ok (), v) →
        u.state.storedNames ⊆ v.state.storedNames := by
  have h : Context.ofDescriptor handovers "." { workingDirectory := [], files := [] } Table.empty =
    .ok (_, _) := rfl
  refine ⟨_, _, _, h, rfl, .parse (.new _) ?first, ?_, ?_,
    parse_never_unparsed h (.parse (.new _) ?first) [("app", "App")]⟩
  case first => decide +kernel
  · decide +kernel
  · decide +kernel

end Walk

end Wiring
