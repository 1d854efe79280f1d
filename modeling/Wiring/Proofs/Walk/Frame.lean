import Wiring.Proofs.Declared
import Wiring.Proofs.Walk.Watch

/-!
# What a walk leaves alone

Only entering classes and going on to superclasses change which classes are stored and which
superclasses have been gone through; all other work leaves them alone, up to the registrars of
stored classes. So a relation between states that has to do with nothing else is one of all other
work as soon as it is one of entering. A `Frame` is such a relation.
-/

namespace Wiring

/-- The same class, with the same bean methods. -/
def ConfigurationClass.SameWork (c d : ConfigurationClass) : Prop :=
  d.decl = c.decl ∧ d.beanMethods = c.beanMethods

namespace ConfigurationClass.SameWork

variable {b c d : ConfigurationClass}

@[refl] theorem refl (c : ConfigurationClass) : SameWork c c := ⟨rfl, rfl⟩

theorem trans (h : SameWork b c) (h' : SameWork c d) : SameWork b d :=
  ⟨h'.1.trans h.1, h'.2.trans h.2⟩

end ConfigurationClass.SameWork

open ConfigurationClass (SameWork)

namespace Walk

/-- What entering classes makes of a state, where that is a matter of the stored classes, up to
their registrars, and of the superclasses gone through. -/
structure Frame where
  /-- What is asked of a state. -/
  Ready : WalkState → Prop
  /-- What has been made of it. -/
  Kept : WalkState → WalkState → Prop
  trans {s t u} : Kept s t → Kept t u → Kept s u
  ready {s t} : Kept s t → Ready s → Ready t
  alike {s t} : t.classes = s.classes → t.superclasses = s.superclasses → Kept s t
  registrars (s : WalkState) (name : String) (added : List RegistrarBinding) :
    Kept s (s.update name fun d => { d with registrars := d.registrars ++ added })

namespace Frame

variable {ctx : Context} (F : Frame)

/-- How far work has come that began with a class in hand. -/
def Going (g h : Held) : Prop := F.Kept g.state h.state ∧ SameWork g.inHand h.inHand

/-- What a frame makes of a step that began with a class in hand. -/
def invariant (ctx : Context) (g : Held) : Invariant ctx where
  Holds := F.Going g
  Fails _ _ := True
  refused _ _ := trivial
  during _ _ := trivial

/-- A handler of pieces of work keeps to the frame, apart from going through a class. -/
structure Keeps (ctx : Context) (visit : Visit → Walk Unit) : Prop where
  enter {c s} : ctx.reader.read? c.name = some c.decl → c.beanMethods = [] → F.Ready s →
    Leads (visit .enter) ⟨c, s⟩ (fun _ h' => F.Kept s h'.state) fun _ _ => True
  imports {h} (source : ClassDecl) (names : List String) (guarded : Bool) : F.Ready h.state →
    Leads (visit (.imports source names guarded)) h (fun _ => F.Going h) fun _ _ => True

variable {F} {visit : Visit → Walk Unit} {source : ClassDecl} {g h : Held}

theorem Going.refl (g : Held) : F.Going g g := ⟨F.alike rfl rfl, .refl _⟩

theorem Going.step (hg : F.Going g h) {h' : Held} (hk : F.Kept h.state h'.state)
    (hw : SameWork h.inHand h'.inHand) : F.Going g h' :=
  ⟨F.trans hg.1 hk, hg.2.trans hw⟩

theorem Going.alike (hg : F.Going g h) {h' : Held} (hc : h'.state.classes = h.state.classes)
    (hs : h'.state.superclasses = h.state.superclasses) (hw : SameWork h.inHand h'.inHand) :
    F.Going g h' :=
  hg.step (F.alike hc hs) hw

theorem Going.ready (hg : F.Going g h) (hr : F.Ready g.state) : F.Ready h.state := F.ready hg.1 hr

theorem holding_enter (hv : F.Keeps ctx visit) (hr : F.Ready g.state) (hg : F.Going g h)
    {c : ConfigurationClass} {t : WalkState} {back : WalkState → WalkState}
    (hc : ctx.reader.read? c.name = some c.decl) (hnew : c.beanMethods = [])
    (hclasses : t.classes = h.state.classes)
    (hsuper : t.superclasses = h.state.superclasses)
    (hback : ∀ u, (back u).classes = u.classes ∧ (back u).superclasses = u.superclasses) :
    (F.invariant ctx g).Holding visit h .enter c t (F.Going g) back := by
  have ht : F.Kept h.state t := F.alike hclasses hsuper
  refine (hv.enter hc hnew (F.ready ht (hg.ready hr))).mono (fun _ h' hk => ?_) fun _ _ _ => trivial
  obtain ⟨hclasses', hsuper'⟩ := hback h'.state
  exact hg.step (F.trans (F.trans ht hk) (F.alike hclasses' hsuper')) (.refl _)

section Steps

variable (hc : ctx.reader.catalogue.WellNamed) (hv : F.Keeps ctx visit) (hr : F.Ready g.state)

include hc hv hr

theorem byMembers : (F.invariant ctx g).ByMembers visit source where
  reported hg _ := hg.alike rfl rfl (.refl _)
  member {h m} hg hm _ := by
    obtain ⟨name, hread⟩ := read?_of_mem_members hm
    exact holding_enter hv hr hg (Reader.read?_self hc hread) rfl rfl rfl fun _ => ⟨rfl, rfl⟩

theorem byScans : (F.invariant ctx g).ByScans visit source fun _ _ => F.Going g where
  begun hg _ _ := hg.alike rfl rfl (.refl _)
  unregistered _ _ := trivial
  passed hg _ _ := hg.alike rfl rfl (.refl _)
  unreadable _ _ _ _ _ := trivial
  found _ hg _ _ hread :=
    holding_enter hv hr hg (Reader.read?_self hc (Reader.read_eq_ok.1 hread)) rfl rfl rfl
      fun _ => ⟨rfl, rfl⟩
  done _ hg := hg

omit hc in
theorem byDeferred : (F.invariant ctx g).ByDeferred visit where
  stored {h k source' names'} hg _ :=
    (hv.imports (h := ⟨k, h.state⟩) source' names' false (hg.ready hr)).mono
      (fun _ _ hk => hg.step hk.1 (.refl h.inHand)) fun _ _ _ => trivial
  registrars name added hg := hg.step (F.registrars _ name added) (.refl _)

omit hc in
theorem leads_imports (hg : F.Going g h) (source : ClassDecl) (names : List String)
    (guarded : Bool) : Leads (visit (.imports source names guarded)) h
      (fun _ => (F.invariant ctx g).Holds) (F.invariant ctx g).Fails :=
  (hv.imports source names guarded (hg.ready hr)).mono (fun _ _ hk => hg.step hk.1 hk.2)
    fun _ _ _ => trivial

theorem byImports (names : List String) : (F.invariant ctx g).ByImports visit source names where
  toByDeferred := byDeferred hv hr
  entered hg _ hread :=
    holding_enter hv hr hg (Reader.read?_self hc (Reader.read_eq_ok.1 hread)) rfl rfl rfl
      fun _ => ⟨rfl, rfl⟩
  more source' names' hg := leads_imports hv hr hg source' names' false
  waits _ hg _ := hg.alike rfl rfl (.refl _)
  same hg hg' := hg'.2.1.trans hg.2.1.symm
  registrar _ hg := hg.alike rfl rfl ⟨rfl, rfl⟩

theorem byAscend : (F.invariant ctx g).ByAscend visit source fun _ _ => F.Going g where
  toByMembers := byMembers hc hv hr
  toByScans := byScans hc hv hr
  sources hg _ _ := hg.alike rfl rfl (.refl _)
  imports hg := leads_imports hv hr hg _ _ true
  located _ hg := hg.alike rfl rfl ⟨rfl, rfl⟩

theorem leads_visitImports (names : List String) (guarded : Bool) :
    Leads (visitImports ctx visit source names guarded) g (fun _ => F.Going g) fun _ _ => True := by
  refine Invariant.leads_visitImports (I := F.invariant ctx g) (.refl g)
    (fun _ => (Going.refl g).alike rfl rfl (.refl _)) trivial fun _ => ?_
  exact ⟨(Going.refl g).alike rfl rfl (.refl _), byImports hc hv hr names,
    fun h' hg => hg.alike rfl rfl (.refl _), fun _ _ _ => trivial⟩

end Steps

/-! ## Whole walks -/

/-- A whole walk by a handler of pieces of work that keeps to the frame. -/
theorem leads_fromRootsBy (hc : ctx.reader.catalogue.WellNamed) (hv : F.Keeps ctx visit)
    (roots : List (String × String)) (hr : F.Ready g.state) :
    Leads (fromRootsBy ctx visit roots) g
      (fun _ h' => F.Kept g.state h'.state) fun _ _ => True := by
  have henter (root : String × String) (h : Held) (hg : F.Going g h) :
      Leads (enterRootBy ctx visit root.1 root.2) h (fun _ => F.Going g) fun _ _ => True := by
    unfold enterRootBy enterExplicit
    rw [leads_during, leads_bind, leads_ofExcept]
    refine ⟨fun decl hd => Invariant.leads_enterClass.2 ?_, fun _ _ => trivial⟩
    have hheld : (F.invariant ctx g).Holding visit h .enter (.explicit decl root.1) h.state
        (F.Going g) id :=
      holding_enter hv hr hg (Reader.read?_self hc (Reader.read_eq_ok.1 hd)) rfl rfl rfl
        fun _ => ⟨rfl, rfl⟩
    exact hheld
  unfold fromRootsBy
  rw [leads_bind]
  refine (Leads.forM (fun _ => F.Going g) (.refl g) fun root _ h _ hg => henter root h hg).mono
    (fun _ h hg => ?_) fun _ _ _ => trivial
  have hbegun : F.Going g ⟨h.inHand, { h.state with deferred := ⟨none⟩ }⟩ :=
    hg.alike rfl rfl (.refl _)
  have hdeferred := Invariant.leads_visitDeferred (byDeferred hv hr) false h.state.deferred.begin.1
    nofun (fun _ _ _ _ _ _ => trivial) hbegun
  rw [leads_settleBy, leads_settlementBy]
  refine hdeferred.mono (fun _ h' hg => ?_) fun _ _ _ => trivial
  have hfinished : F.Going g ⟨h'.inHand, { h'.state with deferred := .finish }⟩ :=
    hg.alike rfl rfl (.refl _)
  exact hfinished.1

/-- A walk by a handler that keeps to the frame, run from a state. -/
theorem kept_of_runWith (hc : ctx.reader.catalogue.WellNamed) (hv : F.Keeps ctx visit)
    {roots : List (String × String)} {s t : WalkState} (hr : F.Ready s)
    (h : runWith s (fromRootsBy ctx visit roots) = (.ok (), t)) : F.Kept s t := by
  have hl := leads_fromRootsBy (g := ⟨default, s⟩) hc hv roots hr
  unfold Leads at hl
  unfold runWith at h
  rcases hrun : (fromRootsBy ctx visit roots).run.run ⟨default, s⟩ with ⟨_ | _, h'⟩
  · rw [hrun] at h
    cases h
  · rw [hrun] at h hl
    cases h
    exact hl

end Frame

end Walk

end Wiring
