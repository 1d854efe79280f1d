import Wiring.Proofs.Candidate
import Wiring.Proofs.Imports
import Wiring.Proofs.Walk.Roots
import Wiring.Proofs.Walk.Stored

/-!
# Walks through imports alone

Where classes carry no directive but imports, entering one comes down to going through its imports,
one after the other, and storing it. An `ImportContract` says what holds before and after a class is
entered and between two of its imports; `ImportContract.Lawful.leads_enter` is the induction on how
deep this nests.
-/

namespace Wiring

namespace ConfigurationClass

/-- The class with its bean methods, as it is stored if it only imports. -/
def gathered (ctx : Context) (c : ConfigurationClass) : ConfigurationClass :=
  { c with beanMethods := c.beanMethods ++ Walk.beanMethods ctx.reader c.decl }

end ConfigurationClass

namespace Walk

variable {ctx : Context}

/-! ## Classes that only import -/

section Plain

variable {n : Nat} {visit : Visit → Walk Unit} {h : Held} {c : ClassDecl}
  {done : Unit → Held → Prop} {failed : Error → Held → Prop}

theorem ofType_eq_nil {m : Marks} {type : String} (h : m.has type = false) :
    m.ofType type = [] := by
  unfold Marks.has at h
  rw [List.any_eq_false] at h
  exact List.filter_eq_nil_iff.2 h

theorem first?_eq_none {m : Marks} {type : String} (h : m.has type = false) :
    m.first? type = none := by
  unfold Marks.has at h
  rw [List.any_eq_false] at h
  exact List.find?_eq_none.2 h

theorem members_plain (hc : c.OnlyImports) (owner : String) :
    members ctx.reader owner c = [] := by
  refine List.eq_nil_iff_forall_not_mem.2 fun m hm => ?_
  unfold members at hm
  rw [hc.members] at hm
  exact absurd (Precedence.mem_sort.1 hm) List.not_mem_nil

theorem methodsOfInterfaces_plain (hc : c.OnlyImports) :
    methodsOfInterfaces ctx.reader c = .ok [] := by
  unfold methodsOfInterfaces
  rw [hc.interfaces]
  unfold interfaceMethods
  rfl

theorem nextSuperclass?_plain (hc : c.OnlyImports) (s : WalkState) :
    nextSuperclass? ctx s c = none := by
  unfold nextSuperclass?
  rw [hc.superclass]
  rfl

/-- What a class that only imports declares is gathered by going through its imports. -/
theorem leads_ascend_plain (hc : c.OnlyImports)
    (hl : Leads (visit (.imports c (collectImports ctx.reader c) true)) h
      (fun _ h' => done ()
        { h' with
          inHand :=
            { h'.inHand with
              beanMethods := h'.inHand.beanMethods ++ beanMethods ctx.reader c } }) failed) :
    Leads (ascend ctx visit c) h done failed := by
  have hmembers : Leads (visitMembers ctx visit c) h (fun _ h' => h' = h) failed := by
    unfold visitMembers
    rw [leads_bind, leads_inHand]
    simp only
    rw [members_plain hc]
    exact rfl
  unfold ascend
  rw [leads_bind, leads_inHand]
  -- what follows the members, which is gone through whether there are any or not
  extract_lets rest
  have hrest : Leads (rest ()) h done failed := by
    unfold rest visitPropertySources visitScans visitImportedResources visitBeanMethods
    rw [ofType_eq_nil hc.propertySource, ofType_eq_nil hc.componentScan,
      first?_eq_none hc.importResource, methodsOfInterfaces_plain hc]
    rw [leads_bind]
    refine Iff.mpr (leads_pure (a := ())) ?_
    rw [leads_bind]
    refine Iff.mpr (leads_pure (a := ())) ?_
    rw [leads_bind]
    refine hl.imp fun _ h' hd => ?_
    simp only [pure_bind, leads_bind, leads_modifyInHand, leads_state, ofExcept,
      nextSuperclass?_plain hc, leads_pure, List.append_nil]
    exact hd
  split
  · rw [leads_bind]
    refine hmembers.imp fun _ h' he => ?_
    rw [he]
    exact hrest
  · exact hrest

end Plain

/-! ## Contracts -/

/-- The state in which the imports of a class are begun to be gone through: that in which it was
entered, without an earlier form of the class. -/
inductive Begun (c : ConfigurationClass) (s : WalkState) : WalkState → Prop
  | new (h : s.stored? c.name = none) : Begun c s s
  | anew {k : ConfigurationClass} (h : s.stored? c.name = some k) (hc : c.isImported = false) :
    Begun c s (s.discard c.name)

namespace Begun

variable {c : ConfigurationClass} {s s₀ : WalkState} (h : Begun c s s₀)

include h

theorem imports_eq : s₀.imports = s.imports := by cases h <;> rfl

theorem diagnostics_eq : s₀.diagnostics = s.diagnostics := by cases h <;> rfl

theorem classes_eq (hn : s.storedNames.Nodup) :
    s₀.classes = s.classes.filter (·.name != c.name) := by
  cases h with
  | new hs =>
    rw [WalkState.stored?_eq_none_iff] at hs
    refine (List.filter_eq_self.2 fun k hk => ?_).symm
    rw [bne_iff_ne]
    exact fun he => hs (he ▸ List.mem_map_of_mem hk)
  | anew _ _ => exact WalkState.classes_discard hn

theorem storedNames_eq (hn : s.storedNames.Nodup) :
    s₀.storedNames = s.storedNames.filter (· != c.name) := by
  unfold WalkState.storedNames
  rw [h.classes_eq hn, List.filter_map]
  rfl

theorem not_mem_storedNames (hn : s.storedNames.Nodup) : c.name ∉ s₀.storedNames := by
  rw [h.storedNames_eq hn]
  simp

end Begun

/-- What is asked of walking through imports alone. -/
structure ImportContract where
  /-- The class may be entered. -/
  Ready : ConfigurationClass → WalkState → Prop
  /-- What entering the class has made of the state. -/
  Entered : ConfigurationClass → WalkState → WalkState → Prop
  /-- How far going through the imports of a class has come, with some of them left. -/
  Going : ConfigurationClass → WalkState → List String → WalkState → Prop
  /-- What a failure leaves behind. -/
  Broken : Error → WalkState → Prop

namespace ImportContract

/-- Every single step of walking through imports keeps to the contract. -/
structure Lawful (K : ImportContract) (ctx : Context) : Prop where
  plain {c s} : K.Ready c s → c.decl.OnlyImports
  importable {c s name} : K.Ready c s → name ∈ collectImports ctx.reader c.decl →
    ctx.plugins.capability? name = none ∧ ∃ decl, ctx.reader.read? name = some decl
  merged {c s k} : K.Ready c s → s.stored? c.name = some k → c.isImported = true →
    k.isImported = true → K.Entered c s (s.update c.name (·.mergeImporters c))
  ignored {c s k} : K.Ready c s → s.stored? c.name = some k → c.isImported = true →
    k.isImported = false → K.Entered c s s
  leaf {c s s₀} : K.Ready c s → Begun c s s₀ → collectImports ctx.reader c.decl = [] →
    K.Entered c s (s₀.store (c.gathered ctx))
  chained {c s s₀} : K.Ready c s → Begun c s s₀ → s₀.imports.isChained c.name = true →
    K.Entered c s
      ((s₀.report (.circularImport c.name s₀.imports.chain)).store (c.gathered ctx))
  deep {c s s₀} : K.Ready c s → Begun c s s₀ → s₀.imports.isChained c.name = false →
    ctx.settings.maxImportDepth ≤ s₀.imports.depth →
    K.Broken (.importDepthExceeded c.name ctx.settings.maxImportDepth) s₀
  begun {c s s₀} : K.Ready c s → Begun c s s₀ → s₀.imports.isChained c.name = false →
    K.Going c s₀ (collectImports ctx.reader c.decl) (s₀.withImports (·.push c.name))
  next {c s s₀ name rest t decl} : K.Ready c s → Begun c s s₀ → K.Going c s₀ (name :: rest) t →
    t.imports.stack = c.name :: s₀.imports.stack → name ∈ collectImports ctx.reader c.decl →
    ctx.reader.read? name = some decl →
    K.Ready (.imported decl c.name) (t.withImports (·.record c.name name))
  nexted {c s s₀ name rest t decl u} : K.Ready c s → Begun c s s₀ →
    K.Going c s₀ (name :: rest) t → t.imports.stack = c.name :: s₀.imports.stack →
    name ∈ collectImports ctx.reader c.decl → ctx.reader.read? name = some decl →
    K.Entered (.imported decl c.name) (t.withImports (·.record c.name name)) u →
    K.Going c s₀ rest u
  done {c s s₀ t} : K.Ready c s → Begun c s s₀ → K.Going c s₀ [] t →
    t.imports.stack = c.name :: s₀.imports.stack →
    K.Entered c s ((t.withImports (·.pop)).store (c.gathered ctx))
  popped {e t} : K.Broken e t → K.Broken e (t.withImports (·.pop))
  during {e t} (message : String) : K.Broken e t → K.Broken (e.during message) t
  exhausted {c s t} : K.Ready c s → t = s ∨ Begun c s t →
    K.Broken (.exhausted "the walk through configuration classes") t

variable {K : ImportContract} (hK : K.Lawful ctx)

/-- What walking through imports leaves alone. -/
def Leaves (s t : WalkState) : Prop :=
  t.imports.stack = s.imports.stack ∧ t.deferred = s.deferred

/-- Classes may be entered where steps nest at most `n` deep. -/
def Enters (K : ImportContract) (ctx : Context) (n : Nat) : Prop :=
  ∀ c s, K.Ready c s →
    Leads (visit ctx n .enter) ⟨c, s⟩ (fun _ h' => K.Entered c s h'.state ∧ Leaves s h'.state)
      fun e h' => K.Broken e h'.state

variable {n : Nat} {c : ConfigurationClass} {s s₀ : WalkState}

include hK

/-- One import of the class, which has been pushed. -/
theorem leads_visitImport {name : String} {rest : List String} {h : Held}
    (hn : K.Enters ctx n) (hr : K.Ready c s) (hb : Begun c s s₀)
    (hname : name ∈ collectImports ctx.reader c.decl) (hc : h.inHand = c)
    (hg : K.Going c s₀ (name :: rest) h.state)
    (hst : Leaves (s₀.withImports (·.push c.name)) h.state) :
    Leads (visitImport ctx (visit ctx n) c.decl name) h
      (fun _ h' => h'.inHand = c ∧ K.Going c s₀ rest h'.state ∧
        Leaves (s₀.withImports (·.push c.name)) h'.state)
      fun e h' => K.Broken e h'.state := by
  obtain ⟨hplugin, decl, hdecl⟩ := hK.importable hr hname
  unfold visitImport
  rw [hplugin]
  simp only
  rw [leads_bind, Reader.read_eq_ok.2 hdecl, leads_ofExcept]
  refine ⟨?_, nofun⟩
  rintro _ ⟨⟩
  rw [leads_bind, leads_modifyState, leads_bind, leads_inHand, hc]
  unfold enterClass
  rw [leads_discard, leads_holding]
  refine (hn _ _ (hK.next hr hb hg hst.1 hname hdecl)).imp fun _ h' he => ?_
  exact ⟨rfl, hK.nexted hr hb hg hst.1 hname hdecl he.1, he.2.1.trans hst.1, he.2.2.trans hst.2⟩

/-- One import after another. -/
theorem leads_visitImports (hn : K.Enters ctx n) (hr : K.Ready c s) (hb : Begun c s s₀) :
    Leads (visitImports ctx (visit ctx n) c.decl (collectImports ctx.reader c.decl) true) ⟨c, s₀⟩
      (fun _ h' => h'.inHand = c ∧ K.Entered c s (h'.state.store (c.gathered ctx)) ∧
        Leaves s₀ h'.state)
      fun e h' => K.Broken e h'.state := by
  unfold visitImports
  rw [leads_bind, leads_inHand]
  simp only
  rw [leads_bind, leads_state]
  simp only [Bool.true_and]
  split
  next he => exact ⟨rfl, hK.leaf hr hb (List.isEmpty_iff.1 he), rfl, rfl⟩
  split
  next hch => exact ⟨rfl, hK.chained hr hb hch, rfl, rfl⟩
  next hch =>
    rw [Bool.not_eq_true] at hch
    split
    next hd => exact hK.deep hr hb hch hd
    rw [leads_during, leads_goingThrough]
    have hl : Leads ((collectImports ctx.reader c.decl).forM (visitImport ctx (visit ctx n) c.decl))
        ⟨c, s₀.withImports (·.push c.name)⟩
        (fun _ h' => h'.inHand = c ∧ K.Going c s₀ [] h'.state ∧
          Leaves (s₀.withImports (·.push c.name)) h'.state) fun e h' => K.Broken e h'.state := by
      refine Leads.forM (fun rest (h' : Held) => h'.inHand = c ∧ K.Going c s₀ rest h'.state ∧
        Leaves (s₀.withImports (·.push c.name)) h'.state) ⟨rfl, hK.begun hr hb hch, rfl, rfl⟩ ?_
      intro name rest h' hs hk
      exact leads_visitImport hK hn hr hb (hs.subset List.mem_cons_self) hk.1 hk.2.1 hk.2.2
    refine hl.mono (fun _ h' hk => ?_) fun e h' hf => hK.during _ (hK.popped hf)
    refine ⟨hk.1, hK.done hr hb hk.2.1 hk.2.2.1, ?_, hk.2.2.2⟩
    show h'.state.imports.stack.drop 1 = s₀.imports.stack
    rw [hk.2.2.1]
    rfl

theorem leads_visit_imports (hn : ∀ m < n, K.Enters ctx m) (hr : K.Ready c s)
    (hb : Begun c s s₀) :
    Leads (visit ctx n (.imports c.decl (collectImports ctx.reader c.decl) true)) ⟨c, s₀⟩
      (fun _ h' => h'.inHand = c ∧ K.Entered c s (h'.state.store (c.gathered ctx)) ∧
        Leaves s₀ h'.state)
      fun e h' => K.Broken e h'.state := by
  cases n with
  | zero => exact hK.exhausted hr (.inr hb)
  | succ n => exact leads_visitImports hK (hn n n.lt_succ_self) hr hb

theorem leads_visit_ascend (hn : ∀ m < n, K.Enters ctx m) (hr : K.Ready c s)
    (hb : Begun c s s₀) :
    Leads (visit ctx n (.ascend c.decl)) ⟨c, s₀⟩
      (fun _ h' => h'.inHand = c.gathered ctx ∧ K.Entered c s (h'.state.store (c.gathered ctx)) ∧
        Leaves s₀ h'.state)
      fun e h' => K.Broken e h'.state := by
  cases n with
  | zero => exact hK.exhausted hr (.inr hb)
  | succ n =>
    refine leads_ascend_plain (hK.plain hr) ?_
    refine (leads_visit_imports hK (fun m hm => hn m (Nat.lt_succ_of_lt hm)) hr hb).imp
      fun _ h' hd => ?_
    refine ⟨?_, hd.2⟩
    rw [hd.1]
    rfl

theorem leads_gather (hn : ∀ m < n, K.Enters ctx m) (hr : K.Ready c s) (hb : Begun c s s₀) :
    Leads (gather (visit ctx n)) ⟨c, s₀⟩ (fun _ h' => K.Entered c s h'.state ∧ Leaves s h'.state)
      fun e h' => K.Broken e h'.state := by
  have hleaves : Leaves s s₀ := ⟨by rw [hb.imports_eq], by cases hb <;> rfl⟩
  unfold gather
  rw [leads_bind, leads_inHand, leads_bind]
  refine (leads_visit_ascend hK hn hr hb).imp fun _ h' hd => ?_
  rw [leads_bind, leads_inHand, leads_modifyState, hd.1]
  exact ⟨hd.2.1, hd.2.2.1.trans hleaves.1, hd.2.2.2.trans hleaves.2⟩

/-- Every class that may be entered is entered as the contract asks. -/
theorem leads_enter (n : Nat) : K.Enters ctx n := by
  induction n using Nat.strongRecOn with
  | ind n ih =>
    intro c s hr
    cases n with
    | zero => exact hK.exhausted hr (.inl rfl)
    | succ n =>
      have hn : ∀ m < n, K.Enters ctx m := fun m hm => ih m (Nat.lt_succ_of_lt hm)
      show Leads (enter ctx (visit ctx n)) ⟨c, s⟩ _ _
      unfold enter
      rw [leads_bind, leads_inHand, leads_bind, leads_state, leads_bind,
        Context.skips_of_unconditional (e := .ofClass _) (hK.plain hr).conditional, leads_ofExcept]
      refine ⟨?_, nofun⟩
      rintro _ ⟨⟩
      rw [if_neg Bool.false_ne_true]
      simp only
      split
      next hs => exact leads_gather hK hn hr (.new hs)
      next k hk =>
        split
        next hc =>
          split
          next hki => exact ⟨hK.merged hr hk hc hki, rfl, rfl⟩
          next hki => exact ⟨hK.ignored hr hk hc (Bool.not_eq_true _ ▸ hki), rfl, rfl⟩
        next hc =>
          rw [leads_bind, leads_modifyState]
          exact leads_gather hK hn hr (.anew hk (Bool.not_eq_true _ ▸ hc))

theorem leads_enterRoot {beanName className : String} {h : Held}
    (hunknown : ∀ e, ctx.reader.read className = .error e → K.Broken e h.state)
    (hr : ∀ decl, ctx.reader.read? className = some decl →
      K.Ready (.explicit decl beanName) h.state) :
    Leads (enterRoot ctx beanName className) h
      (fun _ h' => (∃ decl, ctx.reader.read? className = some decl ∧
        K.Entered (.explicit decl beanName) h.state h'.state) ∧ Leaves h.state h'.state)
      fun e h' => K.Broken e h'.state := by
  unfold enterRoot enterExplicit
  rw [leads_during, leads_bind, leads_ofExcept]
  refine ⟨fun decl hd => ?_, fun e he => hK.during _ (hunknown e he)⟩
  rw [Reader.read_eq_ok] at hd
  unfold enterClass
  rw [leads_discard, leads_holding]
  refine (leads_enter hK _ _ _ (hr decl hd)).mono (fun _ h' he => ?_) fun _ _ hf => hK.during _ hf
  exact ⟨⟨decl, hd, he.1⟩, he.2⟩

omit hK in
theorem leads_settle_nothing {h : Held} {failed : Error → Held → Prop}
    (hd : h.state.deferred = {}) : Leads (settle ctx) h (fun _ h' => h' = h) failed := by
  obtain ⟨c, s⟩ := h
  have hnone : (DeferredQueue.begin {}).1 = [] :=
    List.eq_nil_iff_forall_not_mem.2 fun d hm => List.not_mem_nil (Precedence.mem_sort.1 hm)
  have hrun : (settle ctx).run.run ⟨c, s⟩ = (.ok (), ⟨c, { s with deferred := .finish }⟩) := by
    show (let ended := (visitDeferred ctx (visit ctx (depthBound ctx)) false
        s.deferred.begin.1).run.run ⟨c, { s with deferred := ⟨none⟩ }⟩
      (ended.1, { ended.2 with state := { ended.2.state with deferred := .finish } })) = _
    rw [show s.deferred = {} from hd, hnone]
    rfl
  unfold Leads
  rw [hrun]
  have hs : ({ s with deferred := .finish } : WalkState) = s := by
    rw [show DeferredQueue.finish = s.deferred from hd.symm]
  simp only [hs]

omit hK in
/-- A whole walk that finds no deferred import waiting. The contract may depend on the root. -/
theorem leads_fromRoots {K : String → ImportContract} (hK : ∀ root, (K root).Lawful ctx)
    (roots : List (String × String)) {h : Held} {failed : Error → WalkState → Prop}
    (hfailed : ∀ root e t, (K root).Broken e t → failed e t)
    (keeps : List (String × String) → WalkState → Prop) (h0 : keeps roots h.state)
    (hs : h.state.imports.stack = []) (hd : h.state.deferred = {})
    (hroot : ∀ beanName className rest t, (beanName, className) :: rest <:+ roots →
      keeps ((beanName, className) :: rest) t → t.imports.stack = [] →
      (∀ e, ctx.reader.read className = .error e → (K className).Broken e t) ∧
      ∀ decl, ctx.reader.read? className = some decl →
        (K className).Ready (.explicit decl beanName) t ∧
        ∀ u, (K className).Entered (.explicit decl beanName) t u → keeps rest u) :
    Leads (fromRoots ctx roots) h (fun _ h' => keeps [] h'.state ∧ Leaves h.state h'.state)
      fun e h' => failed e h'.state := by
  unfold fromRoots
  rw [leads_bind]
  have henter (root : String × String) (rest : List (String × String)) (h' : Held)
      (hsuf : (root :: rest) <:+ roots)
      (hk : keeps (root :: rest) h'.state ∧ Leaves h.state h'.state) :
      Leads (enterRoot ctx root.1 root.2) h'
        (fun _ h'' => keeps rest h''.state ∧ Leaves h.state h''.state)
        fun e h'' => failed e h''.state := by
    obtain ⟨hk, hl⟩ := hk
    obtain ⟨hunknown, hr⟩ := hroot _ _ _ _ hsuf hk (hl.1.trans hs)
    refine (leads_enterRoot (hK root.2) hunknown fun decl hdecl => (hr decl hdecl).1).mono
      (fun _ h'' he => ?_) fun e h'' hf => hfailed _ _ _ hf
    obtain ⟨⟨decl, hdecl, he⟩, hl'⟩ := he
    exact ⟨(hr decl hdecl).2 _ he, hl'.1.trans hl.1, hl'.2.trans hl.2⟩
  refine (Leads.forM (fun rest (h' : Held) => keeps rest h'.state ∧ Leaves h.state h'.state)
    ⟨h0, rfl, rfl⟩ henter).imp fun _ h' hk => ?_
  refine (leads_settle_nothing (hk.2.2.trans hd)).imp fun _ h'' he => ?_
  rw [he]
  exact hk

end ImportContract

end Walk

end Wiring
