import Wiring.Proofs.Walk.Contract

/-!
# Walks from roots

A walk enters one root after the other and then settles the deferred imports. What holds between
roots is stated over the roots that are left, so that a property of a whole walk follows from what
entering one root makes of it.
-/

namespace Wiring

open Walk

/-- A walk comes to what its steps lead to. -/
theorem WalkState.parse_of_leads {s : WalkState} {ctx : Context} {roots : List (String × String)}
    (done : WalkState → Prop) (failed : Error → WalkState → Prop)
    (h : Leads (fromRoots ctx roots) ⟨default, s⟩ (fun _ h' => done h'.state)
      fun e h' => failed e h'.state) :
    (∀ t, s.parse ctx roots = (.ok (), t) → done t) ∧
      ∀ e t, s.parse ctx roots = (.error e, t) → failed e t := by
  unfold Leads at h
  unfold parse runWith
  revert h
  rcases (fromRoots ctx roots).run.run ⟨default, s⟩ with ⟨_ | _, h'⟩
  · rintro h
    exact ⟨nofun, by rintro _ _ ⟨⟩; exact h⟩
  · rintro h
    exact ⟨by rintro _ ⟨⟩; exact h, nofun⟩

namespace Walk

/-! ## Walks by a handler -/

section By

variable (ctx : Context) (visit : Visit → Walk Unit)

/-- Enter a root, by a handler of pieces of work. -/
def enterRootBy (beanName className : String) : Walk Unit :=
  during s!"Failed to parse configuration class [{className}]"
    (enterExplicit ctx visit className beanName)

/-- Enter roots one after the other, by a handler of pieces of work. -/
def enterRootsBy (roots : List (String × String)) : Walk Unit :=
  roots.forM fun (beanName, className) => enterRootBy ctx visit beanName className

/-- Go through the deferred imports that wait, by a handler of pieces of work, without being done
with settling. -/
def settlementBy : Walk Unit :=
  ExceptT.mk fun h =>
    (visitDeferred ctx visit false h.state.deferred.begin.1).run.run
      ⟨h.inHand, { h.state with deferred := h.state.deferred.begin.2 }⟩

/-- Settle the deferred imports that wait, by a handler of pieces of work. -/
def settleBy : Walk Unit :=
  ExceptT.mk fun h =>
    let (ds, deferred) := h.state.deferred.begin
    let (outcome, h') :=
      (visitDeferred ctx visit false ds).run.run { h with state := { h.state with deferred } }
    (outcome, { h' with state := { h'.state with deferred := .finish } })

/-- Walk from roots, by a handler of pieces of work. -/
def fromRootsBy (roots : List (String × String)) : Walk Unit := do
  roots.forM fun (beanName, className) => enterRootBy ctx visit beanName className
  settleBy ctx visit

theorem fromRoots_eq (roots : List (String × String)) :
    fromRoots ctx roots = fromRootsBy ctx (Walk.visit ctx (depthBound ctx)) roots := rfl

theorem fromRootsBy_eq (roots : List (String × String)) :
    fromRootsBy ctx visit roots =
      enterRootsBy ctx visit roots >>= fun _ => settleBy ctx visit := rfl

variable {ctx visit} {h : Held} {failed : Error → Held → Prop}

theorem leads_settlementBy {done : Unit → Held → Prop} :
    Leads (settlementBy ctx visit) h done failed ↔
      Leads (visitDeferred ctx visit false h.state.deferred.begin.1)
        ⟨h.inHand, { h.state with deferred := ⟨none⟩ }⟩ done failed := Iff.rfl

theorem run_settleBy (h : Held) :
    (settleBy ctx visit).run.run h =
      let ended := (settlementBy ctx visit).run.run h
      (ended.1, ⟨ended.2.inHand, { ended.2.state with deferred := .finish }⟩) := rfl

theorem leads_settleBy {done : Unit → Held → Prop} :
    Leads (settleBy ctx visit) h done failed ↔
      Leads (settlementBy ctx visit) h
        (fun _ h' => done () ⟨h'.inHand, { h'.state with deferred := .finish }⟩)
        fun e h' => failed e ⟨h'.inHand, { h'.state with deferred := .finish }⟩ := by
  unfold Leads
  rw [run_settleBy]
  rcases (settlementBy ctx visit).run.run h with ⟨_ | _, h'⟩ <;> rfl

end By

/-- How a walk ends, in an outcome and a state: it fails while the roots are entered, or comes from
there to settling, and is then done with it. -/
theorem parse_eq_iff {ctx : Context} {s t : WalkState} {roots : List (String × String)}
    {outcome : Except Error Unit} :
    s.parse ctx roots = (outcome, t) ↔
      (∃ e u, (enterRootsBy ctx (visit ctx (depthBound ctx)) roots).run.run ⟨default, s⟩ =
          (.error e, u) ∧ outcome = .error e ∧ t = u.state) ∨
      ∃ u v, (enterRootsBy ctx (visit ctx (depthBound ctx)) roots).run.run ⟨default, s⟩ =
          (.ok (), u) ∧
        (settlementBy ctx (visit ctx (depthBound ctx))).run.run u = (outcome, v) ∧
        t = { v.state with deferred := .finish } := by
  unfold WalkState.parse runWith
  rw [fromRoots_eq, fromRootsBy_eq, run_bind]
  rcases (enterRootsBy ctx (visit ctx (depthBound ctx)) roots).run.run ⟨default, s⟩ with ⟨e | _, u⟩
  · constructor
    · rintro ⟨⟩
      exact .inl ⟨e, u, rfl, rfl, rfl⟩
    · rintro (⟨_, _, ⟨⟩, rfl, rfl⟩ | ⟨_, _, ⟨⟩, -⟩)
      rfl
  · simp only [run_settleBy]
    constructor
    · rintro ⟨⟩
      exact .inr ⟨u, _, rfl, rfl, rfl⟩
    · rintro (⟨_, _, ⟨⟩, -⟩ | ⟨_, v, ⟨⟩, hv, rfl⟩)
      rw [hv]

end Walk

namespace Walk.Contract

variable {K : Contract} {ctx : Context} (hK : K.StepLaws ctx)
  (hv : K.Meets (depthBound ctx) (visit ctx (depthBound ctx)))

include hK hv

theorem leads_enterRoot {beanName className : String} {h : Held}
    (hr : ∀ decl, ctx.reader.read className = .ok decl →
      K.Ready (depthBound ctx) .enter ⟨.explicit decl beanName, h.state⟩) :
    Leads (enterRoot ctx beanName className) h
      (fun _ h' => h'.inHand = h.inHand ∧ ∃ decl, ctx.reader.read className = .ok decl ∧
        K.Entered (.explicit decl beanName) h.state h'.state)
      fun e h' => K.Broken h.state e h'.state := by
  unfold enterRoot enterExplicit
  rw [leads_during, leads_bind, leads_ofExcept]
  refine ⟨fun decl hd => ?_, fun e he => hK.during _ (hK.refused (.unreadable he))⟩
  refine leads_enterClass hv (hr decl hd) (fun t ht => ⟨rfl, decl, hd, ht⟩) fun e t hb => ?_
  exact hK.during _ hb

/-- Going through the deferred imports that wait, from a state in which imports may be gone
through. -/
theorem leads_settlement {h : Held}
    (hr : ∀ (source : ClassDecl) (names : List String) (t : WalkState) (d : ConfigurationClass),
      K.Kept { h.state with deferred := ⟨none⟩ } t → t.stored? source.name = some d →
      K.Ready (depthBound ctx) (.imports source names false) ⟨d, t⟩) :
    Leads (settlementBy ctx (visit ctx (depthBound ctx))) h
      (fun _ h' => K.Kept { h.state with deferred := ⟨none⟩ } h'.state)
      fun e h' => K.Broken { h.state with deferred := ⟨none⟩ } e h'.state := by
  have hby := hK.byDeferred (c := h.inHand) hv hr
  rw [leads_settlementBy]
  have hgoing := Invariant.leads_visitDeferred
    (h := ⟨h.inHand, { h.state with deferred := ⟨none⟩ }⟩) hby false h.state.deferred.begin.1 nofun
    (fun d _ _ hg _ _ => hK.broken_trans hg.1 (hK.unparsed d.importing.name))
    ⟨hK.refl _, .refl h.inHand⟩
  exact hgoing.mono (fun _ _ hg => hg.1) fun _ _ hb => hb

/-- Settling deferred imports from a state in which those that are left may be gone through. -/
theorem leads_settle {h : Held}
    (hr : ∀ (source : ClassDecl) (names : List String) (t : WalkState) (d : ConfigurationClass),
      K.Kept { h.state with deferred := ⟨none⟩ } t → t.stored? source.name = some d →
      K.Ready (depthBound ctx) (.imports source names false) ⟨d, t⟩) :
    Leads (settle ctx) h
      (fun _ h' => ∃ t, K.Kept { h.state with deferred := ⟨none⟩ } t ∧
        h'.state = { t with deferred := .finish })
      fun e h' => ∃ t, K.Broken { h.state with deferred := ⟨none⟩ } e t ∧
        h'.state = { t with deferred := .finish } := by
  show Leads (settleBy ctx (visit ctx (depthBound ctx))) h _ _
  rw [leads_settleBy]
  exact (leads_settlement hK hv hr).mono (fun _ h' hk => ⟨h'.state, hk, rfl⟩)
    fun e h' hb => ⟨h'.state, hb, rfl⟩

/-- A whole walk. `keeps` says what holds while some roots are left. -/
theorem leads_fromRoots (roots : List (String × String)) {h : Held}
    (keeps : List (String × String) → WalkState → Prop) (h0 : keeps roots h.state)
    (hroot : ∀ beanName className rest s decl, (beanName, className) :: rest <:+ roots →
      keeps ((beanName, className) :: rest) s → ctx.reader.read className = .ok decl →
      K.Ready (depthBound ctx) .enter ⟨.explicit decl beanName, s⟩ ∧
        ∀ t, K.Entered (.explicit decl beanName) s t → keeps rest t)
    (hsettle : ∀ s, keeps [] s →
      ∀ (source : ClassDecl) (names : List String) (t : WalkState) (d : ConfigurationClass),
      K.Kept { s with deferred := ⟨none⟩ } t → t.stored? source.name = some d →
      K.Ready (depthBound ctx) (.imports source names false) ⟨d, t⟩) :
    Leads (fromRoots ctx roots) h
      (fun _ h' => ∃ s t, keeps [] s ∧ K.Kept { s with deferred := ⟨none⟩ } t ∧
        h'.state = { t with deferred := .finish })
      fun e h' => (∃ rest s, keeps rest s ∧ K.Broken s e h'.state) ∨
        ∃ s t, keeps [] s ∧ K.Broken { s with deferred := ⟨none⟩ } e t ∧
          h'.state = { t with deferred := .finish } := by
  unfold fromRoots
  rw [leads_bind]
  have henter (root : String × String) (rest : List (String × String)) (h : Held)
      (hs : (root :: rest) <:+ roots) (hk : keeps (root :: rest) h.state) :
      Leads (enterRoot ctx root.1 root.2) h (fun _ h' => keeps rest h'.state)
        fun e h' => ∃ rest s, keeps rest s ∧ K.Broken s e h'.state := by
    refine (leads_enterRoot hK hv fun decl hd => (hroot _ _ _ _ decl hs hk hd).1).mono
      (fun _ h' hd => ?_) fun e h' hb => ⟨_, _, hk, hb⟩
    obtain ⟨-, decl, hd, ht⟩ := hd
    exact (hroot _ _ _ _ decl hs hk hd).2 _ ht
  refine (Leads.forM (fun rest (h' : Held) => keeps rest h'.state) h0 henter).mono
    (fun _ h' hk => ?_) fun e h' hb => .inl hb
  refine (leads_settle hK hv fun source names t d => hsettle _ hk source names t d).mono
    (fun _ h'' hd => ?_) fun e h'' hd => ?_
  · obtain ⟨t, ht, hst⟩ := hd
    exact ⟨_, t, hk, ht, hst⟩
  · obtain ⟨t, ht, hst⟩ := hd
    exact .inr ⟨_, t, hk, ht, hst⟩

end Walk.Contract

end Wiring
