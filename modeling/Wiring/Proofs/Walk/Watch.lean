import Wiring.Proofs.Walk.Notices
import Wiring.Proofs.Walk.Pairing

/-!
# Watching a walk

A watched walk does what the walk does, and stops as soon as a piece of work has left a state behind
that is looked for, given the classes that are being entered. `Tracks` relates a watched step to
the step; there is one rule for each way to put steps together, so that what the step makes of the
state after the watched one has stopped is a property of what is left to do.
-/

namespace Wiring

/-- The classes being entered within a piece of work on a class, innermost first. -/
def Visit.within (c : ConfigurationClass) (underway : List ConfigurationClass) :
    Visit → List ConfigurationClass
  | .enter => c :: underway
  | _ => underway

namespace Walk

/-- What is looked for: the classes being entered, innermost first, and the state. -/
abbrev Sight := List ConfigurationClass → WalkState → Bool

section Watched

variable (ctx : Context) (sight : Sight)

/-- Stop if the state is looked for. -/
def lookOut (underway : List ConfigurationClass) : Walk Unit := do
  if sight underway (← state) then throw (.exhausted "the watch over the walk") else pure ()

/-- Do a piece of work under watch. -/
def visitUntil : Nat → List ConfigurationClass → Visit → Walk Unit
  | 0, _, _ => throw (.exhausted "the walk through configuration classes")
  | bound + 1, underway, v => do
    let c ← inHand
    perform ctx (visitUntil bound (v.within c underway)) v
    lookOut sight underway

/-- Walk from roots under watch. -/
def fromRootsUntil (roots : List (String × String)) : Walk Unit :=
  fromRootsBy ctx (visitUntil ctx sight (depthBound ctx) []) roots

end Watched

end Walk

/-- Go through roots under watch. -/
def WalkState.parseUntil (s : WalkState) (ctx : Context) (sight : Walk.Sight)
    (roots : List (String × String)) : Except Error Unit × WalkState :=
  Walk.runWith s (Walk.fromRootsUntil ctx sight roots)

namespace Walk

/-! ## A watched step and the step -/

variable {α β : Type} {sure : List ConfigurationClass → Prop} {h : Held}

/-- The step comes to its end, if it does, with stored classes that `sure` holds of. -/
def Ends (sure : List ConfigurationClass → Prop) (step : Walk α) (h : Held) : Prop :=
  Leads step h (fun _ h' => sure h'.state.classes) fun _ _ => True

/-- From a state, the watched step does what the step does, or it stops. Where it stops, and where
`sure` has held before, `sure` holds at the end of the step. -/
structure Tracks (sure : List ConfigurationClass → Prop) (watched step : Walk α) (h : Held) :
    Prop where
  keeps : sure h.state.classes → Ends sure step h
  runs : watched.run.run h = step.run.run h ∨
    (∃ e u, watched.run.run h = (.error e, u)) ∧ Ends sure step h

namespace Tracks

theorem self {step : Walk α} (hk : sure h.state.classes → Ends sure step h) :
    Tracks sure step step h :=
  ⟨hk, .inl rfl⟩

theorem of_ends {watched step : Walk α} (hs : Tracks (fun _ => True) watched step h)
    (he : Ends sure step h) : Tracks sure watched step h :=
  ⟨fun _ => he, hs.runs.imp_right fun hstop => ⟨hstop.1, he⟩⟩

theorem bind {watched step : Walk β} {watched' step' : β → Walk α} (hs : Tracks sure watched step h)
    (hn : Leads step h (fun b h' => Tracks sure (watched' b) (step' b) h') fun _ _ => True) :
    Tracks sure (watched >>= watched') (step >>= step') h := by
  have hends (he : Ends sure step h) : Ends sure (step >>= step') h := by
    unfold Ends
    rw [leads_bind]
    exact (he.and hn).mono (fun _ _ hd => hd.2.keeps hd.1) fun _ _ _ => trivial
  refine ⟨fun hk => hends (hs.keeps hk), ?_⟩
  rcases hs.runs with heq | ⟨⟨e, u, hstop⟩, he⟩
  · unfold Ends
    rw [run_bind, run_bind, heq, leads_bind]
    unfold Leads at hn ⊢
    revert hn
    rcases step.run.run h with ⟨_ | b, h'⟩
    · exact fun _ => .inl rfl
    · exact Tracks.runs
  · refine .inr ⟨⟨e, u, ?_⟩, hends he⟩
    rw [run_bind, hstop]

theorem after {step : Walk β} {watched' step' : β → Walk α}
    (hs : Leads step h (fun b h' => (sure h.state.classes → sure h'.state.classes) ∧
      Tracks sure (watched' b) (step' b) h') fun _ _ => True) :
    Tracks sure (step >>= watched') (step >>= step') h :=
  bind (self fun hk => hs.mono (fun _ _ hd => hd.1 hk) fun _ _ _ => trivial)
    (hs.mono (fun _ _ hd => hd.2) fun _ _ _ => trivial)

theorem afterOutcome {outcome : Except Error β} {watched' step' : β → Walk α}
    (hn : ∀ b, outcome = .ok b → Tracks sure (watched' b) (step' b) h) :
    Tracks sure (ofExcept outcome >>= watched') (ofExcept outcome >>= step') h :=
  after (leads_ofExcept.2 ⟨fun b hb => ⟨id, hn b hb⟩, fun _ _ => trivial⟩)

theorem next {watched step : Walk β} {watched' step' : β → Walk α} (hs : Tracks sure watched step h)
    (hn : ∀ b h', Tracks sure (watched' b) (step' b) h') :
    Tracks sure (watched >>= watched') (step >>= step') h :=
  hs.bind (leads_of_forall hn fun _ _ => trivial)

theorem forM {items : List β} {watched step : β → Walk Unit}
    (hs : ∀ b ∈ items, ∀ h, Tracks sure (watched b) (step b) h) :
    Tracks sure (items.forM watched) (items.forM step) h := by
  induction items generalizing h with
  | nil => exact self id
  | cons b rest ih =>
    exact (hs b List.mem_cons_self h).next fun _ _ => ih
      fun b' hb' => hs b' (List.mem_cons_of_mem _ hb')

/-- A step that is run inside another one, which begins with the same stored classes and leaves
behind those that it leaves behind. -/
theorem wrap {watched step : Walk β} {watched' step' : Walk α} {g : Held}
    (ht : Tracks sure watched step g)
    (finish : Except Error β × Held → Except Error α × Held)
    (hw : watched'.run.run h = finish (watched.run.run g))
    (hs : step'.run.run h = finish (step.run.run g))
    (hg : g.state.classes = h.state.classes)
    (hok : ∀ b k, ∃ a k', finish (.ok b, k) = (.ok a, k') ∧ k'.state.classes = k.state.classes)
    (herror : ∀ e k, ∃ e' k', finish (.error e, k) = (.error e', k')) :
    Tracks sure watched' step' h := by
  have hends (he : Ends sure step g) : Ends sure step' h := by
    unfold Ends Leads at he ⊢
    rw [hs]
    revert he
    rcases step.run.run g with ⟨e | b, k⟩
    · obtain ⟨e', k', hf⟩ := herror e k
      rw [hf]
      exact id
    · obtain ⟨a, k', hf, hclasses⟩ := hok b k
      rw [hf]
      intro hsure
      show sure k'.state.classes
      rwa [hclasses]
  refine ⟨fun hk => hends (ht.keeps (hg ▸ hk)), ?_⟩
  rw [hw, hs]
  rcases ht.runs with heq | ⟨⟨e, u, hstop⟩, he⟩
  · exact .inl (congrArg finish heq)
  · rw [hstop]
    exact .inr ⟨herror e u, hends he⟩

theorem holding {watched step : Walk Unit} {c : ConfigurationClass}
    (ht : Tracks sure watched step { h with inHand := c }) :
    Tracks sure (Walk.holding c watched) (Walk.holding c step) h :=
  ht.wrap (fun ended => (ended.1.map fun _ => ended.2.inHand, { ended.2 with inHand := h.inHand }))
    rfl rfl rfl (fun _ _ => ⟨_, _, rfl, rfl⟩) fun _ _ => ⟨_, _, rfl⟩

theorem goingThrough {watched step : Walk Unit} {name : String}
    (ht : Tracks sure watched step { h with state := h.state.withImports (·.push name) }) :
    Tracks sure (Walk.goingThrough name watched) (Walk.goingThrough name step) h :=
  ht.wrap (fun ended => (ended.1, { ended.2 with state := ended.2.state.withImports (·.pop) }))
    rfl rfl rfl (fun _ _ => ⟨_, _, rfl, rfl⟩) fun _ _ => ⟨_, _, rfl⟩

theorem during {watched step : Walk Unit} {message : String} (ht : Tracks sure watched step h) :
    Tracks sure (Walk.during message watched) (Walk.during message step) h :=
  ht.wrap (fun ended => (ended.1.mapError (Error.during message), ended.2))
    rfl rfl rfl (fun _ _ => ⟨_, _, rfl, rfl⟩) fun _ _ => ⟨_, _, rfl⟩

end Tracks

/-! ## Steps under watch -/

/-- Taking over registrars leaves alone what is looked for. -/
def Unregistered (sure : List ConfigurationClass → Prop) : Prop :=
  ∀ (s : WalkState) (name : String) (added : List RegistrarBinding), sure s.classes →
    sure (s.update name fun d => { d with registrars := d.registrars ++ added }).classes

/-- A watched step and the step are a pair wherever the handlers of pieces of work are. -/
def tracking (ctx : Context) (hreg : Unregistered sure) : Pairing ctx where
  Rel := Tracks sure
  Named _ := True
  value _ _ := .self id
  refused _ _ := .self fun _ => trivial
  unparsed _ _ := .self fun _ => trivial
  next := .bind
  inHand ht := .after ⟨id, ht⟩
  state ht := .after ⟨id, ht⟩
  modifyState {f h} hf := .self fun hs => show sure (f h.state).classes by rwa [hf]
  registrars name added h := .self (hreg h.state name added)
  modifyInHand _ _ := .self id
  holding := .holding
  goingThrough := .goingThrough
  during _ ht := .during ht

section Classes

variable {ctx : Context} {watch visit : Visit → Walk Unit} {c : ConfigurationClass} {s : WalkState}

theorem tracks_gather (hv : ∀ v h, Tracks sure (watch v) (visit v) h)
    (hsame : ∀ s, Leads (visit (.ascend c.decl)) ⟨c, s⟩ (fun _ h' => c.SameNode h'.inHand)
      fun _ _ => True)
    (hstore : ∀ (t : WalkState) d, c.SameNode d → sure t.classes → sure (t.store d).classes) :
    Tracks sure (gather watch) (gather visit) ⟨c, s⟩ := by
  refine .after ⟨id, .bind (hv _ _) ((hsame s).mono (fun _ h' hd => ?_) fun _ _ _ => trivial)⟩
  exact .after ⟨id, .self (hstore _ _ hd)⟩

/-- Entering a class goes wrong nowhere where going through it, perhaps anew, does not. -/
theorem tracks_enter (hgather : Tracks sure (gather watch) (gather visit) ⟨c, s⟩)
    (hagain : c.isImported = false →
      Tracks sure (do modifyState (·.discard c.name); gather watch)
        (do modifyState (·.discard c.name); gather visit) ⟨c, s⟩)
    (hmerge : ∀ k, s.stored? c.name = some k → c.isImported → k.isImported → sure s.classes →
      sure (s.update c.name (·.mergeImporters c)).classes) :
    Tracks sure (enter ctx watch) (enter ctx visit) ⟨c, s⟩ := by
  refine .after ⟨id, .after ⟨id, .afterOutcome fun skipped _ => ?_⟩⟩
  split
  · exact .self id
  simp only
  split
  · exact hgather
  next k hk =>
    split
    next hi =>
      split
      next hki => exact .self (hmerge k hk hi hki)
      next => exact .self id
    next hi => exact hagain (Bool.not_eq_true _ ▸ hi)

end Classes

/-! ## Walks under watch -/

section Watched

variable {ctx : Context} {sight : Sight} {n : Nat} {underway : List ConfigurationClass}

theorem run_lookOut :
    (lookOut sight underway).run.run h =
      if sight underway h.state then (.error (.exhausted "the watch over the walk"), h)
      else (.ok (), h) := by
  show StateT.run (ExceptT.run (if _ then _ else _)) h = _
  split <;> rfl

theorem leads_lookOut {done : Unit → Held → Prop} {failed : Error → Held → Prop} :
    Leads (lookOut sight underway) h done failed ↔
      if sight underway h.state then failed (.exhausted "the watch over the walk") h
      else done () h := by
  unfold Leads
  rw [run_lookOut]
  cases sight underway h.state <;> rfl

theorem run_visitUntil_succ (v : Visit) :
    (visitUntil ctx sight (n + 1) underway v).run.run h =
      (do
        perform ctx (visitUntil ctx sight n (v.within h.inHand underway)) v
        lookOut sight underway).run.run h := by
  rw [visitUntil, run_bind]
  rfl

/-- What is never in sight stops nothing. -/
theorem run_visitUntil_of_never (hno : ∀ more s, sight (more ++ underway) s = false) :
    visitUntil ctx sight n underway = visit ctx n := by
  induction n generalizing underway with
  | zero => rfl
  | succ n ih =>
    funext v
    refine ExceptT.ext (StateT.ext fun h => ?_)
    have hwithin : visitUntil ctx sight n (v.within h.inHand underway) = visit ctx n := by
      cases v with
      | enter =>
        refine ih fun more s => ?_
        have happend : more ++ h.inHand :: underway = (more ++ [h.inHand]) ++ underway := by simp
        rw [Visit.within, happend]
        exact hno _ s
      | _ => exact ih hno
    refine (run_visitUntil_succ v).trans ?_
    rw [hwithin, run_bind]
    show _ = (perform ctx (visit ctx n) v).run.run h
    rcases (perform ctx (visit ctx n) v).run.run h with ⟨_ | _, h'⟩
    · rfl
    · show (lookOut sight underway).run.run h' = _
      rw [run_lookOut, show sight underway h'.state = false from hno [] h'.state]
      rfl

/-- A piece of work under watch, from what is done within it. -/
theorem tracks_visitUntil {v : Visit} (hsight : ∀ s, sight underway s = true → sure s.classes)
    (hp : Tracks sure (perform ctx (visitUntil ctx sight n (v.within h.inHand underway)) v)
      (perform ctx (visit ctx n) v) h) :
    Tracks sure (visitUntil ctx sight (n + 1) underway v) (visit ctx (n + 1) v) h := by
  refine ⟨hp.keeps, ?_⟩
  rw [run_visitUntil_succ, run_bind]
  show _ = (perform ctx (visit ctx n) v).run.run h ∨ _ ∧ Ends sure (perform ctx (visit ctx n) v) h
  rcases hp.runs with heq | ⟨⟨e, u, hstop⟩, he⟩
  · rw [heq]
    unfold Ends Leads
    rcases (perform ctx (visit ctx n) v).run.run h with ⟨_ | _, h'⟩
    · exact .inl rfl
    · simp only [run_lookOut]
      split
      next hs => exact .inr ⟨⟨_, _, rfl⟩, hsight _ hs⟩
      next => exact .inl rfl
  · rw [hstop]
    exact .inr ⟨⟨_, _, rfl⟩, he⟩

theorem leads_sameNode (ctx : Context) (n : Nat) (c : ConfigurationClass) (s : WalkState) :
    Leads (visit ctx n (.ascend c.decl)) ⟨c, s⟩ (fun _ h' => c.SameNode h'.inHand)
      fun _ _ => True :=
  ((noticing ctx).lawful.visit n _ _ trivial).mono (fun _ _ hd => hd.2) fun _ _ _ => trivial

/-- Under watch a piece of work does the same, or it stops. -/
theorem tracks_visitUntil_any (n : Nat) (underway : List ConfigurationClass) (v : Visit)
    (h : Held) :
    Tracks (fun _ => True) (visitUntil ctx sight n underway v) (visit ctx n v) h := by
  induction n generalizing underway v h with
  | zero => exact .self fun _ => trivial
  | succ n ih =>
    refine tracks_visitUntil (fun _ _ => trivial) ?_
    have hreg : Unregistered fun _ => True := fun _ _ _ _ => trivial
    cases v with
    | enter =>
      obtain ⟨c, s⟩ := h
      have hgather (s : WalkState) : Tracks (fun _ => True)
          (gather (visitUntil ctx sight n (c :: underway))) (gather (visit ctx n)) ⟨c, s⟩ :=
        tracks_gather (ih (c :: underway)) (leads_sameNode ctx n c) fun _ _ _ _ => trivial
      exact tracks_enter (hgather s) (fun _ => .after ⟨id, hgather _⟩) fun _ _ _ _ _ => trivial
    | ascend source => exact (tracking ctx hreg).ascend (ih underway) source h
    | imports source names guarded =>
      exact (tracking ctx hreg).visitImports (ih underway) (steady_visit ctx n) source names
        guarded h
        trivial

section Roots

variable {watch visit : Visit → Walk Unit} (hv : ∀ v h, Tracks sure (watch v) (visit v) h)
  (hreg : Unregistered sure)

include hv hreg

theorem tracks_enterRootBy (beanName className : String) :
    Tracks sure (enterRootBy ctx watch beanName className)
      (enterRootBy ctx visit beanName className)
      h :=
  .during ((tracking ctx hreg).enterExplicit hv _ _ _)

theorem tracks_settleBy : Tracks sure (settleBy ctx watch) (settleBy ctx visit) h := by
  have hsettle : Tracks sure (visitDeferred ctx watch false h.state.deferred.begin.1)
      (visitDeferred ctx visit false h.state.deferred.begin.1)
      { h with state := { h.state with deferred := ⟨none⟩ } } :=
    (tracking ctx hreg).visitDeferred _ _ _ (fun _ _ => trivial) (fun _ _ _ => hv _)
      fun _ _ _ _ _ _ => hv _ _
  exact hsettle.wrap
    (fun ended => (ended.1, { ended.2 with state := { ended.2.state with deferred := .finish } }))
    rfl rfl rfl (fun _ _ => ⟨_, _, rfl, rfl⟩) fun _ _ => ⟨_, _, rfl⟩

/-- A walk by one handler under watch, from what that handler makes of each piece of work. -/
theorem tracks_fromRootsBy (roots : List (String × String)) :
    Tracks sure (fromRootsBy ctx watch roots) (fromRootsBy ctx visit roots) h :=
  .next (.forM fun _ _ _ => tracks_enterRootBy hv hreg _ _) fun _ _ => tracks_settleBy hv hreg

end Roots

/-- A whole walk under watch. Where it succeeds, the watched walk has come to the same state, or it
has stopped. -/
theorem Tracks.runWith {watched step : Walk Unit} {s t : WalkState}
    (ht : Tracks sure watched step ⟨default, s⟩) (h : Walk.runWith s step = (.ok (), t)) :
    (sure s.classes → sure t.classes) ∧
      (Walk.runWith s watched = (.ok (), t) ∨
        (Walk.runWith s watched).1 ≠ .ok () ∧ sure t.classes) := by
  obtain ⟨hkeeps, hruns⟩ := ht
  unfold Ends Leads at hkeeps hruns
  unfold Walk.runWith at h ⊢
  rcases hrun : step.run.run ⟨default, s⟩ with ⟨_ | _, h'⟩
  · rw [hrun] at h
    cases h
  rw [hrun] at h hkeeps hruns
  cases h
  refine ⟨hkeeps, ?_⟩
  rcases hruns with heq | ⟨⟨e, u, hstop⟩, hsure⟩
  · exact .inl (by rw [heq])
  · exact .inr ⟨by rw [hstop]; nofun, hsure⟩

end Watched

end Walk

end Wiring
