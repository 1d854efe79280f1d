import Wiring.Proofs.Walk.Pairing
import Wiring.Proofs.Walk.Stored

/-!
# The work that a failure is reported with

A failure of a walk is reported with the innermost work during which it arose: that on the imports
of a class, or on a root. A told walk does what the walk does, and reports a failure with all works
that were being done, from the outermost on, each of them named for the class that was in hand. So
the work that a failure is reported with is the last one that is told. Putting the deferred imports
that wait into groups belongs to no work: what fails there is reported without any.
-/

namespace Wiring

namespace Error

/-- Say of a failure that says already during which work it arose that this was part of a greater
work. -/
def within (work : String) : Error → Error
  | store m e => store work (store m e)
  | e => e

/-- Say of a failure that says already during which work it arose what this work is. -/
def retold (work : String) : Error → Error
  | store _ e => store work e
  | e => e

/-- A failure with all works during which it arose, from the outermost on. -/
def told (works : List String) (cause : Error) : Error := works.foldr store cause

/-- A failure with the innermost of the works during which it arose. -/
def wrapped (works : List String) (cause : Error) : Error :=
  match works.getLast? with
  | none => cause
  | some work => store work cause

variable {cause : Error} {works : List String}

theorem during_of_isStore {e : Error} (work : String) (h : e.isStore = true) :
    e.during work = e := by
  cases e with
  | store => rfl
  | _ => cases h

theorem during_of_not_isStore {e : Error} (work : String) (h : e.isStore = false) :
    e.during work = store work e := by
  cases e with
  | store => cases h
  | _ => rfl

theorem within_of_not_isStore {e : Error} (work : String) (h : e.isStore = false) :
    e.within work = e := by
  cases e with
  | store => cases h
  | _ => rfl

theorem retold_of_not_isStore {e : Error} (work : String) (h : e.isStore = false) :
    e.retold work = e := by
  cases e with
  | store => cases h
  | _ => rfl

theorem within_told (work : String) (h : works ≠ []) :
    (told works cause).within work = told (work :: works) cause := by
  cases works with
  | nil => exact absurd rfl h
  | cons w rest => rfl

theorem isStore_told (h : works ≠ []) : (told works cause).isStore = true := by
  cases works with
  | nil => exact absurd rfl h
  | cons w rest => rfl

theorem wrapped_concat (works : List String) (work : String) (cause : Error) :
    wrapped (works ++ [work]) cause = store work cause := by
  unfold wrapped
  rw [List.getLast?_concat]

theorem isStore_wrapped (h : works ≠ []) : (wrapped works cause).isStore = true := by
  rw [← List.dropLast_append_getLast h, wrapped_concat]
  rfl

theorem wrapped_cons (work : String) (h : works ≠ []) :
    wrapped (work :: works) cause = wrapped works cause := by
  unfold wrapped
  rw [List.getLast?_cons_of_ne_nil h]

theorem isStore_of_isDirect {e : Error} (h : e.isDirect = true) : e.isStore = false := by
  cases e with
  | store => cases h
  | _ => rfl

end Error

open Error (told wrapped)

/-! ## Told walks -/

namespace Walk

/-- The work on a root. -/
def rootWork (className : String) : String := s!"Failed to parse configuration class [{className}]"

/-- Say something else of a failure of a step. -/
def failingAs (f : Error → Error) (step : Walk Unit) : Walk Unit :=
  ExceptT.mk fun h =>
    let (outcome, h') := step.run.run h
    (outcome.mapError f, h')

/-- What a piece of work on a class leads to. It is part of the work on the imports of that class if
these are gone through. -/
def within? (c : ConfigurationClass) : Visit → Walk Unit → Walk Unit
  | .imports .., step => failingAs (Error.within (importWork c.name)) step
  | _, step => step

/-- A piece of work on a class. It is that on the imports of this class if these are gone through.
-/
def retold? (c : ConfigurationClass) : Visit → Walk Unit → Walk Unit
  | .imports .., step => failingAs (Error.retold (importWork c.name)) step
  | _, step => step

section Told

variable (ctx : Context)

/-- Do a piece of work, and tell of a failure during which works it arose. -/
def visitTold : Nat → Visit → Walk Unit
  | 0, _ => throw (.exhausted "the walk through configuration classes")
  | bound + 1, v => do
    let c ← inHand
    -- work on imports is named for the class in hand, whatever the step itself says of it
    retold? c v (perform ctx (fun v' => within? c v (visitTold bound v')) v)

/-- Enter roots one after the other, and tell of a failure during which works it arose. -/
def enterRootsTold (roots : List (String × String)) : Walk Unit :=
  roots.forM fun (beanName, className) =>
    failingAs (Error.store (rootWork className))
      (enterExplicit ctx (visitTold ctx (depthBound ctx)) className beanName)

/-- Walk from roots, and tell of a failure during which works it arose. -/
def fromRootsTold (roots : List (String × String)) : Walk Unit := do
  enterRootsTold ctx roots
  settleBy ctx (visitTold ctx (depthBound ctx))

end Told

end Walk

/-- Go through roots, and tell of a failure during which works it arose. -/
def WalkState.parseTold (s : WalkState) (ctx : Context) (roots : List (String × String)) :
    Except Error Unit × WalkState :=
  Walk.runWith s (Walk.fromRootsTold ctx roots)

namespace Walk

/-! ## What a told walk tells of the walk -/

/-- The work on the imports of a class, and within that on those of others. -/
def WorkOn (className : String) (works : List String) : Prop :=
  ∃ names : List String, works = importWork className :: names.map importWork

/-- The work on the imports of some class. -/
def OnImports (works : List String) : Prop := ∃ className, WorkOn className works

/-- The work that a piece of work on a class fails during. -/
def WorkOf (c : ConfigurationClass) : Visit → List String → Prop
  | .imports .. => WorkOn c.name
  | _ => OnImports

theorem onImports_of_workOf {c : ConfigurationClass} {v : Visit} {works : List String}
    (h : WorkOf c v works) : OnImports works := by
  cases v with
  | imports => exact ⟨c.name, h⟩
  | _ => exact h

/-- Two outcomes are the same, or of the same failure, of which the first one tells all works, and
the second one the innermost. There may be no work at all. -/
inductive Explains {α : Type} (Works : List String → Prop) :
    Except Error α × Held → Except Error α × Held → Prop
  | done (a : α) (h : Held) : Explains Works (.ok a, h) (.ok a, h)
  | bare {cause : Error} (hc : cause.isStore = false) (h : Held) :
    Explains Works (.error cause, h) (.error cause, h)
  | told {works : List String} {cause : Error} (hw : Works works) (hne : works ≠ [])
    (hc : cause.isStore = false) (h : Held) :
    Explains Works (.error (told works cause), h) (.error (wrapped works cause), h)

/-- From a state, the first step tells of the second one. -/
def Tells {α : Type} (Works : List String → Prop) (first second : Walk α) (h : Held) : Prop :=
  Explains Works (first.run.run h) (second.run.run h)

namespace Tells

variable {α β : Type} {Works Works' : List String → Prop} {h : Held}

theorem next {first second : Walk β} {first' second' : β → Walk α} (hs : Tells Works first second h)
    (hn : Leads second h (fun b h' => Tells Works (first' b) (second' b) h') fun _ _ => True) :
    Tells Works (first >>= first') (second >>= second') h := by
  unfold Tells Leads at *
  rw [run_bind, run_bind]
  generalize first.run.run h = o at hs
  generalize second.run.run h = o' at hs hn
  cases hs with
  | done a h' => exact hn
  | bare hc h' => exact .bare hc h'
  | told hw hne hc h' => exact .told hw hne hc h'

theorem wrap {first second : Walk β} {first' second' : Walk α} {g : Held}
    (hs : Tells Works first second g)
    (finish finish' : Except Error β × Held → Except Error α × Held)
    (hfirst : first'.run.run h = finish (first.run.run g))
    (hsecond : second'.run.run h = finish' (second.run.run g))
    (hdone : ∀ b k, Explains Works' (finish (.ok b, k)) (finish' (.ok b, k)))
    (hbare : ∀ cause k, cause.isStore = false →
      Explains Works' (finish (.error cause, k)) (finish' (.error cause, k)))
    (htold : ∀ works cause k, Works works → works ≠ [] → cause.isStore = false →
      Explains Works' (finish (.error (told works cause), k))
        (finish' (.error (wrapped works cause), k))) :
    Tells Works' first' second' h := by
  unfold Tells at hs ⊢
  rw [hfirst, hsecond]
  generalize first.run.run g = o at hs
  generalize second.run.run g = o' at hs
  cases hs with
  | done b k => exact hdone b k
  | bare hc k => exact hbare _ k hc
  | told hw hne hc k => exact htold _ _ k hw hne hc

theorem mono {first second : Walk α} (hs : Tells Works first second h)
    (hw : ∀ works, Works works → Works' works) : Tells Works' first second h :=
  hs.wrap id id rfl rfl .done (fun _ k hc => .bare hc k) fun works _ k hworks hne hc =>
    .told (hw works hworks) hne hc k

/-- A step that is run inside another one, which leaves failures alone. -/
theorem through {first second : Walk β} {first' second' : Walk α} {g : Held}
    (hs : Tells Works first second g) (finish : Except Error β × Held → Except Error α × Held)
    (back : Held → Held) (hfirst : first'.run.run h = finish (first.run.run g))
    (hsecond : second'.run.run h = finish (second.run.run g))
    (hok : ∀ b k, ∃ a, finish (.ok b, k) = (.ok a, back k))
    (herror : ∀ e k, finish (.error e, k) = (.error e, back k)) : Tells Works first' second' h := by
  refine hs.wrap finish finish hfirst hsecond ?_ ?_ ?_
  · intro b k
    obtain ⟨a, hf⟩ := hok b k
    rw [hf]
    exact .done a (back k)
  · intro cause k hc
    rw [herror]
    exact .bare hc (back k)
  · intro works cause k hw hne hc
    rw [herror, herror]
    exact .told hw hne hc (back k)

theorem holding {first second : Walk Unit} {c : ConfigurationClass}
    (hs : Tells Works first second { h with inHand := c }) :
    Tells Works (Walk.holding c first) (Walk.holding c second) h :=
  hs.through (fun ended => (ended.1.map fun _ => ended.2.inHand,
    { ended.2 with inHand := h.inHand }))
    (fun k => { k with inHand := h.inHand }) rfl rfl (fun _ _ => ⟨_, rfl⟩) fun _ _ => rfl

theorem goingThrough {first second : Walk Unit} {name : String}
    (hs : Tells Works first second { h with state := h.state.withImports (·.push name) }) :
    Tells Works (Walk.goingThrough name first) (Walk.goingThrough name second) h :=
  hs.through (fun ended => (ended.1, { ended.2 with state := ended.2.state.withImports (·.pop) }))
    (fun k => { k with state := k.state.withImports (·.pop) }) rfl rfl (fun _ _ => ⟨_, rfl⟩)
    fun _ _ => rfl

/-- The second step says of failures during which work they arose, and the first one says what comes
to the same. -/
theorem during {first second : Walk Unit} {work : String} {f : Error → Error}
    (hs : Tells Works first second h) (hbare : ∀ cause, cause.isStore = false →
      f cause = told [work] cause) (hone : Works' [work])
    (htold : ∀ works cause, Works works → works ≠ [] → cause.isStore = false →
      ∃ works', Works' works' ∧ works' ≠ [] ∧ f (told works cause) = told works' cause ∧
        wrapped works' cause = wrapped works cause) :
    Tells Works' (failingAs f first) (Walk.during work second) h := by
  refine hs.wrap (fun ended => (ended.1.mapError f, ended.2))
    (fun ended => (ended.1.mapError (Error.during work), ended.2)) rfl rfl
    (fun _ _ => .done _ _) ?_ ?_
  · intro cause k hc
    show Explains Works' (.error (f cause), k) (.error (cause.during work), k)
    rw [hbare cause hc, Error.during_of_not_isStore work hc]
    exact .told hone (List.cons_ne_nil _ _) hc k
  · intro works cause k hw hne hc
    obtain ⟨works', hw', hne', hf, hsame⟩ := htold works cause hw hne hc
    show Explains Works' (.error (f (told works cause)), k)
      (.error ((wrapped works cause).during work), k)
    rw [hf, Error.during_of_isStore work (Error.isStore_wrapped hne), ← hsame]
    exact .told hw' hne' hc k

/-- The first step says more of failures that some work is told of. -/
theorem more {first second : Walk Unit} {f : Error → Error} (hs : Tells Works first second h)
    (hbare : ∀ cause : Error, cause.isStore = false → f cause = cause)
    (htold : ∀ works cause, Works works → works ≠ [] →
      ∃ works', Works' works' ∧ works' ≠ [] ∧ f (told works cause) = told works' cause ∧
        wrapped works' cause = wrapped works cause) :
    Tells Works' (failingAs f first) second h := by
  refine hs.wrap (fun ended => (ended.1.mapError f, ended.2)) id rfl rfl
    (fun _ _ => .done _ _) ?_ ?_
  · intro cause k hc
    show Explains Works' (.error (f cause), k) (.error cause, k)
    rw [hbare cause hc]
    exact .bare hc k
  · intro works cause k hw hne hc
    obtain ⟨works', hw', hne', hf, hsame⟩ := htold works cause hw hne
    show Explains Works' (.error (f (told works cause)), k) (.error (wrapped works cause), k)
    rw [hf, ← hsame]
    exact .told hw' hne' hc k

end Tells

/-! ## Every piece of work -/

section Work

variable {ctx : Context} (hc : ctx.Declared)

/-- A step by a handler that tells all works, and the step by one that does not, while imports of
some classes may be named. -/
def telling (Works : List String → Prop) (Named : String → Prop)
    (hnamed : ∀ name, Named name → Works [importWork name]) : Pairing ctx where
  Rel := Tells Works
  Named := Named
  value a h := .done a h
  refused h hr := .bare (Error.isStore_of_isDirect (hr.isDirect hc)) h
  unparsed _ h := .bare rfl h
  next := .next
  inHand := id
  state := id
  modifyState {f h} _ := .done () { h with state := f h.state }
  registrars _ _ _ := .done () _
  modifyInHand f h := .done () { h with inHand := f h.inHand }
  holding := .holding
  goingThrough := .goingThrough
  during {name _ _ _} hn hs := by
    refine hs.during (fun cause hc => Error.during_of_not_isStore _ hc) (hnamed name hn) ?_
    intro works cause hw hne _
    exact ⟨works, hw, hne, Error.during_of_isStore _ (Error.isStore_told hne), rfl⟩

theorem tells_within? {c : ConfigurationClass} {v : Visit} {first second : Walk Unit} {h : Held}
    (hs : Tells OnImports first second h) : Tells (WorkOf c v) (within? c v first) second h := by
  cases v with
  | imports =>
    refine hs.more (fun _ hc => Error.within_of_not_isStore _ hc) ?_
    rintro works cause ⟨name, names, rfl⟩ hne
    exact ⟨_, ⟨name :: names, rfl⟩, List.cons_ne_nil _ _, Error.within_told _ hne,
      Error.wrapped_cons _ hne⟩
  | _ => exact hs

theorem tells_retold? {c : ConfigurationClass} {v : Visit} {first second : Walk Unit} {h : Held}
    (hs : Tells (WorkOf c v) first second h) : Tells (WorkOf c v) (retold? c v first) second h := by
  cases v with
  | imports =>
    refine hs.more (fun _ hc => Error.retold_of_not_isStore _ hc) ?_
    rintro works cause ⟨names, rfl⟩ hne
    exact ⟨_, ⟨names, rfl⟩, hne, rfl, rfl⟩
  | _ => exact hs

theorem run_visitTold_succ (n : Nat) (v : Visit) (h : Held) :
    (visitTold ctx (n + 1) v).run.run h =
      (retold? h.inHand v
        (perform ctx (fun v' => within? h.inHand v (visitTold ctx n v')) v)).run.run h := by
  rw [visitTold, run_bind]
  rfl

/-- Any imports may be named where none are gone through. -/
def tellingAny : Pairing ctx := telling hc OnImports (fun _ => True) fun name _ => ⟨name, [], rfl⟩

include hc

theorem tells_enter {first second : Visit → Walk Unit}
    (hv : ∀ v h, Tells OnImports (first v) (second v) h) (h : Held) :
    Tells OnImports (enter ctx first) (enter ctx second) h := by
  have hgather (h : Held) : Tells OnImports (gather first) (gather second) h := by
    refine (tellingAny hc).inHand ((tellingAny hc).after (hv _ h) fun _ h' => ?_)
    exact (tellingAny hc).inHand (.done () _)
  refine (tellingAny hc).inHand ((tellingAny hc).state ?_)
  refine (tellingAny hc).outcome (fun _ he => .condition he) fun skipped _ => ?_
  split
  · exact .done () h
  · split
    · exact hgather h
    · split
      · split
        · exact .done () _
        · exact .done () h
      · exact (tellingAny hc).after (.done () _) fun _ h' => hgather h'

theorem tells_visitTold (n : Nat) (v : Visit) (h : Held) :
    Tells (WorkOf h.inHand v) (visitTold ctx n v) (visit ctx n v) h := by
  induction n generalizing v h with
  | zero => exact .bare rfl h
  | succ n ih =>
    have hv (v' : Visit) (h' : Held) :
        Tells (WorkOf h.inHand v) (within? h.inHand v (visitTold ctx n v')) (visit ctx n v') h' :=
      tells_within? ((ih v' h').mono fun _ => onImports_of_workOf)
    unfold Tells
    rw [run_visitTold_succ]
    refine tells_retold? ?_
    cases v with
    | enter => exact tells_enter hc hv h
    | ascend source => exact (tellingAny hc).ascend hv source h
    | imports source names guarded =>
      -- while imports are gone through, only those of the class in hand are named
      let P := telling hc (WorkOn h.inHand.name) (· = h.inHand.name)
        fun _ hn => ⟨[], by rw [hn]; rfl⟩
      exact P.visitImports hv (steady_visit ctx n) source names guarded h rfl

/-! ## Whole walks -/

/-- The works of a walk from roots: on one of them, or on the imports of a class for which a
deferred one waits once all roots have been entered. -/
inductive OfWalk (ctx : Context) (s : WalkState) (roots : List (String × String)) :
    List String → Prop
  | root {root : String × String} (h : root ∈ roots) (names : List String) :
    OfWalk ctx s roots (rootWork root.2 :: names.map importWork)
  | settlement {u : Held} {d : DeferredImport} {works : List String}
    (hroots : (enterRootsBy ctx (visit ctx (depthBound ctx)) roots).run.run ⟨default, s⟩ =
      (.ok (), u))
    (hd : d ∈ u.state.deferred.begin.1) (hw : WorkOn d.importing.name works) :
    OfWalk ctx s roots works

theorem tells_enterRoot (beanName className : String) (h : Held) :
    Tells (fun works => ∃ names : List String, works = rootWork className :: names.map importWork)
      (failingAs (Error.store (rootWork className))
        (enterExplicit ctx (visitTold ctx (depthBound ctx)) className beanName))
      (enterRootBy ctx (visit ctx (depthBound ctx)) beanName className) h := by
  have hv (v : Visit) (h : Held) :
      Tells OnImports (visitTold ctx (depthBound ctx) v) (visit ctx (depthBound ctx) v) h :=
    (tells_visitTold hc _ v h).mono fun _ => onImports_of_workOf
  have hexplicit := (tellingAny hc).enterExplicit hv className beanName h
  refine Tells.during hexplicit (fun _ _ => rfl) ⟨[], rfl⟩ ?_
  rintro works cause ⟨name, names, rfl⟩ hne -
  exact ⟨_, ⟨name :: names, rfl⟩, List.cons_ne_nil _ _, rfl, Error.wrapped_cons _ hne⟩

theorem tells_settle (h : Held) :
    Tells (fun works => ∃ d ∈ h.state.deferred.begin.1, WorkOn d.importing.name works)
      (settleBy ctx (visitTold ctx (depthBound ctx)))
      (settleBy ctx (visit ctx (depthBound ctx))) h := by
  let ds := h.state.deferred.begin.1
  let P : Pairing ctx := telling hc (fun works => ∃ d ∈ ds, WorkOn d.importing.name works)
    (fun name => ∃ d ∈ ds, name = d.importing.name) (by
      rintro _ ⟨d, hd, rfl⟩
      exact ⟨d, hd, [], rfl⟩)
  have hdeferred : P.Rel (visitDeferred ctx (visitTold ctx (depthBound ctx)) false ds)
      (visitDeferred ctx (visit ctx (depthBound ctx)) false ds)
      ⟨h.inHand, { h.state with deferred := ⟨none⟩ }⟩ := by
    refine P.visitDeferred false ds _ (fun d hd => ⟨d, hd, rfl⟩) nofun ?_
    intro d hd names k g hk
    refine (tells_visitTold hc _ _ { g with inHand := k }).mono ?_
    intro works hworks
    refine ⟨d, hd, ?_⟩
    rw [← (WalkState.mem_of_stored? hk).2]
    exact hworks
  exact Tells.through hdeferred
    (fun ended => (ended.1, ⟨ended.2.inHand, { ended.2.state with deferred := .finish }⟩))
    (fun k => ⟨k.inHand, { k.state with deferred := .finish }⟩) rfl rfl (fun _ _ => ⟨_, rfl⟩)
    fun _ _ => rfl

theorem tells_fromRoots (s : WalkState) (roots : List (String × String)) :
    Tells (OfWalk ctx s roots) (fromRootsTold ctx roots) (fromRoots ctx roots) ⟨default, s⟩ := by
  let P : Pairing ctx := telling hc (OfWalk ctx s roots) (fun _ => False) fun _ => False.elim
  have hroots : P.Rel (enterRootsTold ctx roots)
      (enterRootsBy ctx (visit ctx (depthBound ctx)) roots) ⟨default, s⟩ := by
    refine P.forM ?_
    intro root hroot h
    refine (tells_enterRoot hc root.1 root.2 h).mono ?_
    rintro _ ⟨names, rfl⟩
    exact .root hroot names
  refine Tells.next hroots ((leads_run _ _).mono ?_ fun _ _ _ => trivial)
  intro _ u hrun
  refine (tells_settle hc u).mono ?_
  rintro works ⟨d, hd, hworks⟩
  exact .settlement hrun hd hworks

/-- A failure that says during which work it arose says the innermost of all that are told. -/
theorem parseTold_of_parse {s t : WalkState} {roots : List (String × String)} {e : Error}
    (h : s.parse ctx roots = (.error e, t)) (he : e.isStore = true) :
    ∃ works work cause, OfWalk ctx s roots (works ++ [work]) ∧ cause.isStore = false ∧
      e = .store work cause ∧
      s.parseTold ctx roots = (.error (told (works ++ [work]) cause), t) := by
  have htells := tells_fromRoots hc s roots
  unfold Tells at htells
  unfold WalkState.parse runWith at h
  unfold WalkState.parseTold runWith
  generalize (fromRootsTold ctx roots).run.run ⟨default, s⟩ = o at htells
  generalize (fromRoots ctx roots).run.run ⟨default, s⟩ = o' at htells h
  cases htells with
  | done => cases h
  | bare hc =>
    cases h
    rw [hc] at he
    cases he
  | @told works cause hw hne hc k =>
    cases h
    obtain ⟨before, work, rfl⟩ : ∃ before work, works = before ++ [work] :=
      ⟨_, _, (List.dropLast_append_getLast hne).symm⟩
    exact ⟨before, work, cause, hw, hc, Error.wrapped_concat before work cause, rfl⟩

end Work

/-! ## What is outside of all work -/

/-- Putting the deferred imports that wait into groups fails, or finding out what a group imports
once it is its turn. -/
inductive GroupingFails (ctx : Context) (u : Held) (e : Error) : Prop
  | groups (h : DeferredGroup.ofList ctx u.state.deferred.begin.1 = .error e)
  | entries {before after : List DeferredGroup} {g : DeferredGroup} {v : Held}
    (hgroups : DeferredGroup.ofList ctx u.state.deferred.begin.1 = .ok (before ++ g :: after))
    (hbefore : (before.forM (visitGroup (visit ctx (depthBound ctx)) false)).run.run
      ⟨u.inHand, { u.state with deferred := ⟨none⟩ }⟩ = (.ok (), v))
    (h : g.entries v.state.environment = .error e)

section Grouping

variable {ctx : Context} {u : Held} {e : Error}

theorem run_forM_append {β : Type} {before after : List β} {f : β → Walk Unit} {h v : Held}
    (hbefore : (before.forM f).run.run h = (.ok (), v)) :
    ((before ++ after).forM f).run.run h = (after.forM f).run.run v := by
  rw [List.forM_eq_forM] at hbefore ⊢
  rw [List.forM_append, run_bind, hbefore]

/-- A failure of settling says during which work it arose, or it is one of the grouping. -/
theorem leads_settlementBy_grouping (ctx : Context) (u : Held) :
    Leads (settlementBy ctx (visit ctx (depthBound ctx))) u (fun _ _ => True)
      fun e _ => e.isStore = true ∨ GroupingFails ctx u e := by
  rw [leads_settlementBy]
  unfold visitDeferred
  split
  · trivial
  rw [leads_bind, leads_ofExcept]
  refine ⟨fun groups hgroups => ?_, fun e he => .inr (.groups he)⟩
  let begun : Held := ⟨u.inHand, { u.state with deferred := ⟨none⟩ }⟩
  let group := visitGroup (visit ctx (depthBound ctx)) false
  -- the groups that have had their turn are done
  refine (Leads.forM (fun rest v => ∃ before, groups = before ++ rest ∧
    (before.forM group).run.run begun = (.ok (), v)) ⟨[], rfl, rfl⟩ ?_).imp fun _ _ _ => trivial
  rintro g rest v - ⟨before, hsplit, hbefore⟩
  have hentries : Leads (group g) v (fun _ _ => True)
      fun e _ => e.isStore = true ∨ GroupingFails ctx u e := by
    show Leads (visitGroup _ false g) v _ _
    unfold visitGroup
    rw [leads_bind, leads_state, leads_bind, leads_ofExcept]
    refine ⟨fun entries _ => ?_, fun e he => .inr (.entries (hsplit ▸ hgroups) hbefore he)⟩
    refine Leads.forM (fun _ _ => True) trivial fun entry _ v' _ _ => ?_
    unfold visitDeferredEntry
    rw [leads_bind, leads_inHand, leads_during]
    exact leads_of_forall (fun _ _ => trivial) fun e _ => .inl (Error.isStore_during _ e)
  refine (hentries.and (leads_run (group g) v)).mono ?_ fun _ _ hf => hf.1
  rintro ⟨⟩ v' ⟨-, hrun⟩
  refine ⟨before ++ [g], by rw [hsplit, List.append_assoc]; rfl, ?_⟩
  rw [run_forM_append hbefore]
  show (group g >>= fun _ => pure ()).run.run v = _
  rw [run_bind, hrun]
  rfl

/-- A settlement comes to what is outside of all work, and fails with it. -/
theorem GroupingFails.leads (h : GroupingFails ctx u e) :
    Leads (settlementBy ctx (visit ctx (depthBound ctx))) u (fun _ _ => False)
      fun e' _ => e' = e := by
  rw [leads_settlementBy]
  unfold visitDeferred
  split
  next hempty =>
    have hnone : DeferredGroup.ofList ctx u.state.deferred.begin.1 = .ok [] := by
      rw [List.isEmpty_iff.1 hempty]
      rfl
    cases h with
    | groups h => exact absurd (hnone.symm.trans h) nofun
    | entries hgroups =>
      have happend := Except.ok.inj (hgroups.symm.trans hnone)
      exact absurd happend (List.append_ne_nil_of_right_ne_nil _ (List.cons_ne_nil _ _))
  rw [leads_bind, leads_ofExcept]
  cases h with
  | groups h =>
    rw [h]
    exact ⟨nofun, fun e' he => (Except.error.inj he).symm⟩
  | entries hgroups hbefore h =>
    rw [hgroups]
    refine ⟨?_, nofun⟩
    rintro _ ⟨⟩
    unfold Leads
    rw [run_forM_append hbefore, List.forM_eq_forM, List.forM_cons]
    refine leads_bind.2 ?_
    unfold visitGroup
    rw [leads_bind, leads_state, leads_bind, leads_ofExcept, h]
    exact ⟨nofun, fun e' he => (Except.error.inj he).symm⟩

theorem leads_enterRootsBy_store (ctx : Context) (visit : Visit → Walk Unit)
    (roots : List (String × String)) (h : Held) :
    Leads (enterRootsBy ctx visit roots) h (fun _ _ => True) fun e _ => e.isStore = true := by
  refine Leads.forM (fun _ _ => True) trivial fun root _ h' _ _ => ?_
  unfold enterRootBy
  rw [leads_during]
  exact leads_of_forall (fun _ _ => trivial) fun e _ => Error.isStore_during _ e

theorem GroupingFails.isStore (hc : ctx.Declared) (h : GroupingFails ctx u e) :
    e.isStore = false := by
  refine Error.isStore_of_isDirect (Error.isDirect_of_isOwn ?_)
  cases h with
  | groups h => exact failsDirectly_ofList hc _ _ h
  | entries _ _ h => exact failsDirectly_entries _ _ _ h

end Grouping

/-- A walk that fails says during which work it did: the innermost of all that are told. What it
says it of is a cause that no work is told of. Only where the deferred imports that wait cannot be
grouped, once all roots have been entered, the walk fails without saying so, and it does whenever
they cannot. -/
theorem parse_wraps {d : Descriptor} {directory : String} {files : FileTree}
    {exported : Table String} {ctx : Context} {w : World}
    (h : Context.ofDescriptor d directory files exported = .ok (ctx, w)) (s : WalkState)
    (roots : List (String × String)) :
    (∀ e t, s.parse ctx roots = (.error e, t) →
      (∃ works work cause, OfWalk ctx s roots (works ++ [work]) ∧ cause.isStore = false ∧
        e = .store work cause ∧
        s.parseTold ctx roots = (.error (told (works ++ [work]) cause), t)) ∨
      ∃ u, (enterRootsBy ctx (visit ctx (depthBound ctx)) roots).run.run ⟨default, s⟩ =
          (.ok (), u) ∧
        GroupingFails ctx u e) ∧
    ∀ u e, (enterRootsBy ctx (visit ctx (depthBound ctx)) roots).run.run ⟨default, s⟩ =
        (.ok (), u) →
      GroupingFails ctx u e → (s.parse ctx roots).1 = .error e ∧ e.isStore = false := by
  have hc := Context.declared_of_ofDescriptor h
  constructor
  · intro e t hp
    by_cases he : e.isStore = true
    · exact .inl (parseTold_of_parse hc hp he)
    rcases parse_eq_iff.1 hp with ⟨_, u, hrun, ⟨⟩, -⟩ | ⟨u, v, hrun, hsettled, -⟩
    · have hroots := leads_enterRootsBy_store ctx (visit ctx (depthBound ctx)) roots ⟨default, s⟩
      unfold Leads at hroots
      rw [hrun] at hroots
      exact absurd hroots he
    · have hsettle := leads_settlementBy_grouping ctx u
      unfold Leads at hsettle
      rw [hsettled] at hsettle
      exact .inr ⟨u, hrun, hsettle.resolve_left he⟩
  · intro u e hrun hg
    refine ⟨?_, hg.isStore hc⟩
    have hleads := hg.leads
    unfold Leads at hleads
    rcases hsettled : (settlementBy ctx (visit ctx (depthBound ctx))).run.run u with ⟨e' | _, v⟩
    · rw [hsettled] at hleads
      subst hleads
      rw [parse_eq_iff.2 (.inr ⟨u, v, hrun, hsettled, rfl⟩)]
    · rw [hsettled] at hleads
      exact hleads.elim

/-- Imports within imports, of which the innermost names a class that there is not. -/
def missing : Descriptor :=
  { classes :=
      [{ name := "App", marks := { declared := [.naming AnnotationType.importing ["Next"]] } },
        { name := "Next", marks := { declared := [.naming AnnotationType.importing ["Gone"]] } }] }

/-- The class that there is not is reported with the imports that name it. They are part of the work
on the imports of the root, and on the root. -/
theorem parse_wraps_missing : ∃ ctx w,
    Context.ofDescriptor missing "." { workingDirectory := [], files := [] } Table.empty =
      .ok (ctx, w) ∧
    (({ world := w } : WalkState).parse ctx [("app", "App")]).1 =
      .error (.store (importWork "Next") (.classNotFound "Gone")) ∧
    (({ world := w } : WalkState).parseTold ctx [("app", "App")]).1 =
      .error (told [rootWork "App", importWork "App", importWork "Next"] (.classNotFound "Gone")) ∧
    (∀ e t, ({ world := w } : WalkState).parse ctx [("app", "App")] = (.error e, t) →
      (∃ works work cause, OfWalk ctx { world := w } [("app", "App")] (works ++ [work]) ∧
        cause.isStore = false ∧ e = .store work cause ∧
        ({ world := w } : WalkState).parseTold ctx [("app", "App")] =
          (.error (told (works ++ [work]) cause), t)) ∨
      ∃ u, (enterRootsBy ctx (visit ctx (depthBound ctx)) [("app", "App")]).run.run
          ⟨default, { world := w }⟩ = (.ok (), u) ∧
        GroupingFails ctx u e) ∧
    ∀ u e, (enterRootsBy ctx (visit ctx (depthBound ctx)) [("app", "App")]).run.run
        ⟨default, { world := w }⟩ = (.ok (), u) →
      GroupingFails ctx u e →
      (({ world := w } : WalkState).parse ctx [("app", "App")]).1 = .error e ∧
        e.isStore = false := by
  have h : Context.ofDescriptor missing "." { workingDirectory := [], files := [] } Table.empty =
    .ok (_, _) := rfl
  refine ⟨_, _, h, ?_, ?_, parse_wraps h _ [("app", "App")]⟩
  · decide +kernel
  · decide +kernel

/-- A class with a deferred import that names a group that there is not. -/
def ungrouped : Descriptor :=
  { classes :=
      [{ name := "App",
         marks :=
          { declared :=
              [.naming AnnotationType.configuration [],
                .naming AnnotationType.importing ["Later"]] } }]
    plugins := [.deferredSelector "Later" [] (some "Nobody") none false] }

/-- The group that there is not makes the walk fail. It does not say during which work it did, nor
for which class. -/
theorem parse_bare_group : ∃ ctx w,
    Context.ofDescriptor ungrouped "." { workingDirectory := [], files := [] } Table.empty =
      .ok (ctx, w) ∧
    (({ world := w } : WalkState).parse ctx [("app", "App")]).1 =
      .error (.classNotFound "Nobody") ∧
    ¬ ∃ work cause, (({ world := w } : WalkState).parse ctx [("app", "App")]).1 =
      .error (.store work cause) := by
  have h : Context.ofDescriptor ungrouped "." { workingDirectory := [], files := [] } Table.empty =
    .ok (_, _) := rfl
  have hbare {outcome : Except Error Unit} (ho : outcome = .error (.classNotFound "Nobody")) :
      outcome = .error (.classNotFound "Nobody") ∧
        ¬ ∃ work cause, outcome = .error (.store work cause) := by
    subst ho
    exact ⟨rfl, fun ⟨_, _, hstore⟩ => nomatch hstore⟩
  exact ⟨_, _, h, hbare (by decide +kernel)⟩

end Walk

end Wiring
