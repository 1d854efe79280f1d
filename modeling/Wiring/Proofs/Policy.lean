import Wiring.Command
import Wiring.Proofs.Failure
import Wiring.Proofs.Passes
import Wiring.Proofs.Walk.Notices

/-!
# Strict and lenient resolutions

The policy decides whether a problem ends a resolution, and nothing else depends on it: a strict and
a lenient resolution go through the same states up to the pass in which the first problem is found.
There the strict one stops with this problem, and the lenient one keeps it in front of all that
follow.
-/

namespace Wiring

namespace Context

/-- The context with another policy. -/
def withPolicy (ctx : Context) (policy : ProblemPolicy) : Context :=
  { ctx with settings := { ctx.settings with problemPolicy := policy } }

end Context

namespace Descriptor

/-- The descriptor with another policy. -/
def withPolicy (d : Descriptor) (policy : ProblemPolicy) : Descriptor :=
  { d with settings := { d.settings with problemPolicy := policy } }

end Descriptor

/-! ## What does not depend on the policy -/

section Independent

variable (ctx : Context) (policy : ProblemPolicy)

theorem SourceMerger.processLocations_withPolicy (declaring : String) (d : SourceDirective)
    (m : SourceMerger) (env : Environment) (locations : List String) :
    processLocations (ctx.withPolicy policy) declaring d m env locations =
      processLocations ctx declaring d m env locations := by
  induction locations generalizing m env with
  | nil => rfl
  | cons location rest ih =>
    unfold processLocations
    simp only [ih]
    rfl

theorem SourceMerger.process_withPolicy :
    SourceMerger.process (ctx.withPolicy policy) = SourceMerger.process ctx := by
  funext m env declaring d
  unfold process
  rw [processLocations_withPolicy]
  rfl

namespace Walk

theorem ascend_withPolicy (visit : Visit → Walk Unit) (source : ClassDecl) :
    ascend (ctx.withPolicy policy) visit source = ascend ctx visit source := by
  have hsources : visitPropertySources (ctx.withPolicy policy) source =
      visitPropertySources ctx source := by
    unfold visitPropertySources
    rw [SourceMerger.process_withPolicy]
  unfold ascend
  rw [hsources]
  rfl

theorem visit_withPolicy (n : Nat) : visit (ctx.withPolicy policy) n = visit ctx n := by
  induction n with
  | zero => rfl
  | succ n ih =>
    funext v
    show perform (ctx.withPolicy policy) (visit (ctx.withPolicy policy) n) v =
      perform ctx (visit ctx n) v
    rw [ih]
    cases v with
    | enter => rfl
    | ascend source => exact ascend_withPolicy ctx policy _ source
    | imports source names guarded => rfl

end Walk

theorem WalkState.parse_withPolicy (s : WalkState) (roots : List (String × String)) :
    s.parse (ctx.withPolicy policy) roots = s.parse ctx roots := by
  unfold parse Walk.fromRoots Walk.enterRoot Walk.settle
  rw [show Walk.depthBound (ctx.withPolicy policy) = Walk.depthBound ctx from rfl,
    Walk.visit_withPolicy]
  rfl

theorem Load.skips_withPolicy (env : Environment) (known : List ConfigurationClass) (bound : Nat) :
    skips (ctx.withPolicy policy) env known bound = skips ctx env known bound := by
  induction bound with
  | zero => rfl
  | succ bound ih =>
    funext c
    unfold skips
    rw [ih]
    rfl

theorem World.load_withPolicy (w : World) (batch known : List ConfigurationClass) :
    w.load (ctx.withPolicy policy) batch known = w.load ctx batch known := by
  have hclass (env : Environment) (c : ConfigurationClass) :
      Load.loadClass (ctx.withPolicy policy) env known c = Load.loadClass ctx env known c := by
    unfold Load.loadClass
    rw [Load.skips_withPolicy]
    rfl
  unfold load
  rw [funext (hclass w.environment)]

theorem Context.ofDescriptor_withPolicy (d : Descriptor) (directory : String) (files : FileTree)
    (exported : Table String) :
    ofDescriptor (d.withPolicy policy) directory files exported =
      (ofDescriptor d directory files exported).map fun (ctx, w) => (ctx.withPolicy policy, w) := by
  show (do
    let registry ← registerRoots d
    pure _) = Except.map _ (do
    let registry ← registerRoots d
    pure _)
  rcases registerRoots d with _ | registry <;> rfl

end Independent

/-! ## Passes -/

namespace WalkState

theorem extends_validate (s : WalkState) : s.diagnostics.Extends s.validate.diagnostics := by
  unfold validate
  refine List.foldlRecOn (motive := fun (t : WalkState) =>
    s.diagnostics.Extends t.diagnostics) _ _ (.refl _) fun t ht c _ => ?_
  split
  · exact ht
  · exact ht.trans (.reportAll _ _)

/-- The state once all problems have been looked for and enforced, under whichever policy. -/
def checked (s : WalkState) : WalkState :=
  { s.validate with
    diagnostics :=
      { s.validate.diagnostics with enforced := s.validate.diagnostics.problems.length } }

end WalkState

namespace Passes

variable {ctx : Context} {load : Loader} {p : Passes} {found : List Start} {walk : WalkState}

/-- What a pass does once its problems have been enforced: it loads what the walk has stored anew,
and looks for the starts of the next pass. -/
def conclude (reader : Reader) (load : Loader) (p : Passes) (walk : WalkState) :
    Except Error (List Start) × Passes :=
  let (report, world) := load walk.world (p.batch walk) walk.classes
  let batches := p.batches ++
    [(⟨(p.batch walk).map (·.name), walk.classes.map (·.name)⟩ : Batch)]
  let walk := { walk with world }
  match report with
  | .error e => (.error e, { p with walk, batches })
  | .ok report =>
    let loaded := p.loaded ++ (p.batch walk).map ConfigurationClass.name
    let walk := walk.withImports fun log => report.skippedClasses.foldl ImportLog.forget log
    let p : Passes := { p with walk, batches, loaded }
    let (found, registry) := p.next reader walk.registry
    (.ok found, { p with walk := walk.withRegistry registry, names := registry.names })

theorem pass_of_parse_error {e : Error} (h : p.walk.parse ctx (roots found) = (.error e, walk)) :
    pass ctx load p found = (.error e, { p with walk }) := by
  unfold roots at h
  unfold pass
  rw [h]

theorem pass_of_parse_ok (h : p.walk.parse ctx (roots found) = (.ok (), walk)) :
    pass ctx load p found =
      match Diagnostics.verdict ctx.settings.problemPolicy walk.validate.diagnostics.fresh with
      | .error e => (.error e, { p with walk := walk.checked })
      | .ok () => p.conclude ctx.reader load walk.checked := by
  unfold roots at h
  unfold pass
  rw [h]
  rfl

theorem diagnostics_conclude (reader : Reader) (load : Loader) (p : Passes) (walk : WalkState) :
    (p.conclude reader load walk).2.walk.diagnostics = walk.diagnostics := by
  unfold conclude
  rcases load walk.world (p.batch walk) walk.classes with ⟨_ | report, world⟩
  · rfl
  · rfl

/-- The problems that were found before a pass stay in front. -/
theorem problems_isPrefix_of_pass {outcome : Except Error (List Start)} {p' : Passes}
    (h : pass ctx load p found = (outcome, p')) :
    p.walk.diagnostics.problems <+: p'.walk.diagnostics.problems := by
  have hparse := (Walk.extends_of_parse ctx p.walk (roots found)).problems
  rcases hp : p.walk.parse ctx (roots found) with ⟨_ | _, walk⟩
  all_goals rw [hp] at hparse
  · rw [pass_of_parse_error hp] at h
    cases h
    exact hparse
  have hchecked : p.walk.diagnostics.problems <+: walk.checked.diagnostics.problems :=
    hparse.trans walk.extends_validate.problems
  rw [pass_of_parse_ok hp] at h
  split at h
  · cases h
    exact hchecked
  · rw [show p' = _ from (congrArg Prod.snd h).symm, diagnostics_conclude]
    exact hchecked

theorem problems_isPrefix_of_run {bound : Nat} {outcome : Except Error Unit} {p' : Passes}
    (h : run ctx load bound p found = (outcome, p')) :
    p.walk.diagnostics.problems <+: p'.walk.diagnostics.problems := by
  induction bound generalizing p found with
  | zero => cases found <;> cases h <;> exact List.prefix_refl _
  | succ bound ih =>
    cases found with
    | nil => cases h; exact List.prefix_refl _
    | cons s rest =>
      unfold run at h
      rcases hpass : pass ctx load p (s :: rest) with ⟨_ | found', p₁⟩
      all_goals rw [hpass] at h
      · cases h
        exact problems_isPrefix_of_pass hpass
      · exact (problems_isPrefix_of_pass hpass).trans (ih h)

/-! ## Two policies -/

/-- How what a strict resolution comes to goes with what a lenient one comes to. -/
inductive Agree {α : Type} : Except Error α × Passes → Except Error α × Passes → Prop
  /-- They are the same, and no problem has been found if they have come to an end. -/
  | same {outcome : Except Error α} {p : Passes}
    (h : ∀ a, outcome = .ok a → p.walk.diagnostics = {}) : Agree (outcome, p) (outcome, p)
  /-- The strict one has stopped with the first problem that the lenient one has found. -/
  | stopped {outcome : Except Error α} {p p' : Passes} {q : Problem} {rest : List Problem}
    (h : p'.walk.diagnostics.problems = q :: rest) : Agree (.error q.toError, p) (outcome, p')

section Agree

variable (ctx : Context) (load : Loader)

/-- Where no problem has been found yet, a pass comes to the same under both policies unless it
finds one. -/
theorem agree_pass (p : Passes) (found : List Start) (hp : p.walk.diagnostics = {}) :
    Agree (pass (ctx.withPolicy .failFast) load p found)
      (pass (ctx.withPolicy .lenient) load p found) := by
  have hparse := Walk.extends_of_parse ctx p.walk (roots found)
  have heq (policy : ProblemPolicy) :
      p.walk.parse (ctx.withPolicy policy) (roots found) = p.walk.parse ctx (roots found) :=
    p.walk.parse_withPolicy ctx policy _
  rcases h : p.walk.parse ctx (roots found) with ⟨e | _, walk⟩
  · rw [pass_of_parse_error ((heq _).trans h), pass_of_parse_error ((heq _).trans h)]
    exact .same nofun
  rw [pass_of_parse_ok ((heq _).trans h), pass_of_parse_ok ((heq _).trans h)]
  rw [h] at hparse
  have hfresh : walk.validate.diagnostics.fresh = walk.validate.diagnostics.problems := by
    unfold Diagnostics.fresh
    rw [walk.extends_validate.enforced, hparse.enforced, hp]
    rfl
  have hchecked : walk.checked.diagnostics =
    { problems := walk.validate.diagnostics.problems
      enforced := walk.validate.diagnostics.problems.length } := rfl
  have hlenient : Diagnostics.verdict (ctx.withPolicy .lenient).settings.problemPolicy
      walk.validate.diagnostics.fresh = .ok () := Diagnostics.verdict_lenient _
  have hconclude := p.diagnostics_conclude ctx.reader load walk.checked
  rw [hlenient, hfresh]
  rw [hchecked] at hconclude
  rcases hproblems : walk.validate.diagnostics.problems with _ | ⟨q, rest⟩
  all_goals rw [hproblems] at hconclude
  · exact .same fun _ _ => hconclude
  · exact .stopped (congrArg Diagnostics.problems hconclude)

theorem agree_run (bound : Nat) (p : Passes) (found : List Start) (hp : p.walk.diagnostics = {}) :
    Agree (run (ctx.withPolicy .failFast) load bound p found)
      (run (ctx.withPolicy .lenient) load bound p found) := by
  induction bound generalizing p found with
  | zero =>
    cases found with
    | nil => exact .same fun _ _ => hp
    | cons s rest => exact .same fun _ h => by cases h
  | succ bound ih =>
    cases found with
    | nil => exact .same fun _ _ => hp
    | cons s rest =>
      have hpass := agree_pass ctx load p (s :: rest) hp
      unfold run
      generalize pass (ctx.withPolicy .failFast) load p (s :: rest) = strict at hpass ⊢
      generalize pass (ctx.withPolicy .lenient) load p (s :: rest) = lenient at hpass ⊢
      cases hpass with
      | @same outcome p' hsilent =>
        cases outcome with
        | error e => exact .same fun _ h => by cases h
        | ok found' => exact ih p' found' (hsilent found' rfl)
      | @stopped outcome _ p' q rest hq =>
        cases outcome with
        | error e => exact .stopped hq
        | ok found' =>
          -- what the lenient one finds further stands behind the first problem
          rcases hrun : run (ctx.withPolicy .lenient) load bound p' found' with ⟨outcome, p₁⟩
          obtain ⟨further, hfurther⟩ := problems_isPrefix_of_run hrun
          rw [hq, List.cons_append] at hfurther
          show Agree _ (run (ctx.withPolicy .lenient) load bound p' found')
          rw [hrun]
          exact .stopped hfurther.symm

end Agree

end Passes

namespace World

theorem agree_passes (w : World) (ctx : Context) :
    Passes.Agree (w.passes (ctx.withPolicy .failFast) fun w => w.load (ctx.withPolicy .failFast))
      (w.passes (ctx.withPolicy .lenient) fun w => w.load (ctx.withPolicy .lenient)) := by
  have hload (policy : ProblemPolicy) :
      (fun w : World => w.load (ctx.withPolicy policy)) = fun w => w.load ctx :=
    funext fun w => funext fun batch => funext fun known => load_withPolicy ctx policy w batch known
  rw [hload, hload]
  unfold passes
  exact Passes.agree_run ctx _ _ _ _ rfl

end World

namespace Descriptor

/-- What a lenient resolution comes to, and what the strict one comes to then. -/
inductive Strictly : Except Error Resolution → Except Error Resolution → Prop
  | failed (e e' : Error) : Strictly (.error e) (.error e')
  | silent {r : Resolution} (h : r.model.problems = []) : Strictly (.ok r) (.ok r)
  | stopped {r : Resolution} {q : Problem} {rest : List Problem}
    (h : r.model.problems = q :: rest) :
    Strictly (.ok r) (.error q.toError)

theorem strictly_resolve (d : Descriptor) (directory : String) (files : FileTree)
    (exported : Table String) :
    Strictly ((d.withPolicy .lenient).resolve directory files exported)
      ((d.withPolicy .failFast).resolve directory files exported) := by
  unfold resolve
  rw [Context.ofDescriptor_withPolicy, Context.ofDescriptor_withPolicy]
  rcases Context.ofDescriptor d directory files exported with e | ⟨ctx, w⟩
  · exact .failed e e
  have hagree := w.agree_passes ctx
  simp only [Except.map, bind, Except.bind, World.resolve]
  generalize w.passes (ctx.withPolicy .failFast) _ = strict at hagree ⊢
  generalize w.passes (ctx.withPolicy .lenient) _ = lenient at hagree ⊢
  cases hagree with
  | @same outcome p hsilent =>
    cases outcome with
    | error e => exact .failed e e
    | ok => exact .silent (congrArg Diagnostics.problems (hsilent () rfl))
  | @stopped outcome p p' q rest hq =>
    cases outcome with
    | error e => exact .failed e q.toError
    | ok => exact .stopped hq

end Descriptor

/-- Validation succeeds where a descriptor can be read and its lenient resolution finds no problem.
-/
theorem Task.exitCode_validation {s : Surroundings} {style : Report.Style} {path : String} :
    (validation s style path).exitCode = 0 ↔ ∃ d r, Descriptor.ofFile s.files path = .ok d ∧
      (d.withPolicy .lenient).resolve (FileTree.parent path) s.files s.exported = .ok r ∧
      r.model.problems = [] := by
  unfold validation load
  rcases Descriptor.ofFile s.files path with e | d
  · simp [Answer.failure]
  simp only [Except.ok.injEq, exists_and_left, exists_eq_left', if_true]
  rw [show { d with settings := { d.settings with problemPolicy := .lenient } } =
    d.withPolicy .lenient from rfl]
  rcases (d.withPolicy .lenient).resolve (FileTree.parent path) s.files s.exported with e | r
  · simp [Answer.failure]
  rcases hproblems : r.model.problems with _ | ⟨q, rest⟩
  · simp [Answer.success, hproblems]
  · simp [Answer.failure, hproblems]

/-- A lenient resolution without problems is what the strict one comes to, and the other way round;
from one with problems the strict one is the failure with the first of them. So validation succeeds
exactly where a strict resolution does. -/
theorem Descriptor.resolve_policies :
    (∀ (d : Descriptor) (directory : String) (files : FileTree) (exported : Table String),
      (∀ r, (d.withPolicy .lenient).resolve directory files exported = .ok r →
        r.model.problems = [] →
          (d.withPolicy .failFast).resolve directory files exported = .ok r) ∧
      (∀ r p rest, (d.withPolicy .lenient).resolve directory files exported = .ok r →
        r.model.problems = p :: rest →
          (d.withPolicy .failFast).resolve directory files exported = .error p.toError) ∧
      ∀ r, (d.withPolicy .failFast).resolve directory files exported = .ok r →
        (d.withPolicy .lenient).resolve directory files exported = .ok r ∧
          r.model.problems = []) ∧
    ∀ (s : Surroundings) (style : Report.Style) (path : String),
      ((Task.validate path).run s style).exitCode = 0 ↔
        ∃ d r, Descriptor.ofFile s.files path = .ok d ∧
          (d.withPolicy .failFast).resolve (FileTree.parent path) s.files s.exported = .ok r := by
  refine ⟨fun d directory files exported => ?_, fun s style path => ?_⟩
  · have h := d.strictly_resolve directory files exported
    generalize (d.withPolicy .lenient).resolve directory files exported = lenient at h ⊢
    generalize (d.withPolicy .failFast).resolve directory files exported = strict at h ⊢
    cases h with
    | failed e e' => exact ⟨nofun, nofun, nofun⟩
    | silent hsilent =>
      refine ⟨fun r hr _ => hr, fun r q rest hr hq => ?_, fun r hr => ⟨hr, ?_⟩⟩
      · cases hr
        rw [hsilent] at hq
        cases hq
      · cases hr
        exact hsilent
    | stopped hstopped =>
      refine ⟨fun r hr hnone => ?_, fun r q rest hr hq => ?_, nofun⟩
      · cases hr
        rw [hstopped] at hnone
        cases hnone
      · cases hr
        rw [hstopped] at hq
        cases hq
        rfl
  · show (Task.validation s style path).exitCode = 0 ↔ _
    rw [Task.exitCode_validation]
    refine exists_congr fun d => ?_
    have h := d.strictly_resolve (FileTree.parent path) s.files s.exported
    generalize (d.withPolicy .lenient).resolve _ s.files s.exported = lenient at h ⊢
    generalize (d.withPolicy .failFast).resolve _ s.files s.exported = strict at h ⊢
    cases h with
    | failed e e' => simp
    | silent hsilent => simp [hsilent]
    | stopped hstopped => simp [hstopped]

/-- A class that may not be final, which only the second pass comes to. -/
def Descriptor.afterthought : Descriptor :=
  { roots := [.ofClass "App"]
    classes :=
      [{ name := "App",
          marks :=
            { declared :=
                [.naming AnnotationType.configuration [],
                  .naming AnnotationType.importing ["Bring"]] } },
        { name := "Late", isFinal := true,
          marks := { declared := [.naming AnnotationType.configuration []] } }]
    plugins := [.registrar "Bring" [("late", "Late")]] }

theorem Descriptor.resolve_policies_afterthought : ∃ r q,
    (afterthought.withPolicy .lenient).resolve "." { workingDirectory := [], files := [] }
      Table.empty = .ok r ∧
    r.model.classNames = ["App", "Late"] ∧ r.model.problems = [q] ∧
    (afterthought.withPolicy .failFast).resolve "." { workingDirectory := [], files := [] }
      Table.empty = .error q.toError := by
  have hfound : ((afterthought.withPolicy .lenient).resolve "."
      { workingDirectory := [], files := [] } Table.empty).toOption.map
        (fun r => (r.model.classNames, r.model.problems.length)) = some (["App", "Late"], 1) := by
    decide +kernel
  obtain ⟨r, hr, he⟩ := Option.map_eq_some_iff.1 hfound
  obtain ⟨hnames, hlength⟩ := Prod.mk.inj he
  obtain ⟨q, hq⟩ := List.length_eq_one_iff.1 hlength
  have hlenient : (afterthought.withPolicy .lenient).resolve "."
      { workingDirectory := [], files := [] } Table.empty = .ok r := by
    revert hr
    cases (afterthought.withPolicy .lenient).resolve "."
      { workingDirectory := [], files := [] } Table.empty with
    | error e => nofun
    | ok r' => exact fun hr => congrArg _ (Option.some.inj hr)
  exact ⟨r, q, hlenient, hnames, hq, (resolve_policies.1 _ _ _ _).2.1 r q [] hlenient hq⟩

end Wiring
