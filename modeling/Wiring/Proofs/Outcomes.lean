import Wiring.Proofs.Batches
import Wiring.Proofs.Loading

/-!
# Which classes are loaded and which are skipped

Loading goes through a batch, and each class of it is skipped or brings its definitions. A class is
in one batch of a resolution only, so it is settled once for the whole resolution whether it is
skipped.
-/

open Relation (ReflTransGen)

namespace Wiring

/-! ## Batches -/

namespace Load

variable {ctx : Context} {r r' : Registry}

/-- Classes have been loaded one after the other, those with `true` by skipping them, and have made
one registry out of another. -/
inductive Loaded (ctx : Context) : Registry → List (ConfigurationClass × Bool) → Registry → Prop
  | nil (r : Registry) : Loaded ctx r [] r
  | skipped {c done r r'} : Loaded ctx (r.leaveOut c) done r' → Loaded ctx r ((c, true) :: done) r'
  | brought {c done r r₁ r'} : ReflTransGen (Brings ctx c) r r₁ → HasMethods c r₁ →
      Loaded ctx r₁ done r' → Loaded ctx r ((c, false) :: done) r'

theorem Loaded.split {before after : List (ConfigurationClass × Bool)}
    (h : Loaded ctx r (before ++ after) r') :
    ∃ r₁, Loaded ctx r before r₁ ∧ Loaded ctx r₁ after r' := by
  induction before generalizing r with
  | nil => exact ⟨r, .nil r, h⟩
  | cons e before ih =>
    cases h with
    | skipped h =>
      obtain ⟨r₁, hb, ha⟩ := ih h
      exact ⟨r₁, .skipped hb, ha⟩
    | brought hbrings hmethods h =>
      obtain ⟨r₁, hb, ha⟩ := ih h
      exact ⟨r₁, .brought hbrings hmethods hb, ha⟩

theorem leads_loadBatch (ctx : Context) (env : Environment) (known batch : List ConfigurationClass)
    (s : LoadState) :
    Leads (batch.forM (loadClass ctx env known)) s
      (fun _ s' => ∃ done, done.map (·.1) = batch ∧
        s'.report.skippedClasses =
          s.report.skippedClasses ++ (done.filter (·.2)).map (·.1.name) ∧
        Loaded ctx s.registry done s'.registry) fun _ _ => True := by
  induction batch generalizing s with
  | nil => exact ⟨[], rfl, (List.append_nil _).symm, .nil _⟩
  | cons c rest ih =>
    rw [List.forM_eq_forM, List.forM_cons, leads_bind]
    refine leads_loadClass ((leads_skips_decides _ c s).imp fun skipped s₁ hdecides => ?_)
    obtain ⟨hregistry, hreport⟩ := hdecides
    constructor
    · intro _
      refine (ih (s₁.skip c)).imp fun _ s' hs' => ?_
      obtain ⟨done, hbatch, hskipped, hloaded⟩ := hs'
      refine ⟨(c, true) :: done, by rw [List.map_cons, hbatch], ?_, .skipped ?_⟩
      · rw [hskipped]
        show s₁.report.skippedClasses ++ [c.name] ++ _ = _
        rw [hreport, List.append_assoc]
        rfl
      · rw [← hregistry]
        exact hloaded
    · intro _ s₂ hbrought hmethods
      refine (ih s₂).imp fun _ s' hs' => ?_
      obtain ⟨done, hbatch, hskipped, hloaded⟩ := hs'
      refine ⟨(c, false) :: done, by rw [List.map_cons, hbatch], ?_, ?_⟩
      · rw [hskipped, hbrought.skipped, hreport]
        rfl
      · rw [← hregistry]
        exact .brought hbrought.changes hmethods hloaded

end Load

theorem World.loaded_of_load {ctx : Context} {w w' : World} {batch known : List ConfigurationClass}
    {report : LoadReport} (h : w.load ctx batch known = (.ok report, w')) :
    ∃ done, done.map (·.1) = batch ∧ report.skippedClasses = (done.filter (·.2)).map (·.1.name) ∧
      Load.Loaded ctx w.registry done w'.registry := by
  obtain ⟨s', hloaded, rfl, rfl⟩ := exists_of_load
    (Load.leads_loadBatch ctx w.environment known batch { registry := w.registry }) h
  exact hloaded

/-! ## Passes -/

namespace Passes

variable {ctx : Context} {a a' b : Passes × List Start} {c c' : ConfigurationClass}
  {skipped skipped' : Bool}

/-- The state that the walk of a pass leads to. -/
def walked (ctx : Context) (a : Passes × List Start) : WalkState :=
  (a.1.walk.parse ctx (roots a.2)).2

/-- The outcome of loading in a pass. -/
def loading (ctx : Context) (a : Passes × List Start) : Except Error LoadReport :=
  (World.loader ctx (walked ctx a).world (a.1.batch (walked ctx a)) (walked ctx a).classes).1

/-- The pass from here loads the class, and reports it as skipped or does not. -/
def Loads (ctx : Context) (a : Passes × List Start) (c : ConfigurationClass) (skipped : Bool) :
    Prop :=
  c ∈ a.1.batch (walked ctx a) ∧
    ∃ report, loading ctx a = .ok report ∧ (skipped = true ↔ c.name ∈ report.skippedClasses)

theorem passed_of_step {load : Loader} (hs : Step ctx load a b) :
    ∃ report w, Passed ctx load a.1 a.2 b.1 b.2 (walked ctx a) report w := by
  obtain ⟨walk, report, w, hp⟩ := passed_of_pass hs.2
  have hwalk : walked ctx a = walk := congrArg Prod.snd hp.parsed
  exact ⟨report, w, hwalk ▸ hp⟩

theorem Loads.fresh (h : Loads ctx a c skipped) : c.name ∉ a.1.loaded :=
  (mem_batch.1 (List.mem_map_of_mem h.1)).2

theorem Loads.mem_loaded (h : Loads ctx a c skipped) (hs : Step ctx (World.loader ctx) a b) :
    c.name ∈ b.1.loaded := by
  obtain ⟨report, w, hp⟩ := passed_of_step hs
  rw [hp.loaded_eq]
  exact List.mem_append_right _ (List.mem_map_of_mem h.1)

theorem Loads.unique (ha : Accounted a.1) (hs : Step ctx (World.loader ctx) a b)
    (h : Loads ctx a c skipped) (h' : Loads ctx a c' skipped') (hn : c.name = c'.name) :
    c = c' ∧ skipped = skipped' := by
  obtain ⟨report, w, hp⟩ := passed_of_step hs
  have hnodup := (hp.advanced.1.sound ha.sound).nodup
  have hc : c = c' := List.inj_on_of_nodup_map hnodup (List.mem_of_mem_filter h.1)
    (List.mem_of_mem_filter h'.1) hn
  obtain ⟨-, report₁, hr₁, hs₁⟩ := h
  obtain ⟨-, report₂, hr₂, hs₂⟩ := h'
  obtain rfl : report₁ = report₂ := Except.ok.inj (hr₁.symm.trans hr₂)
  refine ⟨hc, Bool.eq_iff_iff.2 ?_⟩
  rw [hs₁, hs₂, hn]

/-- A pass loads what its walk has stored anew, one class after the other. -/
theorem exists_loaded_of_step (ha : Accounted a.1) (hs : Step ctx (World.loader ctx) a b) :
    ∃ done r, Load.Loaded ctx (walked ctx a).registry done r ∧
      (∀ e ∈ done, Loads ctx a e.1 e.2) ∧
      b.1.loaded = a.1.loaded ++ done.map (·.1.name) ∧
      { a.1 with loaded := b.1.loaded }.next ctx.reader r = (b.2, b.1.walk.registry) := by
  obtain ⟨report, w, hp⟩ := passed_of_step hs
  have hreport : loading ctx a = .ok report := congrArg Prod.fst hp.loads
  obtain ⟨done, hbatch, hskipped, hloaded⟩ := World.loaded_of_load hp.loads
  have hnames : done.map (·.1.name) = (a.1.batch (walked ctx a)).map (·.name) := by
    rw [← hbatch, List.map_map]
    rfl
  have hnodup : (done.map (·.1.name)).Nodup := by
    rw [hnames]
    exact (hp.advanced.1.sound ha.sound).nodup.sublist (List.filter_sublist.map _)
  refine ⟨done, w.registry, hloaded, ?_, hnames ▸ hp.loaded_eq, hp.next_eq⟩
  intro e he
  refine ⟨?_, report, hreport, ?_⟩
  · rw [← hbatch]
    exact List.mem_map_of_mem he
  · rw [hskipped]
    constructor
    · intro ht
      exact List.mem_map_of_mem (List.mem_filter.2 ⟨he, ht⟩)
    · intro hm
      obtain ⟨e', he', hn⟩ := List.mem_map.1 hm
      obtain ⟨hmem, ht⟩ := List.mem_filter.1 he'
      rwa [← List.inj_on_of_nodup_map hnodup hmem he hn]

/-- No walk takes out a definition. -/
theorem names_of_walked {load : Loader} (hs : Step ctx load a b) :
    a.1.walk.registry.names <+: (walked ctx a).registry.names := by
  obtain ⟨report, w, hp⟩ := passed_of_step hs
  exact hp.advanced.1.registered

theorem loaded_of_reaches {load : Loader} (h : ReflTransGen (Step ctx load) a b) :
    a.1.loaded <+: b.1.loaded := by
  induction h with
  | refl => exact List.prefix_refl _
  | tail _ hs ih =>
    obtain ⟨walk, report, w, hp⟩ := passed_of_pass hs.2
    exact ih.trans ⟨_, hp.loaded_eq.symm⟩

theorem step_rightUnique (ctx : Context) (load : Loader) : Relator.RightUnique (Step ctx load) := by
  intro a b b' h h'
  have he := h.2.symm.trans h'.2
  simp only [Prod.mk.injEq, Except.ok.injEq] at he
  exact Prod.ext he.2 he.1

/-- A pass that is reached from one that loads the same class is that one: a class has been loaded
when any later pass is begun. -/
theorem Loads.eq_of_reaches (h : Loads ctx a c skipped) (hs : Step ctx (World.loader ctx) a b)
    (h' : Loads ctx a' c' skipped') (hn : c.name = c'.name)
    (hle : ReflTransGen (Step ctx (World.loader ctx)) a a') : a' = a := by
  rcases hle.cases_head with he | ⟨a₁, hs₁, hrest⟩
  · exact he.symm
  · obtain rfl := step_rightUnique ctx (World.loader ctx) hs hs₁
    exact absurd ((loaded_of_reaches hrest).subset (h.mem_loaded hs)) (hn ▸ h'.fresh)

end Passes

/-! ## Resolutions -/

namespace World

open Passes

variable {ctx : Context} {w : World} {a : Passes × List Start} {p : Passes}
  {c c' : ConfigurationClass} {skipped skipped' : Bool}

/-- Some pass of a resolution loads the class, and reports it as skipped or does not. -/
def Loads (w : World) (ctx : Context) (c : ConfigurationClass) (skipped : Bool) : Prop :=
  ∃ a b, w.Goes ctx a ∧ Step ctx (loader ctx) a b ∧ Passes.Loads ctx a c skipped

theorem Goes.accounted (h : w.Goes ctx a) : Accounted a.1 := by
  induction h with
  | refl => exact accounted_firstPass w ctx
  | tail _ hs ih =>
    obtain ⟨walk, report, w', hp⟩ := passed_of_pass hs.2
    exact ih.passed hp

theorem goes_of_passes (h : w.passes ctx (loader ctx) = (.ok (), p)) : w.Goes ctx (p, []) :=
  steps_of_run h

theorem resolve_of_passes (h : w.passes ctx (loader ctx) = (.ok (), p)) :
    w.resolve ctx = (.ok p.model, p.walk.world) := by
  unfold loader at h
  unfold resolve
  rw [h]
  rfl

theorem loads_of_firstPass {found : List Start} {report : LoadReport}
    (hs : (w.firstPass ctx).2 ≠ [])
    (hp : (pass ctx (loader ctx) (w.firstPass ctx).1 (w.firstPass ctx).2).1 = .ok found)
    (hr : loading ctx (w.firstPass ctx) = .ok report)
    (hc : c ∈ (w.firstPass ctx).1.batch (walked ctx (w.firstPass ctx))) :
    w.Loads ctx c (report.skippedClasses.contains c.name) :=
  ⟨w.firstPass ctx, (_, found), .refl, ⟨hs, Prod.ext hp rfl⟩, hc, report, hr,
    List.contains_iff_mem⟩

theorem Loads.unique (h : w.Loads ctx c skipped) (h' : w.Loads ctx c' skipped')
    (hn : c.name = c'.name) : c = c' ∧ skipped = skipped' := by
  obtain ⟨a, b, ha, hs, hl⟩ := h
  obtain ⟨a', b', ha', hs', hl'⟩ := h'
  have he : a' = a := by
    rcases ReflTransGen.total_of_right_unique (step_rightUnique ctx (loader ctx)) ha ha' with
      hle | hle
    · exact hl.eq_of_reaches hs hl' hn hle
    · exact (hl'.eq_of_reaches hs' hl hn.symm hle).symm
  subst he
  exact hl.unique ha.accounted hs hl' hn

end World

end Wiring
