import Wiring.Proofs.Completeness
import Wiring.Proofs.Walk.Growth

/-!
# The batches of a resolution

Each pass loads the stored classes that no pass before it has loaded. So whatever the loaders do,
and however often classes are stored anew, each class is in one batch. A pass that is followed by
another one has stored a class for the first time, so there are at most as many passes as known
classes, and one more.
-/

namespace Wiring

namespace Passes

variable {ctx : Context} {load : Loader} {p p' : Passes} {found found' : List Start}

/-! ## What is accounted for -/

/-- What holds between passes: all that is stored has been loaded as well, and the batches name each
class once. -/
structure Accounted (p : Passes) : Prop extends Standing p where
  stored : p.walk.storedNames ⊆ p.loaded
  loaded_eq : p.loaded = p.batches.flatMap (·.loaded)
  nodup : p.loaded.Nodup

theorem accounted_firstPass (w : World) (ctx : Context) : Accounted (w.firstPass ctx).1 where
  toStanding := w.standing_firstPass ctx
  stored := List.nil_subset _
  loaded_eq := rfl
  nodup := .nil

theorem mem_batch {walk : WalkState} {name : String} :
    name ∈ (p.batch walk).map (·.name) ↔ name ∈ walk.storedNames ∧ name ∉ p.loaded := by
  unfold batch WalkState.storedNames
  simp only [List.mem_map, List.mem_filter, Bool.not_eq_true', List.contains_eq_mem,
    decide_eq_false_iff_not]
  constructor
  · rintro ⟨c, ⟨hc, hl⟩, rfl⟩
    exact ⟨⟨c, hc, rfl⟩, hl⟩
  · rintro ⟨⟨c, hc, rfl⟩, hl⟩
    exact ⟨c, ⟨hc, hl⟩, rfl⟩

theorem Accounted.passed {walk : WalkState} {report : LoadReport} {w : World} (ha : Accounted p)
    (h : Passed ctx load p found p' found' walk report w) : Accounted p' := by
  refine ⟨ha.toStanding.passed h, fun name hn => ?_, ?_, ?_⟩
  · rw [h.storedNames_eq] at hn
    rw [h.loaded_eq, List.mem_append, mem_batch]
    by_cases hl : name ∈ p.loaded
    · exact .inl hl
    · exact .inr ⟨hn, hl⟩
  · rw [h.loaded_eq, h.batches_eq, List.flatMap_append, List.flatMap_singleton, ha.loaded_eq]
  · rw [h.loaded_eq]
    have hbatch : ((p.batch walk).map (·.name)).Nodup :=
      (h.advanced.1.sound ha.sound).nodup.sublist (List.filter_sublist.map _)
    exact ha.nodup.append hbatch fun name hl hb => (mem_batch.1 hb).2 hl

theorem Accounted.perm (ha : Accounted p) :
    (p.batches.flatMap (·.loaded)).Perm p.model.classNames := by
  rw [← ha.loaded_eq]
  exact (List.perm_ext_iff_of_nodup ha.nodup ha.sound.nodup).2 fun _ =>
    ⟨fun hl => ha.loaded hl, fun hn => ha.stored hn⟩

/-! ## Any loaders -/

/-- Go on with one loader after the other, one a pass, until there is nothing to start from. -/
def runEach (ctx : Context) : List Loader → Passes → List Start → Except Error Unit × Passes
  | _, p, [] => (.ok (), p)
  | [], p, _ => (.error (.exhausted "the resolution"), p)
  | load :: loads, p, s :: found =>
    match pass ctx load p (s :: found) with
    | (.error e, p) => (.error e, p)
    | (.ok found, p) => runEach ctx loads p found

/-- A run has the same loader in each pass. -/
theorem run_eq_runEach (ctx : Context) (load : Loader) (bound : Nat) (p : Passes)
    (found : List Start) :
    run ctx load bound p found = runEach ctx (List.replicate bound load) p found := by
  induction bound generalizing p found with
  | zero => cases found <;> rfl
  | succ bound ih =>
    cases found with
    | nil => rfl
    | cons s found =>
      unfold run
      rw [List.replicate_succ]
      unfold runEach
      rcases pass ctx load p (s :: found) with ⟨_ | found', p'⟩
      · rfl
      · exact ih p' found'

theorem Accounted.runEach {loads : List Loader} (ha : Accounted p)
    (h : runEach ctx loads p found = (.ok (), p')) : Accounted p' := by
  induction loads generalizing p found with
  | nil =>
    cases found with
    | nil => cases h; exact ha
    | cons s found => cases h
  | cons load loads ih =>
    cases found with
    | nil => cases h; exact ha
    | cons s found =>
      unfold Passes.runEach at h
      rcases hpass : pass ctx load p (s :: found) with ⟨_ | found', p₁⟩
      · rw [hpass] at h
        cases h
      · rw [hpass] at h
        obtain ⟨walk, report, w, hp⟩ := passed_of_pass hpass
        exact ih (ha.passed hp) h

theorem passes_eq_run (w : World) (ctx : Context) (load : Loader) :
    w.passes ctx load = run ctx load (Passes.bound ctx) (w.firstPass ctx).1 (w.firstPass ctx).2 :=
  rfl

theorem accounted_of_passes {w : World} (h : w.passes ctx load = (.ok (), p)) : Accounted p := by
  rw [passes_eq_run, run_eq_runEach] at h
  exact (accounted_firstPass w ctx).runEach h

/-- Whatever loaders a resolution has in its passes, if it does not fail then no class is in two
batches or twice in one, and the batches together are the classes of the model. -/
theorem runEach_loads_once {loads : List Loader} {w : World}
    (h : runEach ctx loads (w.firstPass ctx).1 (w.firstPass ctx).2 = (.ok (), p)) :
    (p.batches.flatMap (·.loaded)).Nodup ∧
      (p.batches.flatMap (·.loaded)).Perm p.model.classNames := by
  have ha := (accounted_firstPass w ctx).runEach h
  exact ⟨ha.loaded_eq ▸ ha.nodup, ha.perm⟩

/-- The first pass stores an imported class, which the second one takes out and stores anew. -/
def restored : Descriptor :=
  { roots := [.ofClass "App"]
    classes :=
      [{ name := "App",
          marks :=
            { declared :=
                [.naming AnnotationType.configuration [],
                  .naming AnnotationType.importing ["p.Kept", "First"]] } },
        { name := "p.Kept", marks := { declared := [.naming AnnotationType.configuration []] } },
        { name := "More",
          marks :=
            { declared :=
                [.naming AnnotationType.configuration [],
                  .naming AnnotationType.componentScan ["p"]] } }]
    plugins := [.registrar "First" [("more", "More")]] }

/-- The second loader does nothing. -/
theorem runEach_loads_once_restored : ∃ ctx w p,
    Context.ofDescriptor restored "." { workingDirectory := [], files := [] } Table.empty =
      .ok (ctx, w) ∧
    runEach ctx [World.loader ctx, fun w _ _ => (.ok {}, w)] (w.firstPass ctx).1
      (w.firstPass ctx).2 = (.ok (), p) ∧
    p.batches.map (·.loaded) = [["p.Kept", "App"], ["More"]] ∧
    p.model.classNames = ["App", "p.Kept", "More"] ∧
    (p.batches.flatMap (·.loaded)).Nodup ∧
    (p.batches.flatMap (·.loaded)).Perm p.model.classNames := by
  have h : Context.ofDescriptor restored "." { workingDirectory := [], files := [] } Table.empty =
    .ok (_, _) := rfl
  refine ⟨_, _, _, h, Prod.ext ?ends rfl, by decide +kernel, by decide +kernel,
    runEach_loads_once (Prod.ext ?ends rfl)⟩
  decide +kernel

/-! ## How many passes there are -/

/-- The number of passes of a run; one that fails is counted. -/
def made (ctx : Context) (load : Loader) : Nat → Passes → List Start → Nat
  | _, _, [] => 0
  | 0, _, _ => 0
  | bound + 1, p, s :: found =>
    match pass ctx load p (s :: found) with
    | (.error _, _) => 1
    | (.ok found, p) => made ctx load bound p found + 1

/-- A run that does not use up a bound does not depend on it. -/
theorem run_add_of_made_le {bound : Nat} (more : Nat)
    (h : made ctx load (bound + 1) p found ≤ bound) :
    run ctx load (bound + more) p found = run ctx load bound p found := by
  induction bound generalizing p found with
  | zero =>
    cases found with
    | nil => cases more <;> rfl
    | cons s found =>
      unfold made at h
      split at h <;> omega
  | succ bound ih =>
    cases found with
    | nil => rw [Nat.succ_add]; rfl
    | cons s found =>
      rw [Nat.succ_add]
      unfold run
      unfold made at h
      rcases hpass : pass ctx load p (s :: found) with ⟨_ | found', p'⟩
      · rfl
      · rw [hpass] at h
        exact ih (Nat.le_of_succ_le_succ h)

/-- What the next pass starts from has not been loaded, and there is something only where there are
more definitions than before. -/
theorem next_fresh {reader : Reader} {r r' : Registry} (h : p.next reader r = (found, r')) :
    (∀ s ∈ found, s.className ∉ p.loaded) ∧
      (found ≠ [] → p.names.length < r.names.length) := by
  unfold next at h
  split at h
  · cases h
    exact ⟨nofun, fun hne => absurd rfl hne⟩
  next hlt =>
    cases h
    exact ⟨fun s hs => by simpa using (List.mem_filter.1 hs).2, fun _ => Nat.lt_of_not_le hlt⟩

/-- What holds between passes, when a pass is to start from definitions: what has been loaded is
known, nothing waits, and the classes that the pass starts from have not been loaded. -/
structure Ready (ctx : Context) (p : Passes) (found : List Start) : Prop where
  accounted : Accounted p
  known : p.loaded ⊆ ctx.reader.classNames
  idle : p.walk.deferred = {}
  fresh : ∀ s ∈ found, s.className ∉ p.loaded

theorem ready_firstPass (w : World) (ctx : Context) :
    Ready ctx (w.firstPass ctx).1 (w.firstPass ctx).2 where
  accounted := accounted_firstPass w ctx
  known := List.nil_subset _
  idle := rfl
  fresh _ _ := List.not_mem_nil

/-- A pass leads to another one only if it has stored a class for the first time. -/
theorem Ready.step (hc : ctx.Declared) (hr : Ready ctx p found)
    (h : pass ctx (World.loader ctx) p found = (.ok found', p')) :
    Ready ctx p' found' ∧ (found' ≠ [] → p.loaded.length < p'.loaded.length) := by
  obtain ⟨walk, report, w, hp⟩ := passed_of_pass h
  have ha := hr.accounted.passed hp
  have hroots : ∀ root ∈ roots found, root.2 ∉ p.walk.storedNames := by
    intro root hroot hstored
    obtain ⟨s, hs, rfl⟩ := List.mem_map.1 hroot
    exact hr.fresh s hs (hr.accounted.stored hstored)
  obtain ⟨hfound, hidle⟩ := Walk.found_of_parse hc hroots hr.idle hp.parsed
  obtain ⟨hfresh, hmore⟩ := next_fresh hp.next_eq
  have hknown : walk.storedNames ⊆ ctx.reader.classNames :=
    hfound.enlarged.known (List.Subset.trans hr.accounted.stored hr.known)
  refine ⟨⟨ha, ?_, hp.deferred_eq.trans hidle, hfresh⟩, fun hne => ?_⟩
  · exact List.Subset.trans ha.loaded (hp.storedNames_eq ▸ hknown)
  rcases hfound.fresh with rfl | ⟨name, hn, hs⟩
  · -- nothing is loaded, so that there are no more definitions than before
    have hbatch : p.batch p.walk = [] := List.eq_nil_iff_forall_not_mem.2 fun c hcm => by
      obtain ⟨hn, hl⟩ := mem_batch.1 (List.mem_map_of_mem hcm)
      exact hl (hr.accounted.stored hn)
    have hloads := hp.loads
    rw [hbatch] at hloads
    cases hloads
    exact absurd (hmore hne) (by rw [hr.accounted.names_eq]; exact Nat.lt_irrefl _)
  · have hb : name ∈ (p.batch walk).map (·.name) :=
      mem_batch.2 ⟨hn, fun hl => hs (hr.accounted.loaded hl)⟩
    rw [hp.loaded_eq, List.length_append]
    exact Nat.lt_add_of_pos_right (List.length_pos_of_mem hb)

/-- There are at most as many passes as known classes that have not been loaded, and one more. -/
theorem made_le (hc : ctx.Declared) (bound : Nat) (hr : Ready ctx p found) :
    made ctx (World.loader ctx) bound p found + p.loaded.length ≤
      ctx.reader.classNames.length + 1 := by
  have hle {p : Passes} {found : List Start} (hr : Ready ctx p found) :
      p.loaded.length ≤ ctx.reader.classNames.length :=
    (hr.accounted.nodup.subperm hr.known).length_le
  induction bound generalizing p found with
  | zero =>
    have := hle hr
    cases found <;> simp only [made] <;> omega
  | succ bound ih =>
    have hloaded := hle hr
    cases found with
    | nil => simp only [made]; omega
    | cons s found =>
      unfold made
      rcases hpass : pass ctx (World.loader ctx) p (s :: found) with ⟨_ | found', p'⟩
      · simp only; omega
      · obtain ⟨hr', hmore⟩ := hr.step hc hpass
        cases found' with
        | nil =>
          have hlast : made ctx (World.loader ctx) bound p' [] = 0 := by cases bound <;> rfl
          simp only [hlast]
          omega
        | cons s' found' =>
          have hrest := ih hr'
          have hlt := hmore (List.cons_ne_nil _ _)
          simp only
          omega

/-- In the context of a descriptor a resolution makes at most one pass more than there are known
classes, whatever they declare, and a bound beyond that makes no difference. -/
theorem passes_end {d : Descriptor} {directory : String} {files : FileTree}
    {exported : Table String} {w₀ : World}
    (h : Context.ofDescriptor d directory files exported = .ok (ctx, w₀)) (w : World) :
    (∀ bound, made ctx (World.loader ctx) bound (w.firstPass ctx).1 (w.firstPass ctx).2 ≤
      ctx.reader.classNames.length + 1) ∧
    ∀ bound, ctx.reader.classNames.length + 1 ≤ bound →
      run ctx (World.loader ctx) bound (w.firstPass ctx).1 (w.firstPass ctx).2 =
        w.passes ctx (World.loader ctx) := by
  have hc := Context.declared_of_ofDescriptor h
  have hmade (bound : Nat) :
      made ctx (World.loader ctx) bound (w.firstPass ctx).1 (w.firstPass ctx).2 ≤
        ctx.reader.classNames.length + 1 :=
    made_le hc bound (ready_firstPass w ctx)
  have hrun (more : Nat) := run_add_of_made_le more (hmade (ctx.reader.classNames.length + 1 + 1))
  have hbound : Passes.bound ctx = ctx.reader.classNames.length + 1 + 1 :=
    congrArg (· + 2) (List.length_map _).symm
  refine ⟨hmade, fun bound hb => ?_⟩
  obtain ⟨more, rfl⟩ := Nat.exists_eq_add_of_le hb
  rw [passes_eq_run, hrun more, hbound, hrun 1]

theorem passes_end_restored : ∃ ctx w,
    Context.ofDescriptor restored "." { workingDirectory := [], files := [] } Table.empty =
      .ok (ctx, w) ∧
    made ctx (World.loader ctx) 5 (w.firstPass ctx).1 (w.firstPass ctx).2 = 2 ∧
    (∀ bound, made ctx (World.loader ctx) bound (w.firstPass ctx).1 (w.firstPass ctx).2 ≤
      ctx.reader.classNames.length + 1) ∧
    ∀ bound, ctx.reader.classNames.length + 1 ≤ bound →
      run ctx (World.loader ctx) bound (w.firstPass ctx).1 (w.firstPass ctx).2 =
        w.passes ctx (World.loader ctx) := by
  have h : Context.ofDescriptor restored "." { workingDirectory := [], files := [] } Table.empty =
    .ok (_, _) := rfl
  exact ⟨_, _, h, by decide +kernel, passes_end h _⟩

end Passes

end Wiring
