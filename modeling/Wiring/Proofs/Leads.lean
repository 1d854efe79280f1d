import Wiring.Error

/-!
# What a step leads to

A step is run from a state. It is done with a value or fails, and leaves a state behind in both
cases. `Leads step s done failed` says that a run from `s` ends as `done` or `failed` asks; there is
one rule for each way to put steps together, so that steps are never run by hand.
-/

namespace Wiring

variable {σ α β : Type} {s : σ} {done : α → σ → Prop} {failed : Error → σ → Prop}

/-- Run from `s`, the step ends in a value and a state with `done`, or fails with `failed`. -/
def Leads (step : ExceptT Error (StateM σ) α) (s : σ) (done : α → σ → Prop)
    (failed : Error → σ → Prop) : Prop :=
  match step.run.run s with
  | (.ok a, s') => done a s'
  | (.error e, s') => failed e s'

@[simp] theorem leads_pure {a : α} : Leads (pure a) s done failed ↔ done a s := Iff.rfl

@[simp] theorem leads_throw {e : Error} :
    Leads (throw e : ExceptT Error (StateM σ) α) s done failed ↔ failed e s := Iff.rfl

@[simp] theorem leads_get {done : σ → σ → Prop} :
    Leads (get : ExceptT Error (StateM σ) σ) s done failed ↔ done s s := Iff.rfl

@[simp] theorem leads_modify {f : σ → σ} {done : Unit → σ → Prop} :
    Leads (modify f : ExceptT Error (StateM σ) PUnit) s done failed ↔ done () (f s) := Iff.rfl

theorem run_bind (step : ExceptT Error (StateM σ) β) (next : β → ExceptT Error (StateM σ) α)
    (s : σ) :
    (step >>= next).run.run s =
      match step.run.run s with
      | (.ok b, s') => (next b).run.run s'
      | (.error e, s') => (.error e, s') := by
  show (step.run >>= ExceptT.bindCont next).run s = _
  rw [StateT.run_bind]
  rcases step.run.run s with ⟨_ | b, s'⟩ <;> rfl

@[simp] theorem leads_bind {step : ExceptT Error (StateM σ) β}
    {next : β → ExceptT Error (StateM σ) α} :
    Leads (step >>= next) s done failed ↔
      Leads step s (fun b s' => Leads (next b) s' done failed) failed := by
  unfold Leads
  rw [run_bind]
  rcases step.run.run s with ⟨_ | b, s'⟩ <;> rfl

theorem Leads.mono {step : ExceptT Error (StateM σ) α} {done' : α → σ → Prop}
    {failed' : Error → σ → Prop} (hl : Leads step s done failed)
    (hd : ∀ a s', done a s' → done' a s') (hf : ∀ e s', failed e s' → failed' e s') :
    Leads step s done' failed' := by
  unfold Leads at *
  revert hl
  rcases step.run.run s with ⟨_ | a, s'⟩
  · exact hf _ _
  · exact hd _ _

theorem Leads.imp {step : ExceptT Error (StateM σ) α} {done' : α → σ → Prop}
    (hl : Leads step s done failed) (hd : ∀ a s', done a s' → done' a s') :
    Leads step s done' failed :=
  hl.mono hd fun _ _ hf => hf

theorem leads_of_forall {step : ExceptT Error (StateM σ) α} (hd : ∀ a s', done a s')
    (hf : ∀ e s', failed e s') : Leads step s done failed := by
  unfold Leads
  rcases step.run.run s with ⟨_ | a, s'⟩
  · exact hf _ _
  · exact hd _ _

theorem leads_run (step : ExceptT Error (StateM σ) α) (s : σ) :
    Leads step s (fun a s' => step.run.run s = (.ok a, s'))
      fun e s' => step.run.run s = (.error e, s') := by
  unfold Leads
  rcases hrun : step.run.run s with ⟨_ | a, s'⟩
  · exact rfl
  · exact rfl

/-- What holds of all that a step comes to holds of its run. -/
theorem leads_iff_run {step : ExceptT Error (StateM σ) α} {P : Except Error α × σ → Prop} :
    Leads step s (fun a s' => P (.ok a, s')) (fun e s' => P (.error e, s')) ↔
      P (step.run.run s) := by
  unfold Leads
  rcases step.run.run s with ⟨_ | a, s'⟩
  · exact Iff.rfl
  · exact Iff.rfl

theorem Leads.and {step : ExceptT Error (StateM σ) α} {done' : α → σ → Prop}
    {failed' : Error → σ → Prop} (hl : Leads step s done failed)
    (hl' : Leads step s done' failed') :
    Leads step s (fun a s' => done a s' ∧ done' a s') fun e s' => failed e s' ∧ failed' e s' := by
  unfold Leads at *
  revert hl hl'
  rcases step.run.run s with ⟨_ | a, s'⟩
  · exact And.intro
  · exact And.intro

theorem leads_discard {step : ExceptT Error (StateM σ) β} {done : Unit → σ → Prop} :
    Leads (discard step) s done failed ↔ Leads step s (fun _ s' => done () s') failed := by
  show Leads ((fun _ => ()) <$> step) s done failed ↔ _
  rw [map_eq_pure_bind, leads_bind]
  rfl

/-- A loop keeps what each of its steps keeps. The property may depend on what is left to go
through. -/
theorem Leads.forM {items : List β} {f : β → ExceptT Error (StateM σ) Unit}
    (keeps : List β → σ → Prop) (h0 : keeps items s)
    (hstep : ∀ b rest s, (b :: rest) <:+ items → keeps (b :: rest) s →
      Leads (f b) s (fun _ s' => keeps rest s') failed) :
    Leads (items.forM f) s (fun _ s' => keeps [] s') failed := by
  induction items generalizing s with
  | nil => exact h0
  | cons b rest ih =>
    rw [List.forM_eq_forM, List.forM_cons, leads_bind]
    refine (hstep b rest s List.suffix_rfl h0).imp fun _ s' hk => ih hk ?_
    intro b' rest' s'' hs hk'
    exact hstep b' rest' s'' (hs.trans (List.suffix_cons b rest)) hk'

end Wiring
