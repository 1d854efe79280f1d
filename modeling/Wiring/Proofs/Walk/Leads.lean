import Wiring.Proofs.Leads
import Wiring.Walk

/-!
# What a step of a walk leads to

The rules for the steps that only walks have: those that read or change the class in hand, and those
that hold another class or go through one.
-/

namespace Wiring

namespace Walk

variable {α : Type} {h : Held} {failed : Error → Held → Prop}

@[simp] theorem leads_inHand {done : ConfigurationClass → Held → Prop} :
    Leads inHand h done failed ↔ done h.inHand h := Iff.rfl

@[simp] theorem leads_state {done : WalkState → Held → Prop} :
    Leads state h done failed ↔ done h.state h := Iff.rfl

@[simp] theorem leads_modifyState {f : WalkState → WalkState} {done : Unit → Held → Prop} :
    Leads (modifyState f) h done failed ↔ done () { h with state := f h.state } := Iff.rfl

@[simp] theorem leads_modifyInHand {f : ConfigurationClass → ConfigurationClass}
    {done : Unit → Held → Prop} :
    Leads (modifyInHand f) h done failed ↔ done () { h with inHand := f h.inHand } := Iff.rfl

theorem leads_ofExcept {outcome : Except Error α} {done : α → Held → Prop} :
    Leads (ofExcept outcome) h done failed ↔
      (∀ a, outcome = .ok a → done a h) ∧ ∀ e, outcome = .error e → failed e h := by
  cases outcome with
  | ok a => simp [ofExcept]
  | error e => simp [ofExcept]

theorem leads_holding {c : ConfigurationClass} {step : Walk Unit}
    {done : ConfigurationClass → Held → Prop} :
    Leads (holding c step) h done failed ↔
      Leads step { h with inHand := c } (fun _ h' => done h'.inHand { h' with inHand := h.inHand })
        (fun e h' => failed e { h' with inHand := h.inHand }) := by
  have hrun : (holding c step).run.run h =
      let ended := step.run.run { h with inHand := c }
      (ended.1.map fun _ => ended.2.inHand, { ended.2 with inHand := h.inHand }) := rfl
  unfold Leads
  rw [hrun]
  rcases step.run.run { h with inHand := c } with ⟨_ | _, h'⟩ <;> rfl

theorem leads_goingThrough {name : String} {step : Walk Unit} {done : Unit → Held → Prop} :
    Leads (goingThrough name step) h done failed ↔
      Leads step { h with state := h.state.withImports (·.push name) }
        (fun _ h' => done () { h' with state := h'.state.withImports (·.pop) })
        (fun e h' => failed e { h' with state := h'.state.withImports (·.pop) }) := by
  have hrun : (goingThrough name step).run.run h =
      let ended := step.run.run { h with state := h.state.withImports (·.push name) }
      (ended.1, { ended.2 with state := ended.2.state.withImports (·.pop) }) := rfl
  unfold Leads
  rw [hrun]
  rcases step.run.run { h with state := h.state.withImports (·.push name) } with ⟨_ | _, h'⟩ <;>
    rfl

theorem leads_during {message : String} {step : Walk Unit} {done : Unit → Held → Prop} :
    Leads (during message step) h done failed ↔
      Leads step h done (fun e h' => failed (e.during message) h') := by
  have hrun : (during message step).run.run h =
      let ended := step.run.run h
      (ended.1.mapError (Error.during message), ended.2) := rfl
  unfold Leads
  rw [hrun]
  rcases step.run.run h with ⟨_ | _, h'⟩ <;> rfl

end Walk

end Wiring
