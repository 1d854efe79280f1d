import Mathlib.Data.List.Induction
import Wiring.Proofs.Placeholder.Expansion
import Wiring.Table

/-!
# The two modes

A text is expanded in the same way in either mode until a placeholder without a value is met. Then
the required mode fails, while the lenient one leaves the placeholder as it is and goes on, so that
the two outcomes differ from there on and nowhere else.
-/

namespace Wiring.Placeholder

variable {d : Delimiters} {lookup : Lookup}

/-- Is this the failure of a placeholder without a value? -/
inductive Failure.IsUnresolvable : Failure → Prop
  | intro (placeholder value : List Char) : IsUnresolvable (.unresolvable placeholder value)

/-- Where all values are required, an expansion comes to what it comes to where they are not, unless
it meets a placeholder without a value. -/
theorem expandWithin_required_agrees (bound : Nat) (inProgress : List (List Char))
    (text : List Char) : AgreesUnless Failure.IsUnresolvable
      (expandWithin d .required lookup bound inProgress text)
      (expandWithin d .lenient lookup bound inProgress text) := by
  induction bound generalizing inProgress text with
  | zero => exact .refl _
  | succ bound ih =>
    rw [expandWithin_succ, expandWithin_succ]
    refine .expandAll (.expandSegment ih fun body placeholder => ?_) _
    exact .of_failure (.intro placeholder text)

/-- Where values are not required, a placeholder without one is no failure. -/
theorem expandWithin_lenient_ne {bound : Nat} {inProgress : List (List Char)} {text : List Char}
    {failure : Failure}
    (h : expandWithin d .lenient lookup bound inProgress text = .error failure) :
    ¬failure.IsUnresolvable := by
  induction bound generalizing inProgress text with
  | zero =>
    cases h
    exact nofun
  | succ bound ih =>
    rw [expandWithin_succ] at h
    obtain ⟨before, segment, after, -, -, hsegment⟩ := expandAll_eq_error h
    cases segment with
    | literal s => cases hsegment
    | placeholder body =>
      rcases expandSegment_eq_error hsegment with ⟨-, rfl⟩ | ⟨s, -, hs⟩ | ⟨_, hmode, -⟩
      · exact nofun
      · exact ih hs
      · cases hmode

/-- In either mode a text is reported to come to the same, unless a placeholder has no value. -/
theorem expand_required_agrees (d : Delimiters) (valueSize : Nat)
    (lookup : String → Option String) (text : String) :
    (∃ placeholder value, expand d .required valueSize lookup text =
        .error (.unresolvablePlaceholder placeholder value)) ∨
      expand d .required valueSize lookup text = expand d .lenient valueSize lookup text := by
  rw [expand_eq_reported, expand_eq_reported]
  generalize depthBound text.toList valueSize = bound
  have hagrees : AgreesUnless Failure.IsUnresolvable
      (expandWithin d .required (.ofStrings lookup) bound [] text.toList)
      (expandWithin d .lenient (.ofStrings lookup) bound [] text.toList) :=
    expandWithin_required_agrees bound [] text.toList
  rcases hagrees with ⟨_, ⟨placeholder, value⟩, h⟩ | h
  · exact .inl ⟨_, _, congrArg reported h⟩
  · exact .inr (congrArg reported h)

theorem expand_lenient_ne_unresolvable (d : Delimiters) (valueSize : Nat)
    (lookup : String → Option String) (text placeholder value : String) :
    expand d .lenient valueSize lookup text ≠
      .error (.unresolvablePlaceholder placeholder value) := by
  rw [expand_eq_reported]
  cases h : expandWithin d .lenient (.ofStrings lookup) (depthBound text.toList valueSize) []
    text.toList with
  | ok result => exact nofun
  | error failure =>
    cases failure with
    | circular => exact nofun
    | unresolvable placeholder value => exact absurd (.intro ..) (expandWithin_lenient_ne h)
    | tooDeep => exact nofun

/-- What the required mode makes of a text is what the lenient mode makes of it: the same text, or
the same circular placeholder. The outcomes differ exactly where the required mode meets a
placeholder without a value. -/
theorem expand_modes (d : Delimiters) (valueSize : Nat) (lookup : String → Option String)
    (text : String) :
    (∀ result, expand d .required valueSize lookup text = .ok result →
      expand d .lenient valueSize lookup text = .ok result) ∧
    (∀ placeholder, expand d .required valueSize lookup text =
        .error (.circularPlaceholder placeholder) →
      expand d .lenient valueSize lookup text = .error (.circularPlaceholder placeholder)) ∧
    (expand d .required valueSize lookup text ≠ expand d .lenient valueSize lookup text ↔
      ∃ placeholder value, expand d .required valueSize lookup text =
        .error (.unresolvablePlaceholder placeholder value)) := by
  rcases expand_required_agrees d valueSize lookup text with ⟨placeholder, value, h⟩ | h
  · have hne := expand_lenient_ne_unresolvable d valueSize lookup text placeholder value
    rw [h]
    exact ⟨nofun, nofun, fun _ => ⟨placeholder, value, rfl⟩, fun _ => hne.symm⟩
  · refine ⟨fun _ hr => h ▸ hr, fun _ hc => h ▸ hc, fun hne => absurd h hne, ?_⟩
    rintro ⟨placeholder, value, hu⟩
    exact absurd (h ▸ hu) (expand_lenient_ne_unresolvable d valueSize lookup text placeholder value)

/-- Properties with a key to be put together, a default, and one that refers to itself. -/
def addresses : Table String :=
  .ofList [("env", "prod"), ("prod.url", "https://$\x7bhost:$\x7benv\x7d\x7d/"),
    ("loop", "$\x7b$\x7benv\x7d:$\x7bloop\x7d\x7d")]

theorem expand_modes_addresses :
    (expand .standard .required addresses.textSize addresses.get? "at $\x7b$\x7benv\x7d.url\x7d" =
        .ok "at https://prod/" ∧
      expand .standard .lenient addresses.textSize addresses.get? "at $\x7b$\x7benv\x7d.url\x7d" =
        .ok "at https://prod/") ∧
    (expand .standard .required addresses.textSize addresses.get? "$\x7bloop\x7d" =
        .error (.circularPlaceholder "loop") ∧
      expand .standard .lenient addresses.textSize addresses.get? "$\x7bloop\x7d" =
        .error (.circularPlaceholder "loop")) ∧
    expand .standard .required addresses.textSize addresses.get? "$\x7bport\x7d-$\x7benv\x7d" ≠
      expand .standard .lenient addresses.textSize addresses.get? "$\x7bport\x7d-$\x7benv\x7d" := by
  have hurl : expand .standard .required addresses.textSize addresses.get?
      "at $\x7b$\x7benv\x7d.url\x7d" = .ok "at https://prod/" := by decide +kernel
  have hloop : expand .standard .required addresses.textSize addresses.get? "$\x7bloop\x7d" =
      .error (.circularPlaceholder "loop") := by decide +kernel
  have hport : expand .standard .required addresses.textSize addresses.get?
      "$\x7bport\x7d-$\x7benv\x7d" =
        .error (.unresolvablePlaceholder "port" "$\x7bport\x7d-$\x7benv\x7d") := by decide +kernel
  have hmodes := expand_modes .standard addresses.textSize addresses.get?
  exact ⟨⟨hurl, (hmodes _).1 _ hurl⟩, ⟨hloop, (hmodes _).2.1 _ hloop⟩,
    (hmodes _).2.2.2 ⟨_, _, hport⟩⟩

end Wiring.Placeholder
