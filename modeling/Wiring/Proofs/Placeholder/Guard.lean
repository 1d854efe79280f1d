import Mathlib.Data.List.Induction
import Wiring.Proofs.Placeholder.Expansion
import Wiring.Table

/-!
# The guard against circular placeholders

A placeholder that is met while it is being replaced is circular. What becomes of a placeholder
depends on its body alone, so without this guard it would be met again and again, and its expansion
would never end. An expansion that ends without the guard therefore has the same outcome with it.
-/

namespace Wiring.Placeholder

variable {d : Delimiters} {mode : Mode} {lookup : Lookup} {bound n : Nat}
  {inProgress : List (List Char)} {text body s : List Char} {segment : Segment}

/-! ## Expansion without a guard -/

/-- Expand a text whose placeholders are nested at most `bound` deep, whatever is being replaced. -/
def expandFreely (d : Delimiters) (mode : Mode) (lookup : Lookup) :
    Nat → List Char → Except Failure (List Char)
  | 0, _ => .error .tooDeep
  | bound + 1, text =>
    expandAll (replaceSegment d mode lookup (expandFreely d mode lookup bound) text)
      (segments d text)

/-- What a segment of `text` is replaced by, whatever is being replaced. -/
def replaceFreely (d : Delimiters) (mode : Mode) (lookup : Lookup) (bound : Nat)
    (text : List Char) : Segment → Except Failure (List Char) :=
  replaceSegment d mode lookup (expandFreely d mode lookup bound) text

theorem expandFreely_succ : expandFreely d mode lookup (bound + 1) text =
    expandAll (replaceFreely d mode lookup bound text) (segments d text) := rfl

theorem expandFreely_approaches_succ (bound : Nat) (text : List Char) :
    Approaches (expandFreely d mode lookup bound text)
      (expandFreely d mode lookup (bound + 1) text) := by
  induction bound generalizing text with
  | zero => exact .inl rfl
  | succ bound ih =>
    rw [approaches_iff, expandFreely_succ, expandFreely_succ]
    exact .expandAll (.replaceSegment (fun s => approaches_iff.1 (ih s)) fun _ _ => .refl _) _

theorem replaceFreely_approaches_succ (bound : Nat) (text : List Char) (segment : Segment) :
    Approaches (replaceFreely d mode lookup bound text segment)
      (replaceFreely d mode lookup (bound + 1) text segment) :=
  approaches_iff.2 <| .replaceSegment
    (fun s => approaches_iff.1 (expandFreely_approaches_succ bound s)) (fun _ _ => .refl _) segment

/-- If a text that is entered within some bound is cut off, so is the placeholder. -/
theorem Entered.replaceFreely_eq_tooDeep
    (h : Entered d lookup (expandFreely d mode lookup n) body s)
    (hs : expandFreely d mode lookup bound s = .error .tooDeep) :
    replaceFreely d mode lookup bound text (.placeholder body) = .error .tooDeep := by
  cases h with
  | body => exact Entered.body.replaceSegment_eq_error hs
  | @value placeholder raw hbody hvalue =>
    have hbound : Approaches (expandFreely d mode lookup bound body) (.ok placeholder) :=
      approaches_of_ok (f := fun n => expandFreely d mode lookup n body)
        (fun n => expandFreely_approaches_succ n body) hbody bound
    rcases hbound with hdeep | hok
    · exact Entered.body.replaceSegment_eq_error hdeep
    · exact (Entered.value hok hvalue).replaceSegment_eq_error hs

/-! ## What the guard adds -/

/-- Is this the failure of a circular placeholder? -/
inductive Failure.IsCircular : Failure → Prop
  | intro (placeholder : List Char) : IsCircular (.circular placeholder)

theorem expandSegment_agrees (h : ∀ inProgress s, AgreesUnless Failure.IsCircular
      (expandWithin d mode lookup bound inProgress s) (expandFreely d mode lookup bound s)) :
    AgreesUnless Failure.IsCircular (expandSegment d mode lookup bound inProgress text segment)
      (replaceFreely d mode lookup bound text segment) := by
  cases segment with
  | literal s => exact .refl _
  | placeholder body =>
    by_cases hmem : body ∈ inProgress
    · rw [expandSegment_of_mem hmem]
      exact .of_failure (.intro body)
    · rw [expandSegment_eq_replaceSegment hmem]
      exact .replaceSegment (h _) (fun _ _ => .refl _) _

/-- With the guard an expansion comes to what it comes to without, unless it meets a circular
placeholder. -/
theorem expandWithin_agrees (bound : Nat) (inProgress : List (List Char)) (text : List Char) :
    AgreesUnless Failure.IsCircular (expandWithin d mode lookup bound inProgress text)
      (expandFreely d mode lookup bound text) := by
  induction bound generalizing inProgress text with
  | zero => exact .refl _
  | succ bound ih =>
    rw [expandWithin_succ, expandFreely_succ]
    exact .expandAll (fun _ => expandSegment_agrees ih) _

theorem AgreesUnless.eq_ok {α : Type} {stops : Failure → Prop} {x y : Except Failure α} {a : α}
    (h : AgreesUnless stops x y) (hx : x = .ok a) : y = .ok a := by
  rcases h with ⟨failure, -, rfl⟩ | rfl
  · cases hx
  · exact hx

theorem Entered.freely
    (h : Entered d lookup (expandWithin d mode lookup bound inProgress) body s) :
    Entered d lookup (expandFreely d mode lookup bound) body s := by
  cases h with
  | body => exact .body
  | value hbody hvalue => exact .value ((expandWithin_agrees ..).eq_ok hbody) hvalue

/-! ## Circular placeholders never end -/

/-- Without a guard the replacement of a placeholder goes deeper than this bound, whatever text it
stands in. -/
def Exceeds (d : Delimiters) (mode : Mode) (lookup : Lookup) (body : List Char) (bound : Nat) :
    Prop :=
  ∀ text, replaceFreely d mode lookup bound text (.placeholder body) = .error .tooDeep

/-- A text is cut off without the guard if one of its segments is, and those before it are replaced
with the guard. -/
theorem expandFreely_eq_tooDeep {before after : List Segment}
    (hsplit : segments d text = before ++ segment :: after)
    (hbefore : ∀ t ∈ before, ∃ part,
      expandSegment d mode lookup n inProgress text t = .ok part)
    (hsegment : replaceFreely d mode lookup bound text segment = .error .tooDeep) :
    expandFreely d mode lookup (bound + 1) text = .error .tooDeep := by
  rw [expandFreely_succ, hsplit]
  clear hsplit
  induction before with
  | nil =>
    show (replaceFreely d mode lookup bound text segment >>= _) = _
    rw [hsegment]
    rfl
  | cons t before ih =>
    obtain ⟨⟨part, ht⟩, hbefore⟩ := List.forall_mem_cons.1 hbefore
    have hfree : replaceFreely d mode lookup n text t = .ok part :=
      (expandSegment_agrees (expandWithin_agrees n)).eq_ok ht
    have hbound : Approaches (replaceFreely d mode lookup bound text t) (.ok part) :=
      approaches_of_ok (f := fun n => replaceFreely d mode lookup n text t)
        (fun n => replaceFreely_approaches_succ n text t) hfree bound
    show (replaceFreely d mode lookup bound text t >>= fun part => expandAll _ (before ++ _) >>=
      fun parts => .ok (part ++ parts)) = _
    rcases hbound with hdeep | hok
    · rw [hdeep]
      rfl
    · rw [hok, ih hbefore]
      rfl

/-- Where a text comes to an end within a bound, no placeholder whose replacement goes deeper than
every smaller bound is found to be circular. -/
theorem expandWithin_ne_circular (hbody : ∀ k < bound, Exceeds d mode lookup body k)
    (h : expandFreely d mode lookup bound text ≠ .error .tooDeep) (n : Nat)
    (inProgress : List (List Char)) :
    expandWithin d mode lookup n inProgress text ≠ .error (.circular body) := by
  induction n generalizing bound inProgress text with
  | zero => exact nofun
  | succ n ih =>
    intro hcircular
    cases bound with
    | zero => exact h rfl
    | succ bound =>
      rw [expandWithin_succ] at hcircular
      obtain ⟨before, segment, after, hsplit, hbefore, hsegment⟩ := expandAll_eq_error hcircular
      have hends : replaceFreely d mode lookup bound text segment ≠ .error .tooDeep :=
        fun hdeep => h (expandFreely_eq_tooDeep hsplit hbefore hdeep)
      cases segment with
      | literal s => cases hsegment
      | placeholder other =>
        rcases expandSegment_eq_error hsegment with ⟨-, he⟩ | ⟨s, hs, hfailed⟩ | ⟨_, -, he⟩
        · cases he
          exact hends (hbody bound (Nat.lt_succ_self _) text)
        · -- the text that is entered ends within a smaller bound, so the induction applies to it
          have hinner : expandFreely d mode lookup bound s ≠ .error .tooDeep :=
            fun hdeep => hends (hs.freely.replaceFreely_eq_tooDeep hdeep)
          exact ih (fun k hk => hbody k (Nat.lt_succ_of_lt hk)) hinner _ hfailed
        · cases he

/-- If a placeholder is met again in a text that is entered for it, its replacement without the
guard goes deeper than every bound. -/
theorem Entered.exceeds {m : Nat} (hs : Entered d lookup (expandFreely d mode lookup m) body s)
    (hagain : expandWithin d mode lookup n inProgress s = .error (.circular body)) (bound : Nat) :
    Exceeds d mode lookup body bound := by
  -- the least bound within which it ended would be one within which `s` ends
  induction bound using Nat.strongRecOn with
  | ind bound hbelow =>
    intro text
    refine Classical.byContradiction fun hends => ?_
    have hinner : expandFreely d mode lookup bound s ≠ .error .tooDeep :=
      fun hdeep => hends (hs.replaceFreely_eq_tooDeep hdeep)
    exact expandWithin_ne_circular hbelow hinner n inProgress hagain

/-- A placeholder that is found to be circular is in progress from the start, or its replacement
without the guard goes deeper than every bound. -/
theorem exceeds_of_circular
    (h : expandWithin d mode lookup n inProgress text = .error (.circular body))
    (hbody : body ∉ inProgress) (bound : Nat) : Exceeds d mode lookup body bound := by
  induction n generalizing inProgress text with
  | zero => cases h
  | succ n ih =>
    rw [expandWithin_succ] at h
    obtain ⟨before, segment, after, -, -, hsegment⟩ := expandAll_eq_error h
    cases segment with
    | literal s => cases hsegment
    | placeholder other =>
      rcases expandSegment_eq_error hsegment with ⟨hmem, he⟩ | ⟨s, hs, hfailed⟩ | ⟨_, -, he⟩
      · cases he
        exact absurd hmem hbody
      · by_cases he : body = other
        · subst he
          exact hs.freely.exceeds hfailed bound
        · exact ih hfailed fun hmem => (List.mem_cons.1 hmem).elim he hbody
      · cases he

/-! ## Outcomes without a guard -/

/-- Without a guard the expansion of a text comes to an end, with this outcome. -/
def EndsFreely (d : Delimiters) (mode : Mode) (lookup : Lookup) (text : List Char)
    (outcome : Except Failure (List Char)) : Prop :=
  outcome ≠ .error .tooDeep ∧ ∃ bound, expandFreely d mode lookup bound text = outcome

/-- If an expansion ends without the guard, the guard makes no difference to it. -/
theorem EndsFreely.expandWithin_eq {outcome : Except Failure (List Char)}
    (h : EndsFreely d mode lookup text outcome) (n : Nat) :
    expandWithin d mode lookup n [] text = expandFreely d mode lookup n text := by
  obtain ⟨hends, bound, rfl⟩ := h
  have hagrees : AgreesUnless Failure.IsCircular (expandWithin d mode lookup n [] text)
      (expandFreely d mode lookup n text) := expandWithin_agrees n [] text
  rcases hagrees with ⟨_, ⟨body⟩, hcircular⟩ | heq
  · have hexceeds := exceeds_of_circular hcircular List.not_mem_nil
    exact absurd hcircular (expandWithin_ne_circular (fun k _ => hexceeds k) hends n [])
  · exact heq

theorem EndsFreely.exists_bound {outcome : Except Failure (List Char)}
    (h : EndsFreely d mode lookup text outcome) :
    ∃ bound, ∀ n, bound ≤ n → expandFreely d mode lookup n text = outcome := by
  obtain ⟨hends, bound, rfl⟩ := h
  refine ⟨bound, fun n hn => ?_⟩
  have happroaches := approaches_of_le (f := fun n => expandFreely d mode lookup n text)
    (fun n => expandFreely_approaches_succ n text) hn
  exact (happroaches.resolve_left hends).symm

/-- The guard is met by endless placeholders only. If the expansion of a text ends without the
guard, the guard makes no difference within any bound, and the outcome is what the text is reported
to come to wherever the bound is deep enough for it. If a placeholder is reported as circular,
neither its replacement nor the expansion of the text would end without the guard. -/
theorem expand_circular_only_endless (d : Delimiters) (mode : Mode)
    (lookup : String → Option String) (text : String) :
    (∀ outcome, EndsFreely d mode (.ofStrings lookup) text.toList outcome →
      (∀ bound, expandWithin d mode (.ofStrings lookup) bound [] text.toList =
        expandFreely d mode (.ofStrings lookup) bound text.toList) ∧
      ∃ size, ∀ valueSize, size ≤ valueSize →
        expand d mode valueSize lookup text = reported outcome) ∧
    ∀ valueSize placeholder,
      expand d mode valueSize lookup text = .error (.circularPlaceholder placeholder) →
      (∀ bound, Exceeds d mode (.ofStrings lookup) placeholder.toList bound) ∧
      ∀ outcome, ¬EndsFreely d mode (.ofStrings lookup) text.toList outcome := by
  refine ⟨fun outcome h => ⟨h.expandWithin_eq, ?_⟩, fun valueSize placeholder h => ?_⟩
  · obtain ⟨bound, hbound⟩ := h.exists_bound
    refine ⟨bound, fun valueSize hsize => ?_⟩
    rw [expand_eq_reported, h.expandWithin_eq, hbound]
    unfold depthBound
    omega
  · rw [expand_eq_reported] at h
    have hcircular := eq_of_reported_circular h
    have hexceeds := exceeds_of_circular hcircular List.not_mem_nil
    refine ⟨hexceeds, ?_⟩
    rintro outcome ⟨hends, bound, rfl⟩
    exact expandWithin_ne_circular (fun k _ => hexceeds k) hends _ [] hcircular

/-- Properties that share a value, and two that refer to each other. -/
def sharing : Table String :=
  .ofList [("x", "1"), ("pair", "$\x7bx\x7d-$\x7bx\x7d"), ("key", "x"),
    ("ping", "$\x7bpong\x7d"), ("pong", "$\x7bping\x7d")]

theorem expand_circular_only_endless_sharing :
    EndsFreely .standard .required (.ofStrings sharing.get?)
      "$\x7bx\x7d$\x7bx\x7d $\x7bpair\x7d $\x7bnone:$\x7bx\x7d\x7d $\x7b$\x7bkey\x7d\x7d".toList
      (.ok "11 1-1 1 1".toList) ∧
    (∃ size, ∀ valueSize, size ≤ valueSize →
      expand .standard .required valueSize sharing.get?
        "$\x7bx\x7d$\x7bx\x7d $\x7bpair\x7d $\x7bnone:$\x7bx\x7d\x7d $\x7b$\x7bkey\x7d\x7d" =
          reported (.ok "11 1-1 1 1".toList)) ∧
    expand .standard .required sharing.textSize sharing.get? "$\x7bping\x7d" =
      .error (.circularPlaceholder "ping") ∧
    ∀ bound, Exceeds .standard .required (.ofStrings sharing.get?) "ping".toList bound := by
  have hends : EndsFreely .standard .required (.ofStrings sharing.get?)
      "$\x7bx\x7d$\x7bx\x7d $\x7bpair\x7d $\x7bnone:$\x7bx\x7d\x7d $\x7b$\x7bkey\x7d\x7d".toList
      (.ok "11 1-1 1 1".toList) := ⟨nofun, 3, by decide +kernel⟩
  have hping : expand .standard .required sharing.textSize sharing.get? "$\x7bping\x7d" =
      .error (.circularPlaceholder "ping") := by decide +kernel
  exact ⟨hends, ((expand_circular_only_endless ..).1 _ hends).2, hping,
    ((expand_circular_only_endless ..).2 _ _ hping).1⟩

end Wiring.Placeholder
