import Wiring.Placeholder
import Wiring.Proofs.Placeholder.Segment

/-!
# Expansion segment by segment

A text is expanded by replacing its segments one after the other. How deep placeholders may be
nested only decides whether an expansion is cut off: with a larger bound one that was not gives the
same outcome.
-/

namespace Wiring.Placeholder

variable {d : Delimiters} {mode : Mode} {lookup : Lookup} {bound : Nat}
  {inProgress : List (List Char)} {text s : List Char}

/-- The value of a placeholder is one that is looked up, or the end of the placeholder. -/
theorem value?_cases {placeholder raw : List Char} (h : value? d lookup placeholder = some raw) :
    (∃ key, lookup key = some raw) ∨ ∃ before, placeholder = before ++ raw := by
  unfold value? at h
  cases hwhole : lookup placeholder with
  | some value => exact .inl ⟨placeholder, hwhole.trans (by rwa [hwhole] at h)⟩
  | none =>
    rw [hwhole] at h
    obtain ⟨separator, -, h⟩ := Option.bind_eq_some_iff.1 h
    obtain ⟨⟨key, default⟩, hcut, h⟩ := Option.bind_eq_some_iff.1 h
    cases hkey : lookup key with
    | some value => exact .inl ⟨key, hkey.trans (by simpa [hkey] using h)⟩
    | none =>
      obtain rfl : default = raw := by simpa [hkey] using h
      exact .inr ⟨key ++ separator, eq_append_of_cutFirst hcut⟩

/-- What a segment of `text` is replaced by. -/
def expandSegment (d : Delimiters) (mode : Mode) (lookup : Lookup) (bound : Nat)
    (inProgress : List (List Char)) (text : List Char) : Segment → Except Failure (List Char)
  | .literal s => .ok s
  | .placeholder body =>
    if inProgress.contains body then .error (.circular body)
    else do
      let placeholder ← expandWithin d mode lookup bound (body :: inProgress) body
      match value? d lookup placeholder, mode with
      | some raw, _ => expandWithin d mode lookup bound (body :: inProgress) raw
      | none, .lenient => .ok (d.opening ++ body ++ d.closing)
      | none, .required => .error (.unresolvable placeholder text)

/-- What stands in place of a placeholder without a value. -/
def unresolved (d : Delimiters) (mode : Mode) (text body placeholder : List Char) :
    Except Failure (List Char) :=
  match mode with
  | .lenient => .ok (d.opening ++ body ++ d.closing)
  | .required => .error (.unresolvable placeholder text)

/-- What a placeholder is replaced by once its body is expanded. -/
def expandValue (d : Delimiters) (mode : Mode) (lookup : Lookup)
    (expand : List Char → Except Failure (List Char)) (text body placeholder : List Char) :
    Except Failure (List Char) :=
  match value? d lookup placeholder with
  | some raw => expand raw
  | none => unresolved d mode text body placeholder

/-- What a segment of `text` is replaced by, where `expand` says what the texts in it come to. -/
def replaceSegment (d : Delimiters) (mode : Mode) (lookup : Lookup)
    (expand : List Char → Except Failure (List Char)) (text : List Char) :
    Segment → Except Failure (List Char)
  | .literal s => .ok s
  | .placeholder body => expand body >>= expandValue d mode lookup expand text body

/-- Replace segments and join what they are replaced by. -/
def expandAll (f : Segment → Except Failure (List Char)) :
    List Segment → Except Failure (List Char)
  | [] => .ok []
  | segment :: rest => do
    let part ← f segment
    let parts ← expandAll f rest
    .ok (part ++ parts)

theorem expandAll_eq_mapM (f : Segment → Except Failure (List Char)) (l : List Segment) :
    expandAll f l = l.mapM f >>= fun parts => pure parts.flatten := by
  induction l with
  | nil => rfl
  | cons segment l ih =>
    rw [expandAll, ih, List.mapM_cons]
    cases f segment with
    | error e => rfl
    | ok part =>
      cases l.mapM f with
      | error e => rfl
      | ok parts => rfl

theorem expandSegment_of_mem {body : List Char} (h : body ∈ inProgress) :
    expandSegment d mode lookup bound inProgress text (.placeholder body) =
      .error (.circular body) :=
  if_pos (List.contains_iff_mem.2 h)

theorem expandSegment_of_not_mem {body : List Char} (h : body ∉ inProgress) :
    expandSegment d mode lookup bound inProgress text (.placeholder body) = (do
      let placeholder ← expandWithin d mode lookup bound (body :: inProgress) body
      match value? d lookup placeholder, mode with
      | some raw, _ => expandWithin d mode lookup bound (body :: inProgress) raw
      | none, .lenient => .ok (d.opening ++ body ++ d.closing)
      | none, .required => .error (.unresolvable placeholder text)) :=
  if_neg fun hc => h (List.contains_iff_mem.1 hc)

theorem expandSegment_eq_replaceSegment {body : List Char} (h : body ∉ inProgress) :
    expandSegment d mode lookup bound inProgress text (.placeholder body) =
      replaceSegment d mode lookup (expandWithin d mode lookup bound (body :: inProgress)) text
        (.placeholder body) := by
  rw [expandSegment_of_not_mem h, replaceSegment]
  refine congrArg (expandWithin d mode lookup bound (body :: inProgress) body >>= ·) ?_
  funext placeholder
  unfold expandValue
  cases value? d lookup placeholder with
  | some raw => rfl
  | none => cases mode <;> rfl

theorem expandWithin_succ : expandWithin d mode lookup (bound + 1) inProgress text =
    expandAll (expandSegment d mode lookup bound inProgress text) (segments d text) := by
  rw [expandAll_eq_mapM]
  refine congrArg (fun f => (segments d text).mapM f >>= fun parts => pure parts.flatten) ?_
  funext segment
  cases segment with
  | literal s => rfl
  | placeholder body =>
    by_cases h : body ∈ inProgress
    · rw [expandSegment_of_mem h]
      simp only [if_pos h]
      rfl
    · rw [expandSegment_of_not_mem h]
      simp only [if_neg h]
      rfl

theorem expandSegment_of_ok {body placeholder : List Char} (h : body ∉ inProgress) :
    expandWithin d mode lookup bound (body :: inProgress) body = .ok placeholder →
    expandSegment d mode lookup bound inProgress text (.placeholder body) =
      match value? d lookup placeholder, mode with
      | some raw, _ => expandWithin d mode lookup bound (body :: inProgress) raw
      | none, .lenient => .ok (d.opening ++ body ++ d.closing)
      | none, .required => .error (.unresolvable placeholder text) := by
  intro hp
  rw [expandSegment_of_not_mem h, hp]
  rfl

theorem expandSegment_eq {body placeholder : List Char} (raw : List Char) (h : body ∉ inProgress)
    (hp : expandWithin d mode lookup bound (body :: inProgress) body = .ok placeholder)
    (hv : value? d lookup placeholder = some raw) :
    expandSegment d mode lookup bound inProgress text (.placeholder body) =
      expandWithin d mode lookup bound (body :: inProgress) raw := by
  rw [expandSegment_of_ok h hp, hv]

theorem expandSegment_unresolved {body placeholder : List Char} (h : body ∉ inProgress)
    (hp : expandWithin d .required lookup bound (body :: inProgress) body = .ok placeholder)
    (hv : value? d lookup placeholder = none) :
    expandSegment d .required lookup bound inProgress text (.placeholder body) =
      .error (.unresolvable placeholder text) := by
  rw [expandSegment_of_ok h hp, hv]

theorem expandSegment_failed {body : List Char} {failure : Failure} (h : body ∉ inProgress)
    (hp : expandWithin d mode lookup bound (body :: inProgress) body = .error failure) :
    expandSegment d mode lookup bound inProgress text (.placeholder body) = .error failure := by
  rw [expandSegment_of_not_mem h, hp]
  rfl

theorem expandAll_literal_append (s x : List Char) (l : List Segment) :
    expandAll (expandSegment d mode lookup bound inProgress text) (.literal (s ++ x) :: l) =
      (expandAll (expandSegment d mode lookup bound inProgress text) (.literal x :: l)).map
        (s ++ ·) := by
  show (do let parts ← expandAll _ l; .ok (s ++ x ++ parts)) =
    (do let parts ← expandAll _ l; .ok (x ++ parts) : Except Failure (List Char)).map (s ++ ·)
  cases expandAll (expandSegment d mode lookup bound inProgress text) l with
  | error e => rfl
  | ok parts => exact congrArg Except.ok (List.append_assoc ..)

theorem expandAll_literal_nil (l : List Segment) :
    expandAll (expandSegment d mode lookup bound inProgress text) (.literal [] :: l) =
      expandAll (expandSegment d mode lookup bound inProgress text) l := by
  show (do let parts ← expandAll _ l; .ok ([] ++ parts)) = _
  cases expandAll (expandSegment d mode lookup bound inProgress text) l with
  | error e => rfl
  | ok parts => rfl

theorem expandWithin_literal (h : segments d s = [.literal s]) :
    expandWithin d mode lookup (bound + 1) inProgress s = .ok s := by
  rw [expandWithin_succ, h]
  exact congrArg Except.ok (List.append_nil s)

/-! ## Failures -/

/-- The texts that come to be expanded when a placeholder is replaced: its body, and its value. -/
inductive Entered (d : Delimiters) (lookup : Lookup)
    (expand : List Char → Except Failure (List Char)) (body : List Char) : List Char → Prop
  | body : Entered d lookup expand body body
  | value {placeholder raw : List Char} (hbody : expand body = .ok placeholder)
      (hvalue : value? d lookup placeholder = some raw) : Entered d lookup expand body raw

section Failures

variable {expand : List Char → Except Failure (List Char)} {body : List Char} {failure : Failure}

/-- If a text that is entered fails, so does the placeholder. -/
theorem Entered.replaceSegment_eq_error (h : Entered d lookup expand body s)
    (hs : expand s = .error failure) :
    replaceSegment d mode lookup expand text (.placeholder body) = .error failure := by
  rw [replaceSegment]
  cases h with
  | body =>
    rw [hs]
    rfl
  | @value placeholder raw hbody hvalue =>
    rw [hbody]
    show expandValue d mode lookup expand text body placeholder = _
    rw [expandValue, hvalue]
    exact hs

theorem unresolved_eq_error {placeholder : List Char}
    (h : unresolved d mode text body placeholder = .error failure) :
    mode = .required ∧ failure = .unresolvable placeholder text := by
  cases mode with
  | lenient => cases h
  | required =>
    cases h
    exact ⟨rfl, rfl⟩

/-- A placeholder fails only if a text that is entered fails, or it has no value and is to have
one. -/
theorem replaceSegment_eq_error
    (h : replaceSegment d mode lookup expand text (.placeholder body) = .error failure) :
    (∃ s, Entered d lookup expand body s ∧ expand s = .error failure) ∨
      ∃ placeholder, mode = .required ∧ failure = .unresolvable placeholder text := by
  rw [replaceSegment] at h
  cases hbody : expand body with
  | error failure' =>
    rw [hbody] at h
    exact .inl ⟨body, .body, hbody.trans h⟩
  | ok placeholder =>
    rw [hbody] at h
    change expandValue d mode lookup expand text body placeholder = _ at h
    rw [expandValue] at h
    cases hvalue : value? d lookup placeholder with
    | some raw =>
      rw [hvalue] at h
      exact .inl ⟨raw, .value hbody hvalue, h⟩
    | none =>
      rw [hvalue] at h
      exact .inr ⟨placeholder, unresolved_eq_error h⟩

/-- How a placeholder can fail: it is in progress, or a text that is entered fails, or it has no
value and is to have one. -/
theorem expandSegment_eq_error
    (h : expandSegment d mode lookup bound inProgress text (.placeholder body) = .error failure) :
    (body ∈ inProgress ∧ failure = .circular body) ∨
      (∃ s, Entered d lookup (expandWithin d mode lookup bound (body :: inProgress)) body s ∧
        expandWithin d mode lookup bound (body :: inProgress) s = .error failure) ∨
      ∃ placeholder, mode = .required ∧ failure = .unresolvable placeholder text := by
  by_cases hmem : body ∈ inProgress
  · rw [expandSegment_of_mem hmem] at h
    cases h
    exact .inl ⟨hmem, rfl⟩
  · rw [expandSegment_eq_replaceSegment hmem] at h
    exact .inr (replaceSegment_eq_error h)

/-- Segments fail at the first one that does. -/
theorem expandAll_eq_error {f : Segment → Except Failure (List Char)} {l : List Segment}
    (h : expandAll f l = .error failure) : ∃ before segment after,
      l = before ++ segment :: after ∧ (∀ s ∈ before, ∃ part, f s = .ok part) ∧
        f segment = .error failure := by
  induction l with
  | nil => cases h
  | cons segment l ih =>
    unfold expandAll at h
    cases hsegment : f segment with
    | error failure' =>
      rw [hsegment] at h
      exact ⟨[], segment, l, rfl, nofun, hsegment.trans h⟩
    | ok part =>
      rw [hsegment] at h
      cases hl : expandAll f l with
      | error failure' =>
        obtain rfl : failure' = failure := by
          change (expandAll f l >>= fun parts => .ok (part ++ parts)) = _ at h
          rw [hl] at h
          cases h
          rfl
        obtain ⟨before, failed, after, rfl, hbefore, hfailed⟩ := ih hl
        exact ⟨segment :: before, failed, after, rfl,
          List.forall_mem_cons.2 ⟨⟨part, hsegment⟩, hbefore⟩, hfailed⟩
      | ok parts =>
        change (expandAll f l >>= fun parts => .ok (part ++ parts)) = _ at h
        rw [hl] at h
        cases h

end Failures

/-! ## Outcomes that agree -/

/-- The first outcome is one of these failures, or else it is the second one. -/
def AgreesUnless {α : Type} (stops : Failure → Prop) (x y : Except Failure α) : Prop :=
  (∃ failure, stops failure ∧ x = .error failure) ∨ x = y

namespace AgreesUnless

variable {α β : Type} {stops : Failure → Prop} {x y : Except Failure α}

theorem refl (x : Except Failure α) : AgreesUnless stops x x := .inr rfl

theorem of_failure {failure : Failure} (h : stops failure) :
    AgreesUnless stops (.error failure) y :=
  .inl ⟨failure, h, rfl⟩

theorem bind {f g : α → Except Failure β} (h : AgreesUnless stops x y)
    (hf : ∀ a, AgreesUnless stops (f a) (g a)) : AgreesUnless stops (x >>= f) (y >>= g) := by
  rcases h with ⟨failure, hstops, rfl⟩ | rfl
  · exact .of_failure hstops
  · cases x with
    | error failure => exact .refl _
    | ok a => exact hf a

protected theorem expandAll {f g : Segment → Except Failure (List Char)}
    (h : ∀ segment, AgreesUnless stops (f segment) (g segment)) (l : List Segment) :
    AgreesUnless stops (expandAll f l) (expandAll g l) := by
  induction l with
  | nil => exact .refl _
  | cons segment l ih => exact (h segment).bind fun _ => ih.bind fun _ => .refl _

/-- What two modes make of a segment agrees if the texts in it come to what agrees, and what stands
in place of a placeholder without a value agrees. -/
protected theorem replaceSegment {mode mode' : Mode} {e e' : List Char → Except Failure (List Char)}
    (he : ∀ s, AgreesUnless stops (e s) (e' s))
    (hmode : ∀ body placeholder, AgreesUnless stops (unresolved d mode text body placeholder)
      (unresolved d mode' text body placeholder)) (segment : Segment) :
    AgreesUnless stops (replaceSegment d mode lookup e text segment)
      (replaceSegment d mode' lookup e' text segment) := by
  cases segment with
  | literal s => exact .refl _
  | placeholder body =>
    refine (he body).bind fun placeholder => ?_
    unfold expandValue
    cases value? d lookup placeholder with
    | some raw => exact he raw
    | none => exact hmode body placeholder

/-- Expansions that stop at the same placeholders agree if they agree on what is within these. -/
protected theorem expandSegment {mode mode' : Mode} {bound bound' : Nat}
    (he : ∀ inProgress s, AgreesUnless stops (expandWithin d mode lookup bound inProgress s)
      (expandWithin d mode' lookup bound' inProgress s))
    (hmode : ∀ body placeholder, AgreesUnless stops (unresolved d mode text body placeholder)
      (unresolved d mode' text body placeholder)) (segment : Segment) :
    AgreesUnless stops (expandSegment d mode lookup bound inProgress text segment)
      (expandSegment d mode' lookup bound' inProgress text segment) := by
  cases segment with
  | literal s => exact .refl _
  | placeholder body =>
    by_cases h : body ∈ inProgress
    · rw [expandSegment_of_mem h, expandSegment_of_mem h]
      exact .refl _
    · rw [expandSegment_eq_replaceSegment h, expandSegment_eq_replaceSegment h]
      exact .replaceSegment (he _) hmode _

end AgreesUnless

/-! ## The bound -/

/-- The first outcome is the second one, unless it was cut off. -/
def Approaches {α : Type} (x y : Except Failure α) : Prop := x = .error .tooDeep ∨ x = y

namespace Approaches

variable {α : Type} {x y z : Except Failure α}

theorem refl (x : Except Failure α) : Approaches x x := .inr rfl

theorem trans (hxy : Approaches x y) (hyz : Approaches y z) : Approaches x z := by
  rcases hxy with h | rfl
  · exact .inl h
  · exact hyz

end Approaches

theorem approaches_iff {α : Type} {x y : Except Failure α} :
    Approaches x y ↔ AgreesUnless (· = .tooDeep) x y := by
  unfold Approaches AgreesUnless
  rw [exists_eq_left]

theorem approaches_of_le {α : Type} {f : Nat → Except Failure α} {bound bound' : Nat}
    (hf : ∀ n, Approaches (f n) (f (n + 1))) (h : bound ≤ bound') :
    Approaches (f bound) (f bound') := by
  induction h with
  | refl => exact .refl _
  | step _ ih => exact ih.trans (hf _)

/-- An outcome that one bound gives is given by every bound, or the expansion is cut off. -/
theorem approaches_of_ne {α : Type} {f : Nat → Except Failure α} {bound : Nat}
    (hf : ∀ n, Approaches (f n) (f (n + 1))) (h : f bound ≠ .error .tooDeep) (bound' : Nat) :
    Approaches (f bound') (f bound) := by
  rcases Nat.le_total bound' bound with hle | hle
  · exact approaches_of_le hf hle
  · exact .inr ((approaches_of_le hf hle).resolve_left h).symm

theorem approaches_of_ok {α : Type} {f : Nat → Except Failure α} {bound : Nat} {a : α}
    (hf : ∀ n, Approaches (f n) (f (n + 1))) (h : f bound = .ok a) (bound' : Nat) :
    Approaches (f bound') (.ok a) :=
  h ▸ approaches_of_ne hf (h ▸ nofun) bound'

theorem expandWithin_approaches_succ (bound : Nat) (inProgress : List (List Char))
    (text : List Char) : Approaches (expandWithin d mode lookup bound inProgress text)
      (expandWithin d mode lookup (bound + 1) inProgress text) := by
  induction bound generalizing inProgress text with
  | zero => exact .inl rfl
  | succ bound ih =>
    rw [approaches_iff, expandWithin_succ, expandWithin_succ]
    exact .expandAll (.expandSegment (fun inProgress s => approaches_iff.1 (ih inProgress s))
      fun _ _ => .refl _) _

/-- A larger bound makes a difference only where the expansion was cut off. -/
theorem expandWithin_approaches {bound' : Nat} (h : bound ≤ bound') :
    Approaches (expandWithin d mode lookup bound inProgress text)
      (expandWithin d mode lookup bound' inProgress text) :=
  approaches_of_le (f := fun n => expandWithin d mode lookup n inProgress text)
    (fun n => expandWithin_approaches_succ n inProgress text) h

theorem approaches_of_expandWithin_ok {result : List Char}
    (h : expandWithin d mode lookup bound inProgress text = .ok result) (bound' : Nat) :
    Approaches (expandWithin d mode lookup bound' inProgress text) (.ok result) :=
  approaches_of_ok (f := fun n => expandWithin d mode lookup n inProgress text)
    (fun n => expandWithin_approaches_succ n inProgress text) h bound'

/-! ## Reports -/

/-- What an outcome is reported as. -/
def reported : Except Failure (List Char) → Except Error String
  | .ok result => .ok (String.ofList result)
  | .error failure => .error failure.toError

theorem expand_eq_reported {lookup : String → Option String} {text : String} {valueSize : Nat} :
    expand d mode valueSize lookup text = reported (expandWithin d mode (.ofStrings lookup)
      (depthBound text.toList valueSize) [] text.toList) := by
  unfold expand expandChars
  generalize depthBound text.toList valueSize = bound
  cases expandWithin d mode (.ofStrings lookup) bound [] text.toList with
  | ok result => rfl
  | error failure => rfl

theorem eq_of_reported_circular {outcome : Except Failure (List Char)} {placeholder : String}
    (h : reported outcome = .error (.circularPlaceholder placeholder)) :
    outcome = .error (.circular placeholder.toList) := by
  cases outcome with
  | ok result => cases h
  | error failure =>
    cases failure with
    | circular body =>
      cases h
      rw [String.toList_ofList]
    | unresolvable => cases h
    | tooDeep => cases h

theorem expand_ne_exhausted {lookup : String → Option String} {text : String} {valueSize : Nat}
    (h : expandChars d mode valueSize (.ofStrings lookup) text.toList ≠ .error .tooDeep)
    (work : String) : expand d mode valueSize lookup text ≠ .error (.exhausted work) := by
  unfold expand
  cases hexpand : expandChars d mode valueSize (.ofStrings lookup) text.toList with
  | ok result => exact nofun
  | error failure =>
    cases failure with
    | tooDeep => exact absurd hexpand h
    | circular => exact nofun
    | unresolvable => exact nofun

end Wiring.Placeholder
