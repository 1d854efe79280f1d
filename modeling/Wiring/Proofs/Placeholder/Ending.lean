import Mathlib.Algebra.Order.BigOperators.Group.List
import Mathlib.Algebra.Order.Group.Nat
import Wiring.Proofs.Count
import Wiring.Proofs.Placeholder.Expansion
import Wiring.Proofs.Table

/-!
# Expansions that end

A placeholder is not entered again while it is in progress, so an expansion can only go on for ever
by putting together placeholders that are in no text and no value. That takes a dollar sign which
stands alone: it may come to stand before a brace that belongs to something else. Where every dollar
sign starts a placeholder that is closed, or has an ordinary character behind it, all placeholders
that are ever met are in the text or in a value, and the expansion ends. There are dollar signs that
stand alone with which it never ends.
-/

namespace Wiring.Placeholder

open Delimiters

variable {S : List (List Char)} {s r before after body rest text raw : List Char} {n : Nat}

/-! ## Settled texts -/

/-- The body of the placeholder that a dollar sign before this text starts. -/
def body? : List Char → Option (List Char)
  | '\x7b' :: s => (cutBalanced standard 0 0 s).map (·.1)
  | _ => none

/-- Does a dollar sign before this text start a placeholder that is closed, or has it an ordinary
character behind it? -/
def isAfterDollar : List Char → Bool
  | [] => false
  | '\x7b' :: s => (body? ('\x7b' :: s)).isSome
  | c :: _ => c != '$' && c != '\x7d'

/-- Does every dollar sign start a placeholder that is closed, or has it an ordinary character
behind it? -/
def isSettled : List Char → Bool
  | [] => true
  | c :: s => (c != '$' || isAfterDollar s) && isSettled s

/-- The bodies of the placeholders of a text, at any depth. -/
def bodies : List Char → List (List Char)
  | [] => []
  | c :: s => if c = '$' then (body? s).toList ++ bodies s else bodies s

theorem length_bodies_le (s : List Char) : (bodies s).length ≤ s.length := by
  induction s with
  | nil => exact Nat.le_refl 0
  | cons c s ih =>
    have hbody : (body? s).toList.length ≤ 1 := by cases body? s <;> simp
    unfold bodies
    split
    · rw [List.length_append, List.length_cons]
      omega
    · exact Nat.le_succ_of_le ih

/-- A dollar sign before this text starts a placeholder of `S`, or has an ordinary character behind
it. -/
inductive AfterDollar (S : List (List Char)) : List Char → Prop
  | placeholder {body rest : List Char} (hb : Closes 0 body) (hmem : body ∈ S) :
      AfterDollar S ('\x7b' :: (body ++ '\x7d' :: rest))
  | ordinary {c : Char} {s : List Char} (hd : c ≠ '$') (ho : c ≠ '\x7b') (hc : c ≠ '\x7d') :
      AfterDollar S (c :: s)

/-- Every dollar sign starts a placeholder of `S`, or has an ordinary character behind it. -/
def Settled (S : List (List Char)) : List Char → Prop
  | [] => True
  | c :: s => (c = '$' → AfterDollar S s) ∧ Settled S s

theorem afterDollar_of_isAfterDollar (h : isAfterDollar s = true)
    (hS : (body? s).toList ⊆ S) : AfterDollar S s := by
  unfold isAfterDollar at h
  split at h
  · cases h
  next s =>
    obtain ⟨body, hbody⟩ := Option.isSome_iff_exists.1 h
    obtain ⟨⟨b, rest⟩, hcut, rfl⟩ := Option.map_eq_some_iff.1 hbody
    obtain ⟨rfl, hb⟩ := cutBalanced_eq_some_iff.1 hcut
    exact .placeholder hb (hS (by rw [hbody]; exact List.mem_singleton_self _))
  next c s ho =>
    rw [Bool.and_eq_true, bne_iff_ne, bne_iff_ne] at h
    exact .ordinary h.1 ho h.2

/-- A text with settled dollar signs is settled for all placeholders in it. -/
theorem settled_of_isSettled (h : isSettled s = true) (hS : bodies s ⊆ S) : Settled S s := by
  induction s with
  | nil => trivial
  | cons c s ih =>
    unfold isSettled at h
    rw [Bool.and_eq_true, Bool.or_eq_true, bne_iff_ne] at h
    unfold bodies at hS
    by_cases hc : c = '$'
    · rw [if_pos hc, List.append_subset] at hS
      have hafter := h.1.resolve_left fun hne => hne hc
      exact ⟨fun _ => afterDollar_of_isAfterDollar hafter hS.1, ih h.2 hS.2⟩
    · rw [if_neg hc] at hS
      exact ⟨fun h => absurd h hc, ih h.2 hS⟩

namespace AfterDollar

theorem append (h : AfterDollar S s) (r : List Char) : AfterDollar S (s ++ r) := by
  cases h with
  | placeholder hb hmem =>
    rw [List.cons_append, List.append_assoc]
    exact .placeholder hb hmem
  | ordinary hd ho hc => exact .ordinary hd ho hc

theorem not_closing : ¬ AfterDollar S ('\x7d' :: s) := by
  generalize hs : '\x7d' :: s = t
  intro h
  cases h with
  | placeholder => cases hs
  | ordinary hd ho hc => exact hc (List.cons.inj hs).1.symm

theorem not_dollar : ¬ AfterDollar S ('$' :: s) := by
  generalize hs : '$' :: s = t
  intro h
  cases h with
  | placeholder => cases hs
  | ordinary hd ho hc => exact hd (List.cons.inj hs).1.symm

theorem exists_body (h : AfterDollar S ('\x7b' :: s)) :
    ∃ body rest, cutBalanced standard 0 0 s = some (body, rest) ∧ Closes 0 body ∧ body ∈ S := by
  generalize hs : '\x7b' :: s = t at h
  cases h with
  | @placeholder body rest hb hmem =>
    cases hs
    exact ⟨body, rest, cutBalanced_eq_some_iff.2 ⟨rfl, hb⟩, hb, hmem⟩
  | ordinary hd ho hc => exact absurd (List.cons.inj hs).1.symm ho

/-- Within braces a dollar sign is led by what is within the braces. -/
theorem of_append (h : AfterDollar S (s ++ '\x7d' :: r)) (hs : Closes n s) : AfterDollar S s := by
  cases s with
  | nil => exact absurd h not_closing
  | cons c s =>
    by_cases ho : c = '\x7b'
    · subst ho
      obtain ⟨body, rest, hcut, hb, hmem⟩ := exists_body h
      have hopen : Closes (n + 1) s := by
        generalize ht : '\x7b' :: s = t at hs
        cases hs with
        | nil => cases ht
        | opening hs => cases ht; exact hs
        | closing => cases ht
        | other ho => exact absurd (List.cons.inj ht).1.symm ho
      obtain ⟨body', rest', hcut', -⟩ := hopen.exists_cut (m := 0) (Nat.add_comm ..)
      obtain ⟨rfl, hb'⟩ := cutBalanced_eq_some_iff.1 hcut'
      have hsame : cutBalanced standard 0 0 ((body' ++ '\x7d' :: rest') ++ '\x7d' :: r) =
          some (body', rest' ++ '\x7d' :: r) :=
        cutBalanced_eq_some_iff.2 ⟨List.append_assoc .., hb'⟩
      obtain rfl : body' = body := (Prod.mk.inj (Option.some.inj (hsame.symm.trans hcut))).1
      exact .placeholder hb hmem
    · rw [List.cons_append] at h
      generalize ht : c :: (s ++ '\x7d' :: r) = t at h
      cases h with
      | placeholder => exact absurd (List.cons.inj ht).1 ho
      | ordinary hd ho hc =>
        obtain ⟨rfl, -⟩ := List.cons.inj ht
        exact .ordinary hd ho hc

end AfterDollar

namespace Settled

theorem append (hs : Settled S s) (hr : Settled S r) : Settled S (s ++ r) := by
  induction s with
  | nil => exact hr
  | cons c s ih => exact ⟨fun hc => (hs.1 hc).append r, ih hs.2⟩

theorem of_append (h : Settled S (r ++ s)) : Settled S s := by
  induction r with
  | nil => exact h
  | cons c r ih => exact ih h.2

theorem within (h : Settled S (s ++ '\x7d' :: r)) (hs : Closes n s) : Settled S s := by
  induction hs with
  | nil => trivial
  | opening _ ih => exact ⟨fun hc => absurd hc (by decide), ih h.2⟩
  | closing _ ih => exact ⟨fun hc => absurd hc (by decide), ih h.2⟩
  | other _ _ hs ih => exact ⟨fun hc => (h.1 hc).of_append hs, ih h.2⟩

theorem braced (hb : Closes 0 body) (hmem : body ∈ S) (h : Settled S body) :
    Settled S (standard.opening ++ body ++ standard.closing) :=
  ⟨fun _ => .placeholder hb hmem, fun hc => absurd hc (by decide),
    h.append ⟨fun hc => absurd hc (by decide), trivial⟩⟩

/-- Before the first placeholder a text is settled by itself. -/
theorem before_opening (h : Settled S s)
    (hcut : cutFirst standard.opening s = some (before, after)) :
    Settled S before ∧ AfterDollar S ('\x7b' :: after) ∧ Settled S after := by
  induction s generalizing before with
  | nil => cases hcut
  | cons c s ih =>
    by_cases hstart : c = '$' ∧ s.head? = some '\x7b'
    · obtain ⟨rfl, hhead⟩ := hstart
      obtain ⟨s, rfl⟩ := List.head?_eq_some_iff.1 hhead
      cases hcut
      exact ⟨trivial, h.1 rfl, h.2.2⟩
    · rw [cutFirst_cons fun hc hs => hstart ⟨hc, hs⟩] at hcut
      obtain ⟨⟨b, a⟩, hcut, he⟩ := Option.map_eq_some_iff.1 hcut
      cases he
      obtain ⟨hb, hdollar, ha⟩ := ih h.2 hcut
      refine ⟨⟨fun hc => ?_, hb⟩, hdollar, ha⟩
      have hs := eq_append_of_cutFirst hcut
      have hbehind : AfterDollar S (b ++ standard.opening ++ after) := hs ▸ h.1 hc
      cases b with
      | nil => exact absurd hbehind AfterDollar.not_dollar
      | cons c' b =>
        generalize ht : c' :: b ++ standard.opening ++ after = t at hbehind
        cases hbehind with
        | placeholder => exact absurd ⟨hc, by rw [hs, ht]; rfl⟩ hstart
        | ordinary hd ho hc =>
          obtain ⟨rfl, -⟩ := List.cons.inj ht
          exact .ordinary hd ho hc

end Settled

/-- A segment of a settled text: its literals are settled, and its placeholders are of `S` and
settled. -/
def SettledSegment (S : List (List Char)) : Segment → Prop
  | .literal s => Settled S s
  | .placeholder body => Closes 0 body ∧ body ∈ S ∧ Settled S body

theorem Settled.segments (h : Settled S s) : ∀ segment ∈ segments standard s,
    SettledSegment S segment := by
  induction hlength : s.length using Nat.strongRecOn generalizing s with
  | ind length ih =>
    rw [segments_eq opening_standard_ne_nil]
    cases hfirst : cutFirst standard.opening s with
    | none => exact List.forall_mem_singleton.2 h
    | some cut =>
      obtain ⟨before, after⟩ := cut
      obtain ⟨hbefore, hdollar, hafter⟩ := h.before_opening hfirst
      obtain ⟨body, rest, hcut, hb, hmem⟩ := hdollar.exists_body
      have hsplit := (cutBalanced_eq_some_iff.1 hcut).1
      simp only [hcut]
      have hlt : rest.length < length := by
        have hfirst := length_of_cutFirst hfirst
        have hrest := length_of_cutBalanced hcut
        have hopening : standard.opening.length = 2 := rfl
        omega
      refine List.forall_mem_cons.2 ⟨hbefore, List.forall_mem_cons.2 ⟨⟨hb, hmem, ?_⟩, ?_⟩⟩
      · exact (hsplit ▸ hafter).within hb
      · have hclosing : Settled S ('\x7d' :: rest) := Settled.of_append (hsplit ▸ hafter)
        exact ih rest.length hlt hclosing.2 rfl

/-! ## Settled expansions -/

/-- An outcome that was not cut off; a text that it gives is settled. -/
def Arrives (S : List (List Char)) : Except Failure (List Char) → Prop
  | .ok result => Settled S result
  | .error failure => failure ≠ .tooDeep

namespace Arrives

variable {x : Except Failure (List Char)} {f : List Char → Except Failure (List Char)}

theorem bind (hx : Arrives S x) (hf : ∀ result, Settled S result → Arrives S (f result)) :
    Arrives S (x >>= f) := by
  cases x with
  | error failure => exact hx
  | ok result => exact hf result hx

theorem ne_tooDeep (h : Arrives S x) : x ≠ .error .tooDeep := by
  rintro rfl
  exact h rfl

end Arrives

theorem arrives_expandAll {f : Segment → Except Failure (List Char)} {l : List Segment}
    (h : ∀ segment ∈ l, Arrives S (f segment)) : Arrives S (expandAll f l) := by
  induction l with
  | nil => exact trivial
  | cons segment l ih =>
    obtain ⟨hsegment, hl⟩ := List.forall_mem_cons.1 h
    exact hsegment.bind fun part hpart => (ih hl).bind fun parts hparts => hpart.append hparts

section Ends

variable {mode : Mode} {lookup : Lookup} {bound : Nat} {inProgress : List (List Char)}

/-- Within a bound on the placeholders of `S` that are not in progress the expansion of a settled
text is not cut off. -/
theorem arrives_expandWithin (hlookup : ∀ key value, lookup key = some value → Settled S value)
    (hb : unmet S inProgress < bound) (h : Settled S text) :
    Arrives S (expandWithin standard mode lookup bound inProgress text) := by
  induction bound generalizing inProgress text with
  | zero => exact absurd hb (Nat.not_lt_zero _)
  | succ bound ih =>
    rw [expandWithin_succ]
    refine arrives_expandAll fun segment hsegment => ?_
    have hsegment := h.segments segment hsegment
    cases segment with
    | literal s => exact hsegment
    | placeholder body =>
      obtain ⟨hcloses, hmem, hbody⟩ := hsegment
      by_cases hentered : body ∈ inProgress
      · rw [expandSegment_of_mem hentered]
        exact nofun
      · -- entering `body` leaves one placeholder less to enter, both for it and for its value
        have hfewer : unmet S (body :: inProgress) < bound :=
          Nat.lt_of_lt_of_le (unmet_cons_lt hmem hentered) (Nat.le_of_lt_succ hb)
        rw [expandSegment_of_not_mem hentered]
        refine (ih hfewer hbody).bind fun placeholder hplaceholder => ?_
        cases hv : value? standard lookup placeholder with
        | some raw =>
          refine ih hfewer ?_
          rcases value?_cases hv with ⟨key, hkey⟩ | ⟨before, rfl⟩
          · exact hlookup key raw hkey
          · -- a default is the end of what the body came to, and need not be in `S` or in a value
            exact hplaceholder.of_append
        | none =>
          cases mode with
          | lenient => exact hbody.braced hcloses hmem
          | required => exact nofun

/-- The bodies of all placeholders of a text and of values. -/
def allBodies (text : String) (values : List String) : List (List Char) :=
  bodies text.toList ++ values.flatMap fun value => bodies value.toList

theorem length_allBodies_le (text : String) (values : List String) :
    (allBodies text values).length ≤ text.length + (values.flatMap String.toList).length := by
  have hvalues : (values.flatMap fun value => bodies value.toList).length ≤
      (values.flatMap String.toList).length := by
    rw [List.length_flatMap, List.length_flatMap]
    exact List.sum_le_sum fun value _ => length_bodies_le value.toList
  unfold allBodies
  rw [List.length_append, ← String.length_toList]
  exact Nat.add_le_add (length_bodies_le text.toList) hvalues

end Ends

/-- The expansion of a text ends, in either mode, if every dollar sign in it and in the values that
can be looked up starts a placeholder that is closed or has an ordinary character behind it. -/
theorem expand_ends {text : String} {lookup : String → Option String} {values : List String}
    {valueSize : Nat} (mode : Mode) (htext : isSettled text.toList = true)
    (hlookup : ∀ key value, lookup key = some value → value ∈ values)
    (hvalues : ∀ value ∈ values, isSettled value.toList = true)
    (hsize : (values.flatMap String.toList).length ≤ valueSize) :
    ∃ outcome, outcome ≠ .error .tooDeep ∧
      (∀ bound, text.length + valueSize < bound →
        expandWithin standard mode (.ofStrings lookup) bound [] text.toList = outcome) ∧
      ∀ work, expand standard mode valueSize lookup text ≠ .error (.exhausted work) := by
  have htext : Settled (allBodies text values) text.toList :=
    settled_of_isSettled htext (List.subset_append_left _ _)
  have hlookup : ∀ key value, Lookup.ofStrings lookup key = some value →
      Settled (allBodies text values) value := by
    intro key value h
    obtain ⟨value, hvalue, rfl⟩ := Option.map_eq_some_iff.1 h
    have hmem := hlookup _ _ hvalue
    refine settled_of_isSettled (hvalues value hmem) fun body hbody => ?_
    exact List.mem_append_right _ (List.mem_flatMap.2 ⟨value, hmem, hbody⟩)
  have hsize : (allBodies text values).length ≤ text.length + valueSize :=
    (length_allBodies_le text values).trans (Nat.add_le_add_left hsize _)
  have harrives {bound : Nat} (hb : text.length + valueSize < bound) :
      expandWithin standard mode (.ofStrings lookup) bound [] text.toList ≠ .error .tooDeep :=
    (arrives_expandWithin hlookup (((unmet_le _ []).trans hsize).trans_lt hb) htext).ne_tooDeep
  have hfirst := harrives (Nat.lt_succ_self _)
  refine ⟨_, hfirst, fun bound hb => ?_, expand_ne_exhausted (harrives ?_)⟩
  · exact ((expandWithin_approaches (Nat.succ_le_of_lt hb)).resolve_left hfirst).symm
  · unfold depthBound spareDepth
    rw [String.length_toList]
    omega

/-- Properties that refer to each other. -/
def crossed : Table String :=
  .ofList [("first", "$5 and $\x7bsecond\x7d"), ("second", "$\x7bfirst:none\x7d")]

theorem expand_ends_crossed : isSettled "at $\x7bfirst\x7d".toList = true ∧
    (∀ value ∈ crossed.entries.map (·.2), isSettled value.toList = true) ∧
    (∃ outcome, outcome ≠ .error .tooDeep ∧
      (∀ bound, "at $\x7bfirst\x7d".length + crossed.textSize < bound →
        expandWithin standard .lenient (.ofStrings crossed.get?) bound []
          "at $\x7bfirst\x7d".toList = outcome) ∧
      ∀ work, expand standard .lenient crossed.textSize crossed.get? "at $\x7bfirst\x7d" ≠
        .error (.exhausted work)) ∧
    expand standard .lenient crossed.textSize crossed.get? "at $\x7bfirst\x7d" =
      .error (.circularPlaceholder "second") := by
  have htext : isSettled "at $\x7bfirst\x7d".toList = true := by decide
  have hvalues : ∀ value ∈ crossed.entries.map (·.2), isSettled value.toList = true := by decide
  refine ⟨htext, hvalues, expand_ends .lenient htext (fun key value h => ?_) hvalues ?_, ?_⟩
  · exact List.mem_map.2 ⟨_, Table.mem_entries_of_get? h, rfl⟩
  · decide
  · decide +kernel

/-! ## An expansion that never ends -/

/-- Properties of which one is a dollar sign alone and another has a placeholder that is not
closed. -/
def growing : Table String :=
  .ofList [("c", "x:$\x7b$\x7bc\x7d"), ("d", "$"), ("z", "A$\x7bd\x7d\x7bz\x7d\x7d")]

namespace Growing

variable {mode : Mode} {inProgress : List (List Char)}

/-- The placeholder `c`, so many letters, and the placeholder `z`. -/
def bodyOf (k : Nat) : List Char :=
  ['$', '\x7b', 'c', '\x7d'] ++ (List.replicate k 'A' ++ ['$', '\x7b', 'z', '\x7d'])

theorem length_bodyOf (k : Nat) : (bodyOf k).length = k + 8 := by
  simp only [bodyOf, List.length_append, List.length_replicate, List.length_cons, List.length_nil]
  omega

/-- A placeholder with this body. -/
def textOf (k : Nat) : List Char := '$' :: '\x7b' :: (bodyOf k ++ ['\x7d'])

theorem closes_bodyOf (k : Nat) : Closes 0 (bodyOf k) := by
  have hc : Closes 0 ['c'] := closes_of_plain (List.forall_mem_singleton.2 (by decide))
  have hgap : Closes 0 (List.replicate k 'A') :=
    closes_of_plain fun c hc => by rw [List.eq_of_mem_replicate hc]; decide
  have hz : Closes 0 ['z'] := closes_of_plain (List.forall_mem_singleton.2 (by decide))
  exact (Closes.other (by decide) (by decide) hc.braced).append
    (hgap.append (.other (by decide) (by decide) hz.braced))

theorem segments_textOf (k : Nat) :
    segments standard (textOf k) = [.literal [], .placeholder (bodyOf k), .literal []] :=
  segments_placeholder (closes_bodyOf k) []

theorem segments_bodyOf (k : Nat) : segments standard (bodyOf k) =
    [.literal [], .placeholder ['c'], .literal (List.replicate k 'A'), .placeholder ['z'],
      .literal []] := by
  have hgap : '$' ∉ List.replicate k 'A' := fun h =>
    absurd (List.eq_of_mem_replicate h) (by decide)
  have hz : segments standard ['$', '\x7b', 'z', '\x7d'] =
      [.literal [], .placeholder ['z'], .literal []] := by decide
  obtain ⟨x, l, hsegments, hbehind⟩ := segments_append hgap ['$', '\x7b', 'z', '\x7d']
  rw [hz] at hsegments
  cases hsegments
  have hc : Closes 0 ['c'] := closes_of_plain (List.forall_mem_singleton.2 (by decide))
  have hc := segments_placeholder hc
    (List.replicate k 'A' ++ ['$', '\x7b', 'z', '\x7d'])
  rw [hbehind, List.append_nil] at hc
  exact hc

/-- The body is expanded to a key, a separator and the placeholder with the next longer body. -/
theorem expandWithin_bodyOf (k : Nat) (hshort : ∀ body ∈ inProgress, body.length ≠ 1) :
    expandWithin standard mode (.ofStrings growing.get?) 3 inProgress (bodyOf k) =
      .ok ('x' :: ':' :: textOf (k + 1)) := by
  have hnew (c : Char) : [c] ∉ inProgress := fun h => hshort _ h rfl
  have hc : expandSegment standard mode (.ofStrings growing.get?) 2 inProgress (bodyOf k)
      (.placeholder ['c']) = .ok "x:$\x7b$\x7bc\x7d".toList := by
    rw [expandSegment_eq "x:$\x7b$\x7bc\x7d".toList (hnew 'c')
      (expandWithin_literal (by decide)) (by decide)]
    exact expandWithin_literal (by decide)
  have hd : ['d'] ∉ ['z'] :: inProgress := fun h =>
    (List.mem_cons.1 h).elim (by decide) (hnew 'd')
  have hd : expandSegment standard mode (.ofStrings growing.get?) 1 (['z'] :: inProgress)
      "A$\x7bd\x7d\x7bz\x7d\x7d".toList (.placeholder ['d']) = .ok ['$'] := by
    rw [expandSegment_eq ['$'] hd
      (expandWithin_literal (by decide)) (by decide)]
    exact expandWithin_literal (by decide)
  have hz : expandSegment standard mode (.ofStrings growing.get?) 2 inProgress (bodyOf k)
      (.placeholder ['z']) = .ok "A$\x7bz\x7d\x7d".toList := by
    rw [expandSegment_eq "A$\x7bd\x7d\x7bz\x7d\x7d".toList (hnew 'z')
      (expandWithin_literal (by decide)) (by decide), expandWithin_succ,
      show segments standard "A$\x7bd\x7d\x7bz\x7d\x7d".toList =
        [.literal ['A'], .placeholder ['d'], .literal "\x7bz\x7d\x7d".toList] by decide]
    simp only [expandAll, hd]
    rfl
  rw [expandWithin_succ, segments_bodyOf]
  simp only [expandAll, hc, hz]
  show Except.ok ([] ++ ("x:$\x7b$\x7bc\x7d".toList ++ (List.replicate k 'A' ++
    ("A$\x7bz\x7d\x7d".toList ++ ([] ++ []))))) = _
  unfold textOf bodyOf
  rw [List.replicate_succ']
  simp

theorem value?_textOf (k : Nat) :
    value? standard (.ofStrings growing.get?) ('x' :: ':' :: textOf k) = some (textOf k) := by
  have hunknown : Lookup.ofStrings growing.get? ('x' :: ':' :: textOf k) = none := by
    refine congrArg (Option.map String.toList) (Table.get?_eq_none fun h => ?_)
    have hnames : growing.names = ["c", "d", "z"] := by decide
    have hlong : ∀ name ∈ growing.names, name.toList.length = 1 := by rw [hnames]; decide
    have hlength := hlong _ h
    rw [String.toList_ofList] at hlength
    cases hlength
  unfold value?
  rw [hunknown]
  rfl

/-- Whatever the bound is, the placeholders use it up: each puts together a longer one. -/
theorem expandWithin_textOf (bound k : Nat)
    (hshort : ∀ body ∈ inProgress, 8 ≤ body.length ∧ body.length < k + 8) :
    expandWithin standard mode (.ofStrings growing.get?) bound inProgress (textOf k) =
      .error .tooDeep := by
  induction bound generalizing k inProgress with
  | zero => rfl
  | succ bound ih =>
    have hnew : bodyOf k ∉ inProgress := fun h => by
      have := (hshort _ h).2
      rw [length_bodyOf] at this
      omega
    have hnext : ∀ body ∈ bodyOf k :: inProgress, 8 ≤ body.length ∧ body.length < k + 1 + 8 := by
      refine List.forall_mem_cons.2 ⟨?_, fun body h => ?_⟩
      · rw [length_bodyOf]
        omega
      · have := hshort body h
        omega
    have hbody : ∀ body ∈ bodyOf k :: inProgress, body.length ≠ 1 := fun body h => by
      have := (hnext body h).1
      omega
    have hsegment : expandSegment standard mode (.ofStrings growing.get?) bound
        inProgress (textOf k) (.placeholder (bodyOf k)) = .error .tooDeep := by
      rcases approaches_of_expandWithin_ok (expandWithin_bodyOf k hbody) bound with hdeep | hok
      · exact expandSegment_failed hnew hdeep
      · rw [expandSegment_eq _ hnew hok (value?_textOf _)]
        exact ih (k + 1) hnext
    rw [expandWithin_succ, segments_textOf]
    simp only [expandAll, hsegment]
    rfl

end Growing

/-- An expansion ends if some bound is deep enough for it. -/
def HasEnd (mode : Mode) (lookup : Lookup) (text : List Char) : Prop :=
  ∃ bound, expandWithin standard mode lookup bound [] text ≠ .error .tooDeep

/-- There is a text whose expansion never ends, in either mode: within every bound it goes deeper.
-/
theorem not_hasEnd_growing :
    ¬HasEnd .lenient (.ofStrings growing.get?) "$\x7b$\x7bc\x7d$\x7bz\x7d\x7d".toList ∧
      ¬HasEnd .required (.ofStrings growing.get?) "$\x7b$\x7bc\x7d$\x7bz\x7d\x7d".toList := by
  have hgrowing (mode : Mode) :
      ¬HasEnd mode (.ofStrings growing.get?) "$\x7b$\x7bc\x7d$\x7bz\x7d\x7d".toList :=
    fun ⟨bound, h⟩ => h (Growing.expandWithin_textOf bound 0 nofun)
  exact ⟨hgrowing .lenient, hgrowing .required⟩

end Wiring.Placeholder
