import Wiring.Placeholder.Segment

/-!
# Where placeholders stand

The segments of a text are found by cutting it at its first placeholder and going on behind that,
however many there are. With braces as delimiters a placeholder ends where the braces that were
opened in it are closed, and what follows it does not matter for where that is.
-/

namespace Wiring.Placeholder

variable {d : Delimiters} {s r before after body rest : List Char} {bound depth n : Nat}

/-! ## Segments of a text -/

theorem length_of_cutFirst {needle : List Char} (h : cutFirst needle s = some (before, after)) :
    before.length + needle.length + after.length = s.length := by
  rw [eq_append_of_cutFirst h, List.length_append, List.length_append]

theorem length_of_cutBalanced {skip : Nat} (h : cutBalanced d skip depth s = some (body, rest)) :
    rest.length ≤ s.length := by
  induction s generalizing skip depth body with
  | nil => cases skip <;> cases h
  | cons c s ih =>
    have inner {skip depth : Nat} {f : List Char × List Char → List Char × List Char}
        (h : (cutBalanced d skip depth s).map f = some (body, rest))
        (hf : ∀ cut, (f cut).2 = cut.2) :
        rest.length ≤ (c :: s).length := by
      obtain ⟨cut, hcut, he⟩ := Option.map_eq_some_iff.1 h
      obtain rfl : cut.2 = rest := (hf cut).symm.trans (congrArg Prod.snd he)
      exact Nat.le_succ_of_le (ih hcut)
    cases skip with
    | succ skip => exact inner h fun _ => rfl
    | zero =>
      unfold cutBalanced at h
      split at h
      next rest' hclosing =>
        cases h
        rw [eq_append_of_isPrefixOf? hclosing]
        simp
      next => exact inner h fun _ => rfl
      next =>
        split at h
        · exact inner h fun _ => rfl
        · exact inner h fun _ => rfl

/-- One more placeholder to look for makes no difference to a text that is not that long. -/
theorem segmentsWithin_eq (hd : d.opening ≠ []) (hb : s.length ≤ bound) :
    segmentsWithin d bound s = segmentsWithin d s.length s := by
  induction bound using Nat.strongRecOn generalizing s with
  | ind bound ih =>
    cases s with
    | nil =>
      cases bound with
      | zero => rfl
      | succ bound =>
        have hnone : cutFirst d.opening [] = none := by
          cases hopening : d.opening with
          | nil => exact absurd hopening hd
          | cons => rfl
        rw [segmentsWithin, hnone]
        rfl
    | cons c s =>
      obtain ⟨bound, rfl⟩ : ∃ m, bound = m + 1 := ⟨bound - 1, by simp at hb; omega⟩
      have hb' : s.length ≤ bound := Nat.le_of_succ_le_succ hb
      rw [List.length_cons, segmentsWithin, segmentsWithin]
      cases hfirst : cutFirst d.opening (c :: s) with
      | none => rfl
      | some cut =>
        obtain ⟨before, after⟩ := cut
        cases hbalanced : cutBalanced d 0 0 after with
        | none => simp only [hbalanced]
        | some cut =>
          obtain ⟨body, rest⟩ := cut
          have hfirst := length_of_cutFirst hfirst
          have hrest := length_of_cutBalanced hbalanced
          have hopening := List.length_pos_iff.2 hd
          rw [List.length_cons] at hfirst
          have hle : rest.length ≤ s.length := by omega
          simp only [hbalanced]
          rw [ih bound (Nat.lt_succ_self _) (Nat.le_trans hle hb'),
            ih s.length (Nat.lt_succ_of_le hb') hle]

/-- The segments of a text are those of what follows its first placeholder, behind that one. -/
theorem segments_eq (hd : d.opening ≠ []) (s : List Char) : segments d s =
    match cutFirst d.opening s with
    | none => [.literal s]
    | some (before, after) =>
      match cutBalanced d 0 0 after with
      | none => [.literal s]
      | some (body, rest) => .literal before :: .placeholder body :: segments d rest := by
  have hs (s : List Char) : segments d s = segmentsWithin d s.length s := if_neg hd
  rw [hs, ← segmentsWithin_eq hd (Nat.le_succ s.length), segmentsWithin]
  cases hfirst : cutFirst d.opening s with
  | none => rfl
  | some cut =>
    obtain ⟨before, after⟩ := cut
    cases hbalanced : cutBalanced d 0 0 after with
    | none => simp only [hbalanced]
    | some cut =>
      obtain ⟨body, rest⟩ := cut
      have hfirst := length_of_cutFirst hfirst
      have hrest := length_of_cutBalanced hbalanced
      simp only [hbalanced]
      rw [segmentsWithin_eq hd (by omega), hs]

/-! ## Braces -/

namespace Delimiters

theorem opening_standard_ne_nil : standard.opening ≠ [] := List.cons_ne_nil _ _

end Delimiters

open Delimiters

/-- A text that closes so many open braces, and all that it opens itself. -/
inductive Closes : Nat → List Char → Prop
  | nil : Closes 0 []
  | opening {n : Nat} {s : List Char} (h : Closes (n + 1) s) : Closes n ('\x7b' :: s)
  | closing {n : Nat} {s : List Char} (h : Closes n s) : Closes (n + 1) ('\x7d' :: s)
  | other {n : Nat} {c : Char} {s : List Char} (ho : c ≠ '\x7b') (hc : c ≠ '\x7d')
    (h : Closes n s) : Closes n (c :: s)

theorem Closes.append {m : Nat} (hs : Closes m s) (hr : Closes n r) : Closes (m + n) (s ++ r) := by
  induction hs with
  | nil => rwa [Nat.zero_add]
  | opening _ ih => exact .opening (Nat.add_right_comm .. ▸ ih)
  | closing _ ih => exact Nat.add_right_comm .. ▸ .closing ih
  | other ho hc _ ih => exact .other ho hc ih

theorem Closes.braced (h : Closes 0 s) : Closes 0 ('\x7b' :: (s ++ ['\x7d'])) :=
  .opening (h.append (.closing .nil))

theorem closes_of_plain (hs : ∀ c ∈ s, c ≠ '\x7b' ∧ c ≠ '\x7d') : Closes 0 s := by
  induction s with
  | nil => exact .nil
  | cons c s ih =>
    obtain ⟨⟨ho, hc⟩, hs⟩ := List.forall_mem_cons.1 hs
    exact .other ho hc (ih hs)

section Cutting

@[simp] theorem cutBalanced_nil : cutBalanced standard 0 depth [] = none := rfl

@[simp] theorem cutBalanced_closing_zero :
    cutBalanced standard 0 0 ('\x7d' :: s) = some ([], s) := rfl

@[simp] theorem cutBalanced_closing_succ : cutBalanced standard 0 (depth + 1) ('\x7d' :: s) =
    (cutBalanced standard 0 depth s).map fun (body, rest) => ('\x7d' :: body, rest) := rfl

@[simp] theorem cutBalanced_opening : cutBalanced standard 0 depth ('\x7b' :: s) =
    (cutBalanced standard 0 (depth + 1) s).map fun (body, rest) => ('\x7b' :: body, rest) := rfl

theorem cutBalanced_other {c : Char} (ho : c ≠ '\x7b') (hc : c ≠ '\x7d') :
    cutBalanced standard 0 depth (c :: s) =
      (cutBalanced standard 0 depth s).map fun (body, rest) => (c :: body, rest) := by
  have hclosing : standard.closing.isPrefixOf? (c :: s) = none := by
    show (if '\x7d' == c then _ else none) = none
    rw [if_neg fun h => hc (beq_iff_eq.1 h).symm]
  have hopening : standard.nestedOpening.isPrefixOf (c :: s) = false := by
    show (('\x7b' == c) && _) = false
    rw [beq_false_of_ne ho.symm]
    rfl
  rw [cutBalanced, hopening]
  · rfl
  · exact hclosing

/-- A placeholder ends at the brace before which all others are closed. -/
theorem cutBalanced_eq_some_iff :
    cutBalanced standard 0 n s = some (body, rest) ↔
      s = body ++ '\x7d' :: rest ∧ Closes n body := by
  constructor
  · intro h
    induction s generalizing n body with
    | nil => cases h
    | cons c s ih =>
      by_cases hc : c = '\x7d'
      · subst hc
        cases n with
        | zero =>
          cases h
          exact ⟨rfl, .nil⟩
        | succ n =>
          obtain ⟨⟨b, r⟩, hcut, he⟩ := Option.map_eq_some_iff.1 h
          cases he
          obtain ⟨hs, hb⟩ := ih hcut
          exact ⟨congrArg _ hs, .closing hb⟩
      · by_cases ho : c = '\x7b'
        · subst ho
          obtain ⟨⟨b, r⟩, hcut, he⟩ := Option.map_eq_some_iff.1 h
          cases he
          obtain ⟨hs, hb⟩ := ih hcut
          exact ⟨congrArg _ hs, .opening hb⟩
        · rw [cutBalanced_other ho hc] at h
          obtain ⟨⟨b, r⟩, hcut, he⟩ := Option.map_eq_some_iff.1 h
          cases he
          obtain ⟨hs, hb⟩ := ih hcut
          exact ⟨congrArg _ hs, .other ho hc hb⟩
  · rintro ⟨rfl, h⟩
    induction h with
    | nil => rfl
    | opening _ ih => rw [List.cons_append, cutBalanced_opening, ih]; rfl
    | closing _ ih => rw [List.cons_append, cutBalanced_closing_succ, ih]; rfl
    | other ho hc _ ih => rw [List.cons_append, cutBalanced_other ho hc, ih]; rfl

/-- What closes one brace more has a place where the first one is closed. -/
theorem Closes.exists_cut {m k : Nat} (h : Closes k s) (hk : k = m + 1 + n) :
    ∃ body rest, cutBalanced standard 0 m s = some (body, rest) ∧ Closes n rest := by
  induction h generalizing m with
  | nil => omega
  | opening _ ih =>
    obtain ⟨body, rest, hcut, hrest⟩ := @ih (m + 1) (by omega)
    exact ⟨_, rest, by rw [cutBalanced_opening, hcut]; rfl, hrest⟩
  | @closing k s h ih =>
    cases m with
    | zero =>
      obtain rfl : k = n := by omega
      exact ⟨[], s, rfl, h⟩
    | succ m =>
      obtain ⟨body, rest, hcut, hrest⟩ := @ih m (by omega)
      exact ⟨_, rest, by rw [cutBalanced_closing_succ, hcut]; rfl, hrest⟩
  | other ho hc _ ih =>
    obtain ⟨body, rest, hcut, hrest⟩ := ih hk
    exact ⟨_, rest, by rw [cutBalanced_other ho hc, hcut]; rfl, hrest⟩

@[simp] theorem cutFirst_opening :
    cutFirst standard.opening ('$' :: '\x7b' :: s) = some ([], s) := rfl

/-- A dollar sign without a brace behind it starts no placeholder. -/
theorem cutFirst_cons {c : Char} (h : c = '$' → s.head? ≠ some '\x7b') :
    cutFirst standard.opening (c :: s) =
      (cutFirst standard.opening s).map fun (before, after) => (c :: before, after) := by
  have hnone : standard.opening.isPrefixOf? (c :: s) = none := by
    show (if '$' == c then ['\x7b'].isPrefixOf? s else none) = none
    split
    next hc =>
      cases s with
      | nil => rfl
      | cons b s =>
        show (if '\x7b' == b then _ else none) = none
        rw [if_neg fun hb => h (beq_iff_eq.1 hc).symm (congrArg some (beq_iff_eq.1 hb).symm)]
    next => rfl
  rw [cutFirst, hnone]

theorem cutFirst_append (hs : '$' ∉ s) (r : List Char) :
    cutFirst standard.opening (s ++ r) =
      (cutFirst standard.opening r).map fun (before, after) => (s ++ before, after) := by
  induction s with
  | nil => simp
  | cons c s ih =>
    rw [List.mem_cons, not_or] at hs
    rw [List.cons_append, cutFirst_cons fun hc => absurd hc.symm hs.1, ih hs.2, Option.map_map]
    rfl

end Cutting

/-! ## Segments between braces -/

theorem segments_of_plain (hs : '$' ∉ s) : segments standard s = [.literal s] := by
  have hnone : cutFirst standard.opening s = none := by
    rw [← List.append_nil s, cutFirst_append hs]
    rfl
  rw [segments_eq opening_standard_ne_nil, hnone]

theorem segments_append (hs : '$' ∉ s) (r : List Char) : ∃ x l,
    segments standard r = .literal x :: l ∧
      segments standard (s ++ r) = .literal (s ++ x) :: l := by
  rw [segments_eq opening_standard_ne_nil r, segments_eq opening_standard_ne_nil (s ++ r),
    cutFirst_append hs]
  cases cutFirst standard.opening r with
  | none => exact ⟨_, _, rfl, rfl⟩
  | some cut =>
    simp only [Option.map_some]
    cases cutBalanced standard 0 0 cut.2 with
    | none => exact ⟨_, _, rfl, rfl⟩
    | some => exact ⟨_, _, rfl, rfl⟩

theorem segments_placeholder (hb : Closes 0 body) (rest : List Char) :
    segments standard ('$' :: '\x7b' :: (body ++ '\x7d' :: rest)) =
      .literal [] :: .placeholder body :: segments standard rest := by
  have hcut : cutBalanced standard 0 0 (body ++ '\x7d' :: rest) = some (body, rest) :=
    cutBalanced_eq_some_iff.2 ⟨rfl, hb⟩
  rw [segments_eq opening_standard_ne_nil, cutFirst_opening]
  simp only [hcut]

end Wiring.Placeholder
