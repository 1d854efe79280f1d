import Mathlib.Data.List.Induction
import Mathlib.Data.List.Nodup
import Mathlib.Data.List.Perm.Subperm
import Wiring.Error
import Wiring.Precedence

/-!
# First occurrences, operations on all items and stable sorting

What putting one more item behind a list makes of the different items in order of first occurrence,
what comes of an operation that is applied to all items and may fail, and what sorting does: it
keeps all items and puts them in order, but items between which the order does not decide stay as
they were.
-/

namespace Wiring

variable {α β : Type}

/-! ## First occurrences -/

section FirstOccurrences

variable [DecidableEq α] {xs : List α} {x : α}

theorem eraseDups_concat_of_mem (h : x ∈ xs) : (xs ++ [x]).eraseDups = xs.eraseDups := by
  rw [List.eraseDups_append]
  simp [List.removeAll, h]

theorem eraseDups_concat_of_not_mem (h : x ∉ xs) :
    (xs ++ [x]).eraseDups = xs.eraseDups ++ [x] := by
  rw [List.eraseDups_append]
  simp [List.removeAll, h, List.eraseDups_cons]

theorem nodup_eraseDups (xs : List α) : xs.eraseDups.Nodup := by
  induction xs using List.reverseRecOn with
  | nil => exact .nil
  | append_singleton xs x ih =>
    by_cases h : x ∈ xs
    · rw [eraseDups_concat_of_mem h]
      exact ih
    · rw [eraseDups_concat_of_not_mem h]
      exact List.concat_eq_append ▸ ih.concat fun hx => h (List.mem_eraseDups.1 hx)

theorem exists_eraseDups_split (h : x ∈ xs) :
    ∃ before after, xs.eraseDups = before ++ x :: after ∧ x ∉ before ∧ x ∉ after := by
  obtain ⟨before, after, hsplit⟩ := List.append_of_mem (List.mem_eraseDups.2 h)
  have hnodup := hsplit ▸ nodup_eraseDups xs
  refine ⟨before, after, hsplit, fun hb => ?_, (List.nodup_cons.1 hnodup.of_append_right).1⟩
  exact List.disjoint_of_nodup_append hnodup hb List.mem_cons_self

end FirstOccurrences

theorem flatMap_concat_perm {f g : α → List β} {before after : List α} {x : α} {b : β}
    (hx : g x = f x ++ [b]) (hbefore : ∀ y ∈ before, g y = f y) (hafter : ∀ y ∈ after, g y = f y) :
    ((before ++ x :: after).flatMap g).Perm ((before ++ x :: after).flatMap f ++ [b]) := by
  rw [List.flatMap_append, List.flatMap_append, List.flatMap_cons, List.flatMap_cons, hx,
    List.flatMap_congr hbefore, List.flatMap_congr hafter, List.append_assoc, List.append_assoc,
    List.append_assoc]
  exact ((List.perm_append_comm.append_left _).append_left _)

/-! ## An operation on all items -/

section MapM

variable {ε : Type} {f : α → Except ε β} {as : List α} {bs : List β} {a : α} {b : β} {e : ε}

theorem mapM_eq_ok {g : α → β} (h : ∀ a ∈ as, f a = .ok (g a)) : as.mapM f = .ok (as.map g) := by
  induction as with
  | nil => rfl
  | cons a as ih =>
    rw [List.mapM_cons, h a List.mem_cons_self, ih fun b hb => h b (List.mem_cons_of_mem a hb)]
    rfl

theorem exists_of_mem_mapM (h : as.mapM f = .ok bs) (hb : b ∈ bs) : ∃ a ∈ as, f a = .ok b := by
  induction as generalizing bs with
  | nil =>
    rw [List.mapM_nil] at h
    cases h
    cases hb
  | cons a as ih =>
    rw [List.mapM_cons, bind_eq_ok] at h
    obtain ⟨c, hc, h⟩ := h
    obtain ⟨cs, hcs, ⟨⟩⟩ := bind_eq_ok.1 h
    rcases List.mem_cons.1 hb with rfl | hb
    · exact ⟨a, List.mem_cons_self, hc⟩
    · obtain ⟨a', ha', hf⟩ := ih hcs hb
      exact ⟨a', List.mem_cons_of_mem a ha', hf⟩

end MapM

/-! ## Stable sorting -/

/-- The second list has the items of the first one in order; items between which the order does not
decide come as they did. -/
structure StablySorted (before : α → α → Prop) (xs ys : List α) : Prop where
  perm : ys.Perm xs
  ordered : ys.Pairwise before
  stable : ∀ same : α → Bool, (∀ a b, same a → same b → before a b) →
    ys.filter same = xs.filter same

theorem stablySorted_mergeSort {le : α → α → Bool} {before : α → α → Prop}
    (hle : ∀ a b, le a b = true ↔ before a b)
    (htrans : ∀ a b c, before a b → before b c → before a c)
    (htotal : ∀ a b, before a b ∨ before b a) (xs : List α) :
    StablySorted before xs (xs.mergeSort le) := by
  have htrans' (a b c : α) (hab : le a b = true) (hbc : le b c = true) : le a c = true :=
    (hle a c).2 (htrans a b c ((hle a b).1 hab) ((hle b c).1 hbc))
  have htotal' (a b : α) : (le a b || le b a) = true := by
    rw [Bool.or_eq_true, hle, hle]
    exact htotal a b
  refine ⟨List.mergeSort_perm _ _, ?_, fun same hsame => ?_⟩
  · exact (List.pairwise_mergeSort htrans' htotal' xs).imp fun h => (hle _ _).1 h
  · have hordered : (xs.filter same).Pairwise fun a b => le a b = true := by
      refine List.pairwise_of_forall_mem_list fun a ha b hb => (hle a b).2 ?_
      exact hsame a b (List.mem_filter.1 ha).2 (List.mem_filter.1 hb).2
    have hsub := (List.sublist_mergeSort htrans' htotal' hordered List.filter_sublist).filter same
    simp only [List.filter_filter, Bool.and_self] at hsub
    exact (hsub.eq_of_length (((List.mergeSort_perm xs le).filter same).length_eq).symm).symm

namespace Precedence

/-- The first order does not come behind the second one: what has priority comes first, then the
smaller value; what has no value comes last. -/
structure Before (p q : Precedence) : Prop where
  priority : q.hasPriority = true → p.hasPriority = true
  value : p.hasPriority = q.hasPriority → p.value ≤ q.value
  last : p.hasPriority = q.hasPriority → p.value? = none → lowestPrecedence ≤ q.value

section Before

variable {p q r : Precedence}

theorem before_iff_of_hasPriority_eq (h : p.hasPriority = q.hasPriority) :
    p.Before q ↔ p.value ≤ q.value := by
  refine ⟨fun hb => hb.value h, fun hv => ⟨fun hq => h.trans hq, fun _ => hv, fun _ hn => ?_⟩⟩
  unfold value at hv
  rw [hn] at hv
  exact hv

theorem before_of_hasPriority (hp : p.hasPriority = true) (hq : q.hasPriority = false) :
    p.Before q := by
  have hne : p.hasPriority ≠ q.hasPriority := by rw [hp, hq]; exact Bool.false_ne_true.symm
  exact ⟨fun _ => hp, fun h => absurd h hne, fun h => absurd h hne⟩

theorem le_iff_before : p.le q = true ↔ p.Before q := by
  have hvalue : (Ord.compare p.value q.value).isLE = true ↔ p.value ≤ q.value := Std.isLE_compare
  unfold le compare
  cases hp : p.hasPriority <;> cases hq : q.hasPriority
  · rw [before_iff_of_hasPriority_eq (hp.trans hq.symm)]
    exact hvalue
  · exact ⟨nofun, fun hb => absurd (hp.symm.trans (hb.priority hq)) Bool.false_ne_true⟩
  · exact ⟨fun _ => before_of_hasPriority hp hq, fun _ => rfl⟩
  · rw [before_iff_of_hasPriority_eq (hp.trans hq.symm)]
    exact hvalue

theorem Before.trans (h : p.Before q) (h' : q.Before r) : p.Before r := by
  by_cases hpr : p.hasPriority = r.hasPriority
  · have hpq : p.hasPriority = q.hasPriority :=
      Bool.eq_iff_iff.2 ⟨fun hp => h'.priority (hpr.symm.trans hp), h.priority⟩
    rw [before_iff_of_hasPriority_eq hpr]
    exact Int.le_trans (h.value hpq) (h'.value (hpq.symm.trans hpr))
  · have hpriority (hr : r.hasPriority = true) : p.hasPriority = true :=
      h.priority (h'.priority hr)
    exact ⟨hpriority, fun h => absurd h hpr, fun h => absurd h hpr⟩

theorem before_total (p q : Precedence) : p.Before q ∨ q.Before p := by
  by_cases h : p.hasPriority = q.hasPriority
  · rw [before_iff_of_hasPriority_eq h, before_iff_of_hasPriority_eq h.symm]
    exact Int.le_total _ _
  · cases hp : p.hasPriority
    · have hq : q.hasPriority = true := Bool.not_eq_false _ ▸ fun hq => h (hp.trans hq.symm)
      exact .inr (before_of_hasPriority hq hp)
    · have hq : q.hasPriority = false := Bool.not_eq_true _ ▸ fun hq => h (hp.trans hq.symm)
      exact .inl (before_of_hasPriority hp hq)

end Before

theorem stablySorted_sort (precedence : α → Precedence) (xs : List α) :
    StablySorted (fun a b => (precedence a).Before (precedence b)) xs (sort precedence xs) :=
  stablySorted_mergeSort (fun a b => le_iff_before (p := precedence a) (q := precedence b))
    (fun _ _ _ => Before.trans) (fun _ _ => before_total _ _) xs

end Precedence

end Wiring
