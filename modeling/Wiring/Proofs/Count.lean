/-!
# Counting what is left

Searches that meet every name at most once are bounded by the number of names that they have not
met. Meeting one of them leaves fewer.
-/

namespace Wiring

theorem countP_lt_countP {α : Type} {l : List α} {p q : α → Bool} {a : α} (ha : a ∈ l)
    (hpq : ∀ b ∈ l, p b = true → q b = true) (hp : p a = false) (hq : q a = true) :
    l.countP p < l.countP q := by
  obtain ⟨l₁, l₂, rfl⟩ := List.append_of_mem ha
  have h₁ : l₁.countP p ≤ l₁.countP q :=
    List.countP_mono_left fun b hb => hpq b (List.mem_append_left _ hb)
  have h₂ : l₂.countP p ≤ l₂.countP q :=
    List.countP_mono_left fun b hb => hpq b (List.mem_append_right _ (List.mem_cons_of_mem _ hb))
  rw [List.countP_append, List.countP_append, List.countP_cons_of_pos hq,
    List.countP_cons_of_neg (by rw [hp]; exact Bool.false_ne_true)]
  omega

variable {α : Type} [DecidableEq α]

/-- The number of names that have not been met. -/
def unmet (names met : List α) : Nat := names.countP fun name => decide (name ∉ met)

variable {names met met' : List α}

theorem unmet_le (names met : List α) : unmet names met ≤ names.length :=
  List.countP_le_length

theorem unmet_anti (names : List α) (h : met ⊆ met') : unmet names met' ≤ unmet names met := by
  refine List.countP_mono_left fun name _ hn => ?_
  rw [decide_eq_true_iff] at *
  exact fun hm => hn (h hm)

theorem unmet_cons_lt {name : α} (hn : name ∈ names) (hm : name ∉ met) :
    unmet names (name :: met) < unmet names met := by
  refine countP_lt_countP hn (fun b _ hb => ?_) (decide_eq_false ?_) (decide_eq_true hm)
  · rw [decide_eq_true_iff] at *
    exact fun h => hb (List.mem_cons_of_mem _ h)
  · exact fun h => h List.mem_cons_self

/-- Meeting different names that have not been met leaves fewer by as many. -/
theorem unmet_append_le (names met : List α) {fresh : List α} (hn : fresh.Nodup)
    (hf : ∀ name ∈ fresh, name ∈ names ∧ name ∉ met) :
    fresh.length + unmet names (fresh ++ met) ≤ unmet names met := by
  induction fresh with
  | nil => simp
  | cons name fresh ih =>
    obtain ⟨hname, hfresh⟩ := List.nodup_cons.1 hn
    have hrest := ih hfresh fun other ho => hf other (List.mem_cons_of_mem _ ho)
    have hnew : name ∉ fresh ++ met := by simp [hname, (hf name List.mem_cons_self).2]
    have hlt := unmet_cons_lt (hf name List.mem_cons_self).1 hnew
    rw [List.length_cons, List.cons_append]
    omega

end Wiring
