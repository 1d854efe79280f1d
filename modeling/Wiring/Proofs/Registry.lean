import Wiring.Registry

/-!
# The registry as a map

What is found under a name after a definition has been registered, changed or taken out, and which
names are taken then.
-/

namespace Wiring

namespace Registry

variable {r r' : Registry} {name other : String} {definition : Definition}

theorem get?_eq_none_iff : r.get? name = none ↔ name ∉ r.names := by
  rw [← contains_iff_mem_names, contains, Bool.not_eq_true, Option.isSome_eq_false_iff,
    Option.isNone_iff_eq_none]

theorem mem_names_of_get? (h : r.get? name = some definition) : name ∈ r.names := by
  rw [← contains_iff_mem_names, contains, h]
  rfl

theorem get?_modify (f : Definition → Definition) :
    (r.modify name f).get? other = if other = name then (r.get? other).map f else r.get? other := by
  unfold modify get?
  simp only
  induction r.entries with
  | nil => simp
  | cons e rest ih =>
    have hfirst : (if e.1 = name then (e.1, f e.2) else e).1 = e.1 := by split <;> rfl
    rw [List.map_cons, List.lookup_cons, List.lookup_cons, ih, hfirst]
    by_cases he : other = e.1
    · subst he
      by_cases hn : e.1 = name
      · simp [hn]
      · simp [hn]
    · rw [beq_false_of_ne he]

theorem get?_append {added : List (String × Definition)} (h : r'.entries = r.entries ++ added) :
    r'.get? name = (r.get? name).or (added.lookup name) := by
  unfold get?
  rw [h, List.lookup_append]

theorem size_eq_length_names (r : Registry) : r.size = r.names.length := (List.length_map _).symm

/-- The registry with one more definition, behind all others. -/
def withLast (r : Registry) (name : String) (definition : Definition) : Registry :=
  { r with entries := r.entries ++ [(name, definition)] }

@[simp] theorem names_withLast (r : Registry) (name : String) (definition : Definition) :
    (r.withLast name definition).names = r.names ++ [name] :=
  List.map_append

/-- A definition takes the place of that under its name, or goes behind all others. -/
theorem eq_of_register (h : r.register name definition = .ok r') :
    (name ∈ r.names ∧ r' = r.modify name fun _ => definition) ∨
      (name ∉ r.names ∧ r' = r.withLast name definition) := by
  unfold register at h
  split at h
  · cases h
  · split at h
    next hc =>
      split at h
      · cases h
        exact .inl ⟨contains_iff_mem_names.1 hc, rfl⟩
      · cases h
    next hc =>
      cases h
      exact .inr ⟨mt contains_iff_mem_names.2 hc, rfl⟩

theorem entries_of_register (hn : name ∉ r.names) (h : r.register name definition = .ok r') :
    r'.entries = r.entries ++ [(name, definition)] := by
  rcases eq_of_register h with ⟨hm, -⟩ | ⟨-, rfl⟩
  · exact absurd hm hn
  · rfl

theorem register_of_new (hn : name ∉ r.names) (hne : name ≠ "") (definition : Definition) :
    r.register name definition = .ok (r.withLast name definition) := by
  unfold register
  rw [if_neg (mt String.isEmpty_iff.1 hne), if_neg (mt contains_iff_mem_names.1 hn)]
  rfl

theorem get?_of_register (h : r.register name definition = .ok r') :
    r'.get? other = if other = name then some definition else r.get? other := by
  rcases eq_of_register h with ⟨hm, rfl⟩ | ⟨hn, rfl⟩
  · rw [get?_modify]
    split
    next he =>
      obtain ⟨d, hd⟩ := Option.isSome_iff_exists.1 (contains_iff_mem_names.2 (he ▸ hm))
      rw [hd]
      rfl
    next => rfl
  · have hentries : (r.withLast name definition).entries = r.entries ++ [(name, definition)] := rfl
    rw [get?_append hentries, List.lookup_cons]
    by_cases he : other = name
    · rw [he, get?_eq_none_iff.2 hn]
      simp
    · rw [if_neg he, beq_false_of_ne he]
      simp

theorem get?_withLast (hn : name ∉ r.names) (hne : name ≠ "") :
    (r.withLast name definition).get? other =
      if other = name then some definition else r.get? other :=
  get?_of_register (register_of_new hn hne definition)

theorem get?_remove : (r.remove name).get? other = if other = name then none else r.get? other := by
  unfold remove get?
  simp only
  induction r.entries with
  | nil => simp
  | cons e rest ih =>
    by_cases hn : e.1 = name
    · rw [List.filter_cons_of_neg (by simp [hn]), ih, List.lookup_cons]
      split
      · rfl
      next hne =>
        rw [← hn] at hne
        rw [beq_false_of_ne hne]
    · rw [List.filter_cons_of_pos (by simp [hn]), List.lookup_cons, List.lookup_cons, ih]
      by_cases he : other = e.1
      · subst he
        simp [hn]
      · rw [beq_false_of_ne he]

theorem names_of_register (h : r.register name definition = .ok r') : r.names <+: r'.names := by
  rcases eq_of_register h with ⟨-, rfl⟩ | ⟨-, rfl⟩
  · exact (names_modify r name fun _ => definition).symm ▸ List.prefix_refl _
  · rw [names_withLast]
    exact List.prefix_append _ _

end Registry

end Wiring
