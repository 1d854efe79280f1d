import Mathlib.Data.List.Nodup
import Mathlib.Data.List.Perm.Subperm
import Wiring.Walk.State

/-!
# The stored classes

Storing, changing and taking out a class, in terms of the list of stored classes and of their names,
which are distinct. So are the importers of a class.
-/

namespace Wiring

namespace ConfigurationClass

theorem subset_mergeNames (names others : List String) : names ⊆ mergeNames names others := by
  induction others generalizing names with
  | nil => exact List.Subset.refl _
  | cons n rest ih =>
    refine List.Subset.trans ?_ (ih _)
    split
    · exact List.Subset.refl _
    · exact List.subset_append_left _ _

theorem mem_mergeNames {names others : List String} {name : String} :
    name ∈ mergeNames names others ↔ name ∈ names ∨ name ∈ others := by
  induction others generalizing names with
  | nil => simp [mergeNames]
  | cons n rest ih =>
    unfold mergeNames
    rw [ih]
    split <;> grind

theorem nodup_mergeNames {names : List String} (others : List String) (h : names.Nodup) :
    (mergeNames names others).Nodup := by
  induction others generalizing names with
  | nil => exact h
  | cons n rest ih =>
    unfold mergeNames
    split
    · exact ih h
    next hn =>
      exact ih (List.concat_eq_append ▸ h.concat hn)

end ConfigurationClass

namespace WalkState

variable {s : WalkState} {c k : ConfigurationClass} {name : String}

/-- The names of the stored classes, in order. -/
def storedNames (s : WalkState) : List String := s.classes.map (·.name)

theorem stored?_eq_none_iff : s.stored? name = none ↔ name ∉ s.storedNames := by
  unfold stored? storedNames
  rw [List.find?_eq_none, List.mem_map]
  constructor
  · rintro h ⟨k, hk, rfl⟩
    exact h k hk (beq_self_eq_true _)
  · intro h k hk he
    exact h ⟨k, hk, eq_of_beq he⟩

theorem mem_of_stored? (h : s.stored? name = some k) : k ∈ s.classes ∧ k.name = name := by
  unfold stored? at h
  have hname := List.find?_some h
  exact ⟨List.mem_of_find?_eq_some h, eq_of_beq hname⟩

theorem mem_storedNames_of_stored? (h : s.stored? name = some k) : name ∈ s.storedNames := by
  obtain ⟨hk, rfl⟩ := mem_of_stored? h
  exact List.mem_map_of_mem hk

theorem eq_of_name_eq {j k : ConfigurationClass} (hn : s.storedNames.Nodup) (hj : j ∈ s.classes)
    (hk : k ∈ s.classes) (h : j.name = k.name) : j = k :=
  List.inj_on_of_nodup_map hn hj hk h

theorem stored?_of_mem (hn : s.storedNames.Nodup) (hk : k ∈ s.classes) :
    s.stored? k.name = some k := by
  cases hs : s.stored? k.name with
  | none => exact absurd (List.mem_map_of_mem hk) (stored?_eq_none_iff.1 hs)
  | some j =>
    obtain ⟨hj, hname⟩ := mem_of_stored? hs
    rw [eq_of_name_eq hn hj hk hname]

/-! ## Storing a class -/

theorem classes_store (h : c.name ∉ s.storedNames) : (s.store c).classes = s.classes ++ [c] := by
  have haux : ∀ l : List ConfigurationClass, c.name ∉ l.map (·.name) → storeIn c l = l ++ [c] := by
    intro l
    induction l with
    | nil => exact fun _ => rfl
    | cons d rest ih =>
      intro hl
      rw [List.map_cons, List.mem_cons, not_or] at hl
      unfold storeIn
      rw [if_neg (Ne.symm hl.1), ih hl.2, List.cons_append]
  exact haux s.classes h

theorem storedNames_store (h : c.name ∉ s.storedNames) :
    (s.store c).storedNames = s.storedNames ++ [c.name] := by
  unfold storedNames
  rw [classes_store h, List.map_append]
  rfl

theorem storedNames_store_of_mem (h : c.name ∈ s.storedNames) :
    (s.store c).storedNames = s.storedNames := by
  have haux : ∀ l : List ConfigurationClass, c.name ∈ l.map (·.name) →
      (storeIn c l).map (·.name) = l.map (·.name) := by
    intro l
    induction l with
    | nil => exact fun hl => absurd hl List.not_mem_nil
    | cons d rest ih =>
      intro hl
      unfold storeIn
      split
      next hd => rw [List.map_cons, List.map_cons, hd]
      next hd =>
        have hrest := (List.mem_cons.1 hl).resolve_left fun he => hd he.symm
        rw [List.map_cons, List.map_cons, ih hrest]
  exact haux s.classes h

theorem mem_storedNames_store :
    name ∈ (s.store c).storedNames ↔ name ∈ s.storedNames ∨ name = c.name := by
  by_cases h : c.name ∈ s.storedNames
  · rw [storedNames_store_of_mem h, or_iff_left_of_imp]
    rintro rfl
    exact h
  · rw [storedNames_store h, List.mem_append, List.mem_singleton]

theorem nodup_store (hn : s.storedNames.Nodup) : (s.store c).storedNames.Nodup := by
  by_cases h : c.name ∈ s.storedNames
  · rw [storedNames_store_of_mem h]
    exact hn
  · rw [storedNames_store h]
    exact List.concat_eq_append ▸ hn.concat h

theorem mem_classes_store (hk : k ∈ (s.store c).classes) : k ∈ s.classes ∨ k = c := by
  have haux : ∀ l : List ConfigurationClass, k ∈ storeIn c l → k ∈ l ∨ k = c := by
    intro l
    induction l with
    | nil => exact fun hl => .inr (List.mem_singleton.1 hl)
    | cons d rest ih =>
      intro hl
      unfold storeIn at hl
      split at hl
      · rcases List.mem_cons.1 hl with rfl | hl
        · exact .inr rfl
        · exact .inl (List.mem_cons_of_mem _ hl)
      · rcases List.mem_cons.1 hl with rfl | hl
        · exact .inl List.mem_cons_self
        · exact (ih hl).imp_left (List.mem_cons_of_mem _)
  exact haux s.classes hk

/-- A class that is stored is the one of its name from then on. -/
theorem stored?_store :
    (s.store c).stored? name = if name = c.name then some c else s.stored? name := by
  have haux : ∀ l : List ConfigurationClass, (storeIn c l).find? (·.name == name) =
      if name = c.name then some c else l.find? (·.name == name) := by
    intro l
    induction l with
    | nil =>
      show List.find? (·.name == name) [c] = _
      by_cases hn : name = c.name
      · simp [hn]
      · simp [hn, Ne.symm hn]
    | cons d rest ih =>
      unfold storeIn
      split
      next hd =>
        by_cases hn : name = c.name
        · simp [hn]
        · have hne : c.name ≠ name := Ne.symm hn
          rw [List.find?_cons_of_neg (by simp [hne]), List.find?_cons_of_neg (by simp [hd, hne]),
            if_neg hn]
      next hd =>
        by_cases hn : name = c.name
        · have hne : d.name ≠ name := hn ▸ hd
          rw [List.find?_cons_of_neg (by simp [hne]), ih, if_pos hn, if_pos hn]
        · rw [List.find?_cons, List.find?_cons, ih, if_neg hn, if_neg hn]
  exact haux s.classes

/-! ## Changing a class -/

theorem mem_classes_update {f : ConfigurationClass → ConfigurationClass}
    (hk : k ∈ (s.update name f).classes) :
    k ∈ s.classes ∨ ∃ j ∈ s.classes, j.name = name ∧ k = f j := by
  have haux : ∀ l : List ConfigurationClass, k ∈ updateIn name f l →
      k ∈ l ∨ ∃ j ∈ l, j.name = name ∧ k = f j := by
    intro l
    induction l with
    | nil => exact fun hl => .inl hl
    | cons d rest ih =>
      intro hl
      unfold updateIn at hl
      split at hl
      next hd =>
        rcases List.mem_cons.1 hl with rfl | hl
        · exact .inr ⟨d, List.mem_cons_self, hd, rfl⟩
        · exact .inl (List.mem_cons_of_mem _ hl)
      next =>
        rcases List.mem_cons.1 hl with rfl | hl
        · exact .inl List.mem_cons_self
        · rcases ih hl with hl | ⟨j, hj, hfj⟩
          · exact .inl (List.mem_cons_of_mem _ hl)
          · exact .inr ⟨j, List.mem_cons_of_mem _ hj, hfj⟩
  exact haux s.classes hk

theorem classes_update (hn : s.storedNames.Nodup) (f : ConfigurationClass → ConfigurationClass) :
    (s.update name f).classes = s.classes.map fun k => if k.name = name then f k else k := by
  have haux : ∀ l : List ConfigurationClass, (l.map (·.name)).Nodup →
      updateIn name f l = l.map fun k => if k.name = name then f k else k := by
    intro l
    induction l with
    | nil => exact fun _ => rfl
    | cons d rest ih =>
      intro hl
      rw [List.map_cons, List.nodup_cons] at hl
      unfold updateIn
      rw [List.map_cons]
      by_cases hd : d.name = name
      · -- no class behind the changed one has its name
        have hrest : rest.map (fun k => if k.name = name then f k else k) = rest := by
          refine (List.map_congr_left fun k hk => ?_).trans (List.map_id rest)
          have hne : k.name ≠ name := fun he => hl.1 (hd ▸ he ▸ List.mem_map_of_mem hk)
          rw [if_neg hne]
          rfl
        rw [if_pos hd, if_pos hd, hrest]
      · rw [if_neg hd, if_neg hd, ih hl.2]
  exact haux s.classes hn

theorem storedNames_update {f : ConfigurationClass → ConfigurationClass}
    (hf : ∀ k, (f k).name = k.name) : (s.update name f).storedNames = s.storedNames := by
  have haux : ∀ l : List ConfigurationClass,
      (updateIn name f l).map (·.name) = l.map (·.name) := by
    intro l
    induction l with
    | nil => rfl
    | cons d rest ih =>
      unfold updateIn
      split
      · rw [List.map_cons, List.map_cons, hf]
      · rw [List.map_cons, List.map_cons, ih]
  exact haux s.classes

theorem stored?_update {f : ConfigurationClass → ConfigurationClass} {other : String}
    (hf : ∀ k, (f k).name = k.name) :
    (s.update other f).stored? name =
      if name = other then (s.stored? name).map f else s.stored? name := by
  have haux : ∀ l : List ConfigurationClass, (updateIn other f l).find? (·.name == name) =
      if name = other then (l.find? (·.name == name)).map f else l.find? (·.name == name) := by
    intro l
    induction l with
    | nil => simp [updateIn]
    | cons d rest ih =>
      unfold updateIn
      split
      next hd =>
        by_cases hn : name = other
        · simp [hn, hf, hd]
        · have hne : other ≠ name := Ne.symm hn
          rw [List.find?_cons_of_neg (by simp [hf, hd, hne]),
            List.find?_cons_of_neg (by simp [hd, hne]), if_neg hn]
      next hd =>
        by_cases hn : name = other
        · have hne : d.name ≠ name := hn ▸ hd
          rw [List.find?_cons_of_neg (by simp [hne]), List.find?_cons_of_neg (by simp [hne]), ih]
        · rw [List.find?_cons, List.find?_cons, ih, if_neg hn, if_neg hn]
  exact haux s.classes

theorem storedNames_mergeImporters (s : WalkState) (name : String) (c : ConfigurationClass) :
    (s.update name (·.mergeImporters c)).storedNames = s.storedNames :=
  storedNames_update fun _ => rfl

/-! ## Taking out a class -/

theorem classes_discard (hn : s.storedNames.Nodup) :
    (s.discard name).classes = s.classes.filter (·.name != name) := by
  have haux : ∀ l : List ConfigurationClass, (l.map (·.name)).Nodup →
      l.eraseP (·.name == name) = l.filter (·.name != name) := by
    intro l
    induction l with
    | nil => exact fun _ => rfl
    | cons d rest ih =>
      intro hl
      rw [List.map_cons, List.nodup_cons] at hl
      by_cases hd : d.name = name
      · have hrest : rest.filter (·.name != name) = rest := by
          refine List.filter_eq_self.2 fun k hk => ?_
          have hne : k.name ≠ name := fun he => hl.1 (hd ▸ he ▸ List.mem_map_of_mem hk)
          simp [hne]
        rw [List.eraseP_cons_of_pos (by simp [hd]), List.filter_cons_of_neg (by simp [hd]), hrest]
      · rw [List.eraseP_cons_of_neg (by simp [hd]), List.filter_cons_of_pos (by simp [hd]),
          ih hl.2]
  exact haux s.classes hn

theorem sublist_storedNames_discard : (s.discard name).storedNames.Sublist s.storedNames :=
  List.eraseP_sublist.map _

theorem mem_storedNames_discard {other : String} (h : other ∈ s.storedNames) (hn : other ≠ name) :
    other ∈ (s.discard name).storedNames := by
  obtain ⟨k, hk, rfl⟩ := List.mem_map.1 h
  refine List.mem_map_of_mem (List.mem_eraseP_of_neg ?_ |>.2 hk)
  simp [hn]

theorem stored?_discard_of_ne {other : String} (h : name ≠ other) :
    (s.discard other).stored? name = s.stored? name := by
  have haux : ∀ l : List ConfigurationClass,
      (l.eraseP (·.name == other)).find? (·.name == name) = l.find? (·.name == name) := by
    intro l
    induction l with
    | nil => rfl
    | cons d rest ih =>
      by_cases hd : d.name = other
      · have hne : d.name ≠ name := fun he => h (he.symm.trans hd)
        rw [List.eraseP_cons_of_pos (by simp [hd]), List.find?_cons_of_neg (by simp [hne])]
      · rw [List.eraseP_cons_of_neg (by simp [hd]), List.find?_cons, List.find?_cons, ih]
  exact haux s.classes

/-! ## Moving classes behind all others -/

/-- The stored classes, with those of these roots behind all others. -/
def movedBehind (s : WalkState) (roots : List (String × String)) : List ConfigurationClass :=
  (s.classes.filter fun k => k.name ∉ roots.map (·.2)) ++
    roots.filterMap fun root => s.stored? root.2

theorem movedBehind_nil (s : WalkState) : s.movedBehind [] = s.classes := by
  simp [movedBehind]

/-- One root after the other is taken out and stored behind all others. -/
theorem movedBehind_concat {roots : List (String × String)} (root : String × String)
    (hn : root.2 ∉ roots.map (·.2)) (hk : s.stored? root.2 = some k) :
    s.movedBehind (roots ++ [root]) = (s.movedBehind roots).filter (·.name != root.2) ++ [k] := by
  have hbehind : (roots.filterMap fun r => s.stored? r.2).filter (·.name != root.2) =
      roots.filterMap fun r => s.stored? r.2 := by
    refine List.filter_eq_self.2 fun j hj => ?_
    obtain ⟨r, hr, hs⟩ := List.mem_filterMap.1 hj
    obtain ⟨-, hname⟩ := mem_of_stored? hs
    rw [bne_iff_ne, hname]
    exact fun he => hn (he ▸ List.mem_map_of_mem hr)
  have hbefore : (s.classes.filter fun k => k.name ∉ (roots ++ [root]).map (·.2)) =
      (s.classes.filter fun k => k.name ∉ roots.map (·.2)).filter (·.name != root.2) := by
    rw [List.filter_filter]
    refine List.filter_congr fun j _ => ?_
    rw [List.map_append, Bool.eq_iff_iff]
    simp only [List.map_cons, List.map_nil, List.mem_append, List.mem_singleton, not_or,
      Bool.and_eq_true, decide_eq_true_iff, bne_iff_ne]
    exact and_comm
  unfold movedBehind
  rw [hbefore, List.filter_append, hbehind, List.filterMap_append, List.append_assoc]
  simp [hk]

/-- Moving classes behind all others keeps every class. -/
theorem movedBehind_perm {roots : List (String × String)} (hn : s.storedNames.Nodup)
    (hroots : (roots.map (·.2)).Nodup) : (s.movedBehind roots).Perm s.classes := by
  have hclasses : s.classes.Nodup := hn.of_map _
  have hbehind : (roots.filterMap fun root => s.stored? root.2).Nodup := by
    have hmap : (roots.filterMap fun root => s.stored? root.2) =
        (roots.map (·.2)).filterMap s.stored? := by
      rw [List.filterMap_map]
      rfl
    rw [hmap]
    refine hroots.filterMap fun name name' j hj hj' => ?_
    rw [← (mem_of_stored? hj).2, ← (mem_of_stored? hj').2]
  have hmem : ∀ j, j ∈ (roots.filterMap fun root => s.stored? root.2) ↔
      j ∈ s.classes.filter fun k => !decide (k.name ∉ roots.map (·.2)) := fun j => by
    rw [List.mem_filterMap, List.mem_filter, ← decide_not, decide_eq_true_iff, not_not]
    constructor
    · rintro ⟨root, hr, hj⟩
      obtain ⟨hj, hname⟩ := mem_of_stored? hj
      exact ⟨hj, hname ▸ List.mem_map_of_mem hr⟩
    · rintro ⟨hj, hm⟩
      obtain ⟨root, hr, hname⟩ := List.mem_map.1 hm
      exact ⟨root, hr, hname ▸ stored?_of_mem hn hj⟩
  have hperm := (List.perm_ext_iff_of_nodup hbehind (hclasses.filter _)).2 hmem
  exact (hperm.append_left _).trans (List.filter_append_perm _ _)

end WalkState

end Wiring
