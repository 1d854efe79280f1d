import Mathlib.Data.List.Induction
import Mathlib.Data.List.Nodup
import Wiring.Table

/-!
# Tables and lists of entries

A table has the names of the entries that it is made of, and is made again by any list of its
entries, in whatever order they are.
-/

namespace Wiring.Table

variable {β : Type} {t u : Table β} {l : List (String × β)} {name : String} {value : β}

theorem mem_entries_of_get? (h : t.get? name = some value) : (name, value) ∈ t.entries := by
  obtain ⟨l₁, l₂, hl, -⟩ := List.lookup_eq_some_iff.1 h
  rw [hl]
  exact List.mem_append_right _ List.mem_cons_self

theorem nodup_names (t : Table β) : t.names.Nodup := by
  refine List.pairwise_map.2 (t.ordered.imp fun {a b} h he => ?_)
  rw [he] at h
  exact String.lt_irrefl _ h

theorem get?_eq_some_iff : t.get? name = some value ↔ (name, value) ∈ t.entries := by
  refine ⟨mem_entries_of_get?, fun h => ?_⟩
  -- something stands under the name, and there is one entry of each name
  obtain ⟨other, hother⟩ : ∃ other, t.get? name = some other := by
    refine Option.ne_none_iff_exists'.1 fun hnone => ?_
    have hne := List.lookup_eq_none_iff.1 hnone _ h
    exact bne_iff_ne.1 hne rfl
  have hsame := List.inj_on_of_nodup_map t.nodup_names (mem_entries_of_get? hother) h rfl
  rw [hother, (Prod.mk.inj hsame).2]

theorem get?_eq_none (h : name ∉ t.names) : t.get? name = none := by
  refine Option.eq_none_iff_forall_ne_some.2 fun value hvalue => h ?_
  exact List.mem_map.2 ⟨_, mem_entries_of_get? hvalue, rfl⟩

theorem mem_map_insertEntry {key : String} :
    key ∈ (insertEntry name value l).map (·.1) ↔ key = name ∨ key ∈ l.map (·.1) := by
  induction l with
  | nil => simp [insertEntry]
  | cons e l ih =>
    unfold insertEntry
    split
    · simp
    · split
      next h => simp [h]
      next => simp only [List.map_cons, List.mem_cons, ih, or_left_comm]

theorem insertEntry_perm (h : name ∉ l.map (·.1)) :
    (insertEntry name value l).Perm ((name, value) :: l) := by
  induction l with
  | nil => exact .refl _
  | cons e l ih =>
    rw [List.map_cons, List.mem_cons, not_or] at h
    unfold insertEntry
    rw [if_neg h.1]
    split
    · exact .refl _
    · exact ((ih h.2).cons e).trans (.swap ..)

theorem ofList_concat (l : List (String × β)) (name : String) (value : β) :
    ofList (l ++ [(name, value)]) = (ofList l).insert name value :=
  List.foldl_append ..

theorem mem_names_ofList : name ∈ (ofList l).names ↔ name ∈ l.map (·.1) := by
  induction l using List.reverseRecOn with
  | nil => exact Iff.rfl
  | append_singleton l e ih =>
    obtain ⟨key, value⟩ := e
    rw [ofList_concat, List.map_append, List.mem_append, ← ih, or_comm]
    exact mem_map_insertEntry.trans (or_congr List.mem_singleton.symm Iff.rfl)

theorem mem_of_mem_ofList {e : String × β} (h : e ∈ (ofList l).entries) : e ∈ l := by
  induction l using List.reverseRecOn with
  | nil => exact absurd h List.not_mem_nil
  | append_singleton l d ih =>
    rw [ofList_concat] at h
    rcases mem_insertEntry h with rfl | h
    · exact List.mem_append_right _ (List.mem_singleton.2 rfl)
    · exact List.mem_append_left _ (ih h)

theorem entries_ofList_perm (h : (l.map (·.1)).Nodup) : (ofList l).entries.Perm l := by
  induction l using List.reverseRecOn with
  | nil => exact .refl _
  | append_singleton l e ih =>
    obtain ⟨key, value⟩ := e
    rw [List.map_append, List.nodup_append] at h
    obtain ⟨hl, -, hdisjoint⟩ := h
    have hnew : key ∉ (ofList l).entries.map (·.1) := fun hmem =>
      hdisjoint key (mem_names_ofList.1 hmem) key List.mem_cons_self rfl
    rw [ofList_concat]
    exact (insertEntry_perm hnew).trans
      (((ih hl).cons _).trans (List.perm_append_singleton _ _).symm)

theorem eq_of_perm (h : t.entries.Perm u.entries) : t = u :=
  ext (h.eq_of_pairwise (fun _ _ _ _ hab hba => absurd hba (String.lt_asymm hab))
    t.ordered u.ordered)

theorem ofList_of_perm (h : l.Perm t.entries) : ofList l = t := by
  have hnames : (l.map (·.1)).Perm t.names := h.map (·.1)
  have hnodup : (l.map (·.1)).Nodup := hnames.symm.nodup t.nodup_names
  exact eq_of_perm ((entries_ofList_perm hnodup).trans h)

/-! ## Changing and leaving out entries -/

variable {γ : Type}

theorem lookup_filterMap (h : (l.map (·.1)).Nodup) (f : β → Option γ) (name : String) :
    (l.filterMap fun e => (f e.2).map (e.1, ·)).lookup name = (l.lookup name).bind f := by
  induction l with
  | nil => rfl
  | cons e l ih =>
    obtain ⟨hnew, hl⟩ := List.nodup_cons.1 h
    rw [List.filterMap_cons, List.lookup_cons]
    by_cases hn : name = e.1
    · subst hn
      cases hf : f e.2 with
      | some v => simp [hf]
      | none =>
        -- no other entry has this name
        have hnone : l.lookup e.1 = none :=
          List.lookup_eq_none_iff.2 fun d hd => bne_iff_ne.2 fun he =>
            hnew (List.mem_map.2 ⟨d, hd, he.symm⟩)
        simp [hf, ih hl, hnone]
    · have hb : (name == e.1) = false := beq_false_of_ne hn
      cases hf : f e.2 <;> simp [hb, ih hl, List.lookup_cons]

/-- Looking up a name where entries have been changed or left out by their values. -/
theorem get?_ofList_filterMap (t : Table β) (f : β → Option γ) (name : String) :
    (ofList (t.toList.filterMap fun e => (f e.2).map (e.1, ·))).get? name =
      (t.get? name).bind f := by
  have hordered : (t.entries.filterMap fun e => (f e.2).map (e.1, ·)).Pairwise
      fun a b => a.1 < b.1 := by
    refine t.ordered.filterMap _ fun a b hab c hc d hd => ?_
    obtain ⟨_, -, rfl⟩ := Option.map_eq_some_iff.1 hc
    obtain ⟨_, -, rfl⟩ := Option.map_eq_some_iff.1 hd
    exact hab
  have hentries : ofList (t.toList.filterMap fun e => (f e.2).map (e.1, ·)) = ⟨_, hordered⟩ :=
    ofList_of_perm (.refl _)
  rw [hentries]
  exact lookup_filterMap t.nodup_names f name

end Wiring.Table
