import Mathlib.Data.List.Nodup
import Wiring.PropertySource

/-!
# Edits of a source list

An edit finds its place in a source list by name. An edit that has no place fails; if it was to put
a source next to another one, the source that had its name before is gone all the same. Names stay
distinct as long as no source is put in place of one of another name while a third one has its name.
-/

namespace Wiring

namespace SourceList

variable {before after : List PropertySource} {s t : PropertySource} {l : SourceList}
  {name relative : String} {offset : Nat}

/-! ## Places in a source list -/

theorem findIdx?_append_cons (h : s.name ∉ before.map (·.name)) :
    (before ++ s :: after).findIdx? (·.name == s.name) = some before.length := by
  have hbefore : before.findIdx? (·.name == s.name) = none := by
    rw [List.findIdx?_eq_none_iff]
    intro u hu
    exact beq_false_of_ne fun he => h (List.mem_map.2 ⟨u, hu, he⟩)
  rw [List.findIdx?_append, hbefore, List.findIdx?_cons, beq_self_eq_true]
  simp

theorem remove_of_not_mem (h : name ∉ l.names) : l.remove name = l := by
  unfold remove
  rw [List.eraseP_of_forall_not]
  intro u hu
  rw [beq_iff_eq]
  exact fun he => h (List.mem_map.2 ⟨u, hu, he⟩)

theorem contains_iff_mem_names : l.contains name = true ↔ name ∈ l.names := by
  unfold contains get? names
  rw [List.find?_isSome, List.mem_map]
  simp only [beq_iff_eq]

theorem addLast_of_not_mem (h : s.name ∉ l.names) : l.addLast s = ⟨l.sources ++ [s]⟩ := by
  unfold addLast
  rw [remove_of_not_mem h]

theorem modify_append_cons (h : s.name ∉ before.map (·.name)) (after : List PropertySource)
    (f : PropertySource → PropertySource) :
    (⟨before ++ s :: after⟩ : SourceList).modify s.name f = ⟨before ++ f s :: after⟩ := by
  have hmodify : (before ++ s :: after).modify before.length f = before ++ f s :: after := by
    clear h
    induction before with
    | nil => rfl
    | cons u before ih => exact congrArg (u :: ·) ih
  unfold modify
  rw [findIdx?_append_cons h, ← hmodify]

/-- A new source is put just before the one it is to go before. -/
theorem addBefore_append_cons (h : s.name ∉ before.map (·.name))
    (ht : t.name ∉ (⟨before ++ s :: after⟩ : SourceList).names) :
    (⟨before ++ s :: after⟩ : SourceList).addBefore s.name t =
      (.ok (), ⟨before ++ t :: s :: after⟩) := by
  have hne : s.name ≠ t.name := by
    rintro he
    refine ht (he ▸ ?_)
    simp
  have hinsert : (before ++ s :: after).insertIdx before.length t = before ++ t :: s :: after := by
    clear h ht
    induction before with
    | nil => rfl
    | cons u before ih => exact congrArg (u :: ·) ih
  unfold addBefore addBeside indexOf
  rw [if_neg hne, remove_of_not_mem ht]
  simp only
  rw [findIdx?_append_cons h, ← hinsert]
  rfl

theorem remove_eq_self_iff : l.remove name = l ↔ name ∉ l.names := by
  constructor
  · intro h
    rw [← List.erase_eq_self_iff, ← names_remove, h]
  · exact remove_of_not_mem

/-- A name has no place, or the place of the first source of that name. -/
theorem indexOf_cases (l : SourceList) (name : String) :
    (name ∉ l.names ∧ l.indexOf name = .error (.missingPropertySource name)) ∨
      (name ∈ l.names ∧ ∃ before s after, l.sources = before ++ s :: after ∧ s.name = name ∧
        name ∉ before.map (·.name) ∧ l.indexOf name = .ok before.length) := by
  by_cases hname : name ∈ l.names
  · obtain ⟨s, hs⟩ := Option.isSome_iff_exists.1 (contains_iff_mem_names.2 hname)
    obtain ⟨hs, before, after, hsplit, hfirst⟩ := List.find?_eq_some_iff_append.1 hs
    obtain rfl : s.name = name := by simpa using hs
    have hbefore : s.name ∉ before.map (·.name) := by
      intro hm
      obtain ⟨t, ht, he⟩ := List.mem_map.1 hm
      simpa [he] using hfirst t ht
    refine .inr ⟨hname, before, s, after, hsplit, rfl, hbefore, ?_⟩
    unfold indexOf
    rw [hsplit, findIdx?_append_cons hbefore]
  · refine .inl ⟨hname, ?_⟩
    have hnone : l.sources.findIdx? (·.name == name) = none := by
      rw [List.findIdx?_eq_none_iff]
      intro s hs
      exact beq_false_of_ne fun he => hname (List.mem_map.2 ⟨s, hs, he⟩)
    unfold indexOf
    rw [hnone]

/-- Why a source cannot be put next to itself. -/
def besideItself (name : String) : Error :=
  .propertySource name "a property source cannot be added relative to itself"

/-- A source is not put next to itself; next to a source that is missing it is not put either, but
what had its name has been taken out; otherwise it goes to its place. -/
theorem addBeside_cases (l : SourceList) (offset : Nat) (relative : String) (s : PropertySource) :
    (relative = s.name ∧ l.addBeside offset relative s = (.error (besideItself relative), l)) ∨
    (relative ≠ s.name ∧ relative ∉ l.names ∧ l.addBeside offset relative s =
      (.error (.missingPropertySource relative), l.remove s.name)) ∨
    (relative ≠ s.name ∧ relative ∈ l.names ∧ ∃ i < (l.remove s.name).sources.length,
      l.addBeside offset relative s =
        (.ok (), ⟨(l.remove s.name).sources.insertIdx (i + offset) s⟩)) := by
  unfold addBeside
  by_cases hself : relative = s.name
  · rw [if_pos hself]
    exact .inl ⟨hself, rfl⟩
  · rw [if_neg hself]
    refine .inr ?_
    have hmem : relative ∈ (l.remove s.name).names ↔ relative ∈ l.names := by
      rw [names_remove, List.mem_erase_of_ne hself]
    rcases indexOf_cases (l.remove s.name) relative with
      ⟨hname, hindex⟩ | ⟨hname, before, t, after, hsplit, -, -, hindex⟩
    · exact .inl ⟨hself, fun h => hname (hmem.2 h), by simp only [hindex]⟩
    · refine .inr ⟨hself, hmem.1 hname, before.length, ?_, by simp only [hindex]⟩
      rw [hsplit, List.length_append, List.length_cons]
      omega

theorem replace_cases (l : SourceList) (name : String) (s : PropertySource) :
    (name ∉ l.names ∧ l.replace name s = (.error (.missingPropertySource name), l)) ∨
      (name ∈ l.names ∧ ∃ before t after, l.sources = before ++ t :: after ∧ t.name = name ∧
        l.replace name s = (.ok (), ⟨before ++ s :: after⟩)) := by
  unfold replace
  rcases indexOf_cases l name with
    ⟨hname, hindex⟩ | ⟨hname, before, t, after, hsplit, ht, -, hindex⟩
  · rw [hindex]
    exact .inl ⟨hname, rfl⟩
  · refine .inr ⟨hname, before, t, after, hsplit, ht, ?_⟩
    rw [hindex]
    simp only [hsplit, List.set_append_right _ _ (Nat.le_refl _), Nat.sub_self, List.set_cons_zero]

end SourceList

/-! ## Edits -/

/-- A change of a source list. -/
inductive SourceEdit where
  | addFirst (s : PropertySource)
  | addLast (s : PropertySource)
  | addBefore (relative : String) (s : PropertySource)
  | addAfter (relative : String) (s : PropertySource)
  | replace (name : String) (s : PropertySource)
  | remove (name : String)

/-- Carry out an edit: whether it succeeds, and the list afterwards. -/
def SourceList.edit (l : SourceList) : SourceEdit → Except Error Unit × SourceList
  | .addFirst s => (.ok (), l.addFirst s)
  | .addLast s => (.ok (), l.addLast s)
  | .addBefore relative s => l.addBefore relative s
  | .addAfter relative s => l.addAfter relative s
  | .replace name s => l.replace name s
  | .remove name => (.ok (), l.remove name)

/-! ## Edits that fail -/

namespace SourceEdit

/-- Why an edit of a list fails, if it does: a source is to be put next to itself, or the source
that the edit goes by is missing. -/
def refusal? (l : SourceList) : SourceEdit → Option Error
  | addBefore relative s | addAfter relative s =>
    if relative = s.name then some (SourceList.besideItself relative)
    else if relative ∈ l.names then none else some (.missingPropertySource relative)
  | replace name _ => if name ∈ l.names then none else some (.missingPropertySource name)
  | addFirst _ | addLast _ | remove _ => none

/-- The name of the source that an edit takes out before it looks for its place. -/
def displaced? : SourceEdit → Option String
  | addBefore relative s | addAfter relative s => if relative = s.name then none else some s.name
  | addFirst _ | addLast _ | replace .. | remove _ => none

end SourceEdit

namespace SourceList

variable {l : SourceList}

/-- What comes of a source that cannot be put next to another one. -/
theorem addBeside_of_refusal {relative : String} {s : PropertySource} {error : Error}
    (h : (SourceEdit.addBefore relative s).refusal? l = some error) (offset : Nat) :
    l.addBeside offset relative s =
      (.error error, (SourceEdit.addBefore relative s).displaced?.elim l l.remove) := by
  rw [SourceEdit.refusal?] at h
  rw [SourceEdit.displaced?]
  rcases addBeside_cases l offset relative s with
    ⟨hself, he⟩ | ⟨hself, hmissing, he⟩ | ⟨hself, hmem, -⟩
  · rw [if_pos hself] at h ⊢
    cases h
    exact he
  · rw [if_neg hself] at h ⊢
    rw [if_neg hmissing] at h
    cases h
    exact he
  · rw [if_neg hself, if_pos hmem] at h
    cases h

/-- What comes of an edit that fails: the failure, and the list without the source that was taken
out. -/
theorem edit_of_refusal {e : SourceEdit} {error : Error} (h : e.refusal? l = some error) :
    l.edit e = (.error error, e.displaced?.elim l l.remove) := by
  cases e with
  | addFirst s => cases h
  | addLast s => cases h
  | addBefore relative s => exact addBeside_of_refusal h 0
  | addAfter relative s =>
    have hbeside : (SourceEdit.addBefore relative s).refusal? l = some error := h
    exact addBeside_of_refusal hbeside 1
  | replace name s =>
    rw [SourceEdit.refusal?] at h
    rcases replace_cases l name s with ⟨hmissing, he⟩ | ⟨hmem, -⟩
    · rw [if_neg hmissing] at h
      cases h
      exact he
    · rw [if_pos hmem] at h
      cases h
  | remove name => cases h

/-- An edit that is not refused does not fail. -/
theorem edit_of_no_refusal {e : SourceEdit} (h : e.refusal? l = none) : (l.edit e).1 = .ok () := by
  have hbeside (offset : Nat) (relative : String) (s : PropertySource)
      (h : (SourceEdit.addBefore relative s).refusal? l = none) :
      (l.addBeside offset relative s).1 = .ok () := by
    rw [SourceEdit.refusal?] at h
    rcases addBeside_cases l offset relative s with
      ⟨hself, -⟩ | ⟨hself, hmissing, -⟩ | ⟨-, -, i, -, he⟩
    · rw [if_pos hself] at h
      cases h
    · rw [if_neg hself, if_neg hmissing] at h
      cases h
    · rw [he]
  cases e with
  | addFirst s => rfl
  | addLast s => rfl
  | addBefore relative s => exact hbeside 0 relative s h
  | addAfter relative s => exact hbeside 1 relative s h
  | replace name s =>
    rw [SourceEdit.refusal?] at h
    rcases replace_cases l name s with ⟨hmissing, -⟩ | ⟨-, before, t, after, -, -, he⟩
    · rw [if_neg hmissing] at h
      cases h
    · exact congrArg Prod.fst he
  | remove name => rfl

/-- An edit fails for a reason that the list before it gives. It leaves the list without the source
that it took out before it looked for its place, so the list is untouched exactly if there was no
such source. -/
theorem edit_refused (l : SourceList) (e : SourceEdit) (error : Error) :
    ((l.edit e).1 = .error error ↔ e.refusal? l = some error) ∧
    ((l.edit e).1 = .error error →
      (l.edit e).2 = e.displaced?.elim l l.remove ∧
      ((l.edit e).2 = l ↔ ∀ name ∈ e.displaced?, name ∉ l.names)) := by
  have hrefusal : (l.edit e).1 = .error error ↔ e.refusal? l = some error := by
    cases h : e.refusal? l with
    | some refusal =>
      rw [edit_of_refusal h]
      exact ⟨fun he => by cases he; rfl, fun he => by cases he; rfl⟩
    | none =>
      rw [edit_of_no_refusal h]
      exact ⟨nofun, nofun⟩
  refine ⟨hrefusal, fun h => ?_⟩
  have hlist : (l.edit e).2 = e.displaced?.elim l l.remove := by
    rw [edit_of_refusal (hrefusal.1 h)]
  refine ⟨hlist, ?_⟩
  rw [hlist]
  cases e.displaced? with
  | none => exact ⟨fun _ => nofun, fun _ => rfl⟩
  | some name =>
    exact remove_eq_self_iff.trans ⟨fun h _ hn => by cases hn; exact h, fun h => h _ rfl⟩

/-- A table without properties. -/
def bare (name : String) : PropertySource := .table name none Table.empty

/-- A list of two sources. -/
def twoSources : SourceList := ⟨[bare "first", bare "second"]⟩

theorem edit_refused_twoSources :
    ((twoSources.edit (.addAfter "none" (bare "third"))).1 =
        .error (.missingPropertySource "none") ∧
      (twoSources.edit (.addAfter "none" (bare "third"))).2 = twoSources) ∧
    ((twoSources.edit (.replace "none" (bare "first"))).1 = .error (.missingPropertySource "none") ∧
      (twoSources.edit (.replace "none" (bare "first"))).2 = twoSources) ∧
    (twoSources.edit (.addBefore "first" (bare "first"))).1 = .error (besideItself "first") ∧
      (twoSources.edit (.addBefore "first" (bare "first"))).2 = twoSources := by
  have untouched (e : SourceEdit) (error : Error) (he : e.refusal? twoSources = some error)
      (hnew : ∀ name ∈ e.displaced?, name ∉ twoSources.names) :
      (twoSources.edit e).1 = .error error ∧ (twoSources.edit e).2 = twoSources :=
    have hfailed := (edit_refused twoSources e error).1.2 he
    ⟨hfailed, ((edit_refused twoSources e error).2 hfailed).2.2 hnew⟩
  exact ⟨untouched (.addAfter "none" (bare "third")) _ rfl (by decide),
    untouched (.replace "none" (bare "first")) _ rfl (by decide),
    untouched (.addBefore "first" (bare "first")) _ rfl (by decide)⟩

/-- A source that is to go before a missing one is lost. -/
theorem edit_refused_loses :
    (twoSources.edit (.addBefore "none" (bare "first"))).1 =
      .error (.missingPropertySource "none") ∧
      twoSources.names = ["first", "second"] ∧
      (twoSources.edit (.addBefore "none" (bare "first"))).2.names = ["second"] ∧
      (twoSources.edit (.addBefore "none" (bare "first"))).2 ≠ twoSources := by
  have hnames : (twoSources.edit (.addBefore "none" (bare "first"))).2.names = ["second"] := rfl
  refine ⟨rfl, rfl, hnames, fun he => ?_⟩
  rw [he] at hnames
  exact absurd hnames (by decide)

end SourceList

/-! ## Distinct names -/

/-- Is a source to be put in place of one of another name, while a third one has its name? -/
def SourceEdit.Clashes (l : SourceList) : SourceEdit → Prop
  | replace name s => name ∈ l.names ∧ s.name ∈ l.names ∧ s.name ≠ name
  | addFirst _ | addLast _ | addBefore .. | addAfter .. | remove _ => False

namespace SourceList

variable {l : SourceList} {s : PropertySource} {name relative : String} {offset i : Nat}

/-- The list after edits, whether they succeed or fail. -/
def editAll (l : SourceList) (es : List SourceEdit) : SourceList :=
  es.foldl (fun l e => (l.edit e).2) l

/-- No edit puts a source in place of one of another name while a third one has its name. -/
def NeverClashes (l : SourceList) : List SourceEdit → Prop
  | [] => True
  | e :: es => ¬e.Clashes l ∧ (l.edit e).2.NeverClashes es

theorem get?_eq_some_iff (h : l.names.Nodup) :
    l.get? name = some s ↔ s ∈ l.sources ∧ s.name = name := by
  unfold get?
  constructor
  · intro hs
    exact ⟨List.mem_of_find?_eq_some hs, by simpa using List.find?_some hs⟩
  · rintro ⟨hs, rfl⟩
    have hsome : l.contains s.name = true := contains_iff_mem_names.2 (List.mem_map_of_mem hs)
    obtain ⟨t, ht⟩ := Option.isSome_iff_exists.1 hsome
    have hname : t.name = s.name := by simpa using List.find?_some ht
    exact List.inj_on_of_nodup_map h (List.mem_of_find?_eq_some ht) hs hname ▸ ht

theorem nodup_cons_erase {names : List String} (h : names.Nodup) (name : String) :
    (name :: names.erase name).Nodup :=
  List.nodup_cons.2 ⟨h.not_mem_erase, h.erase name⟩

theorem nodup_names_addBeside (h : l.names.Nodup) (hoffset : offset ≤ 1) (relative : String)
    (s : PropertySource) : (l.addBeside offset relative s).2.names.Nodup := by
  rcases addBeside_cases l offset relative s with ⟨-, he⟩ | ⟨-, -, he⟩ | ⟨-, -, i, hi, he⟩
  · rw [he]
    exact h
  · rw [he, names_remove]
    exact h.erase _
  · have hplace : i + offset ≤ (l.remove s.name).sources.length := by omega
    have hperm := (List.perm_insertIdx s _ hplace).map (·.name)
    rw [he]
    refine hperm.nodup_iff.2 ?_
    show (s.name :: (l.remove s.name).names).Nodup
    rw [names_remove]
    exact nodup_cons_erase h s.name

theorem nodup_names_replace_iff (h : l.names.Nodup) (name : String) (s : PropertySource) :
    (l.replace name s).2.names.Nodup ↔ ¬(SourceEdit.replace name s).Clashes l := by
  rw [SourceEdit.Clashes]
  rcases replace_cases l name s with ⟨hmissing, he⟩ | ⟨hmem, before, t, after, hsplit, rfl, he⟩
  · rw [he]
    exact iff_of_true h fun hclash => hmissing hclash.1
  · have hnames : l.names = before.map (·.name) ++ t.name :: after.map (·.name) := by
      rw [names, hsplit, List.map_append, List.map_cons]
    rw [hnames, List.nodup_middle, List.nodup_cons] at h
    rw [he, names_mk, List.map_append, List.map_cons, List.nodup_middle, List.nodup_cons,
      and_iff_left h.2, not_iff_not]
    -- the name of `s` clashes with one of the other names, which are distinct from that of `t`
    have hother : s.name ∈ l.names ↔
        s.name = t.name ∨ s.name ∈ before.map (·.name) ++ after.map (·.name) := by
      rw [hnames, List.perm_middle.mem_iff, List.mem_cons]
    constructor
    · intro hs
      exact ⟨hmem, hother.2 (.inr hs), fun hn => h.1 (hn ▸ hs)⟩
    · rintro ⟨-, hs, hne⟩
      exact (hother.1 hs).resolve_left hne

/-- An edit keeps names distinct unless it clashes. -/
theorem nodup_names_edit_iff (h : l.names.Nodup) (e : SourceEdit) :
    (l.edit e).2.names.Nodup ↔ ¬e.Clashes l := by
  cases e with
  | addFirst s =>
    refine iff_of_true ?_ id
    rw [edit, names_addFirst]
    exact nodup_cons_erase h s.name
  | addLast s =>
    refine iff_of_true ?_ id
    rw [edit, names_addLast]
    exact (List.perm_append_singleton _ _).nodup_iff.2 (nodup_cons_erase h s.name)
  | addBefore relative s =>
    exact iff_of_true (nodup_names_addBeside h (Nat.zero_le 1) relative s) id
  | addAfter relative s => exact iff_of_true (nodup_names_addBeside h (Nat.le_refl 1) relative s) id
  | replace name s => exact nodup_names_replace_iff h name s
  | remove name =>
    refine iff_of_true ?_ id
    rw [edit, names_remove]
    exact h.erase name

/-- Names stay distinct throughout edits exactly if none of them clashes. -/
theorem nodup_names_editAll_iff (h : l.names.Nodup) (es : List SourceEdit) :
    (∀ done, done <+: es → (l.editAll done).names.Nodup) ↔ l.NeverClashes es := by
  induction es generalizing l with
  | nil => exact iff_of_true (fun done hdone => List.prefix_nil.1 hdone ▸ h) trivial
  | cons e es ih =>
    rw [NeverClashes, ← nodup_names_edit_iff h]
    constructor
    · intro hall
      have hedit : (l.edit e).2.names.Nodup := hall [e] (List.prefix_append [e] es)
      refine ⟨hedit, (ih hedit).1 fun done hdone => ?_⟩
      exact hall (e :: done) (List.prefix_cons_inj e |>.2 hdone)
    · rintro ⟨hedit, hrest⟩ done hdone
      rcases List.prefix_cons_iff.1 hdone with rfl | ⟨rest, rfl, hprefix⟩
      · exact h
      · exact (ih hedit).2 hrest rest hprefix

theorem neverClashes_of_own_names {es : List SourceEdit}
    (h : ∀ name s, .replace name s ∈ es → s.name = name) (l : SourceList) : l.NeverClashes es := by
  induction es generalizing l with
  | nil => trivial
  | cons e es ih =>
    refine ⟨?_, ih (fun name s hs => h name s (List.mem_cons_of_mem _ hs)) _⟩
    cases e with
    | replace name s => exact fun hclash => hclash.2.2 (h name s List.mem_cons_self)
    | _ => exact id

/-- The names that edits of the empty list lead to are distinct after each of them exactly if none
of them clashes. Then a name stands for one source at most, and for none once that is removed. -/
theorem names_distinct_iff (es : List SourceEdit) :
    ((∀ done, done <+: es → (editAll {} done).names.Nodup) ↔ NeverClashes {} es) ∧
    (NeverClashes {} es → ∀ name,
      (∀ s, (editAll {} es).get? name = some s ↔ s ∈ (editAll {} es).sources ∧ s.name = name) ∧
      name ∉ ((editAll {} es).remove name).names) := by
  have hempty : (names {}).Nodup := List.nodup_nil
  refine ⟨nodup_names_editAll_iff hempty es, fun hnever name => ?_⟩
  have hnodup := (nodup_names_editAll_iff hempty es).2 hnever es (List.prefix_refl es)
  refine ⟨fun s => get?_eq_some_iff hnodup, ?_⟩
  rw [names_remove]
  exact hnodup.not_mem_erase

/-- Edits of which two fail and two go by a name that has been taken before. -/
def shuffled : List SourceEdit :=
  [.addLast (bare "first"), .addFirst (bare "second"), .addAfter "first" (bare "second"),
    .addBefore "none" (bare "first"), .replace "second" (.composite "second" [bare "first"]),
    .replace "none" (bare "none"), .addBefore "second" (bare "first"), .remove "second"]

theorem names_distinct_iff_shuffled :
    NeverClashes {} shuffled ∧ (∀ done, done <+: shuffled → (editAll {} done).names.Nodup) ∧
      (editAll {} shuffled).names = ["first"] := by
  have hnever : NeverClashes {} shuffled := by
    refine neverClashes_of_own_names (fun name s hs => ?_) {}
    simp only [shuffled, List.mem_cons, List.not_mem_nil, SourceEdit.replace.injEq, reduceCtorEq,
      or_false, false_or] at hs
    rcases hs with ⟨rfl, rfl⟩ | ⟨rfl, rfl⟩
    · rfl
    · rfl
  exact ⟨hnever, (names_distinct_iff shuffled).1.2 hnever, rfl⟩

/-- A source that is put in place of one of another name does not take out the one that has its
name. -/
theorem names_repeated_replace :
    (editAll {} [.addLast (bare "first"), .addLast (bare "second"),
      .replace "first" (bare "second")]).names = ["second", "second"] ∧
    ¬(editAll {} [.addLast (bare "first"), .addLast (bare "second"),
      .replace "first" (bare "second")]).names.Nodup :=
  ⟨rfl, by decide⟩

end SourceList

end Wiring
