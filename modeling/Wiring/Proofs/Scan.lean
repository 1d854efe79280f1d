import Wiring.Proofs.Declared
import Wiring.Proofs.Registry
import Wiring.Scan

/-!
# What scans find and register

A scan finds known classes. Registering them only adds definitions: those of the classes whose bean
names were not taken.
-/

namespace Wiring

theorem mem_of_filterM {α : Type} {f : α → Except Error Bool} {l kept : List α}
    (h : l.filterM f = .ok kept) {a : α} (ha : a ∈ kept) : a ∈ l := by
  have haux : ∀ (l acc kept : List α), List.filterAuxM f l acc = .ok kept → a ∈ kept →
      a ∈ l ∨ a ∈ acc := by
    intro l
    induction l with
    | nil => rintro acc _ ⟨⟩ ha; exact .inr ha
    | cons b l ih =>
      intro acc kept h ha
      obtain ⟨chosen, -, h⟩ := bind_eq_ok.1 h
      cases chosen with
      | false => exact (ih acc kept h ha).imp_left (List.mem_cons_of_mem _)
      | true =>
        rcases ih (b :: acc) kept h ha with hl | hl
        · exact .inl (List.mem_cons_of_mem _ hl)
        · rcases List.mem_cons.1 hl with rfl | hl
          · exact .inl List.mem_cons_self
          · exact .inr hl
  obtain ⟨found, hf, hk⟩ := bind_eq_ok.1 h
  cases hk
  rcases haux l [] found hf (List.mem_reverse.1 ha) with hl | hl
  · exact hl
  · cases hl

namespace Scan

theorem read?_of_candidates {ctx : Context} {env : Environment} {directive : Annotation}
    {declaring : ClassDecl} {found : List ClassDecl}
    (h : candidates ctx env directive declaring = .ok found) {c : ClassDecl} (hc : c ∈ found) :
    ∃ name ∈ ctx.reader.classNames, ctx.reader.read? name = some c := by
  obtain ⟨includes, -, h⟩ := bind_eq_ok.1 h
  obtain ⟨excludes, -, h⟩ := bind_eq_ok.1 h
  obtain ⟨name, hn, hr⟩ := List.mem_filterMap.1 (List.mem_filter.1 (mem_of_filterM h hc)).1
  exact ⟨name, (List.mem_filter.1 hn).1, hr⟩

/-- What registering components adds: a definition for each class whose bean name was not taken. The
names of those are given. -/
theorem entries_register {r r' : Registry} {found : List ClassDecl}
    {outcome : Except Error (List String)} (h : register r found = (outcome, r')) :
    ∃ added, r'.entries = r.entries ++ added ∧
      (∀ names, outcome = .ok names → names = added.map (·.1)) ∧
      ∀ e ∈ added, e.1 ∉ r.names ∧
        ∃ c ∈ found, e = (beanName c, .ofClass c.name .scanned) := by
  induction found generalizing r outcome with
  | nil =>
    cases h
    refine ⟨[], (List.append_nil _).symm, ?_, fun e he => absurd he List.not_mem_nil⟩
    rintro _ ⟨⟩
    rfl
  | cons c rest ih =>
    unfold register at h
    simp only at h
    split at h
    · split at h
      · obtain ⟨added, ha, hn, he⟩ := ih h
        refine ⟨added, ha, hn, fun e hm => ⟨(he e hm).1, ?_⟩⟩
        obtain ⟨d, hd, hed⟩ := (he e hm).2
        exact ⟨d, List.mem_cons_of_mem _ hd, hed⟩
      · cases h
        exact ⟨[], (List.append_nil _).symm, nofun, fun e he => absurd he List.not_mem_nil⟩
    next hget =>
      rw [Registry.get?_eq_none_iff] at hget
      split at h
      · cases h
        exact ⟨[], (List.append_nil _).symm, nofun, fun e he => absurd he List.not_mem_nil⟩
      next r₁ hreg =>
        rcases hrest : register r₁ rest with ⟨outcome', r₂⟩
        rw [hrest] at h
        cases h
        have h₁ := Registry.entries_of_register hget hreg
        obtain ⟨added, ha, hn, he⟩ := ih hrest
        refine ⟨(beanName c, .ofClass c.name .scanned) :: added, ?_, ?_, ?_⟩
        · rw [ha, h₁, List.append_assoc, List.singleton_append]
        · intro names hnames
          cases outcome' with
          | error e => cases hnames
          | ok names' => cases hnames; rw [hn names' rfl, List.map_cons]
        · intro e hm
          rcases List.mem_cons.1 hm with rfl | hm
          · exact ⟨hget, c, List.mem_cons_self, rfl⟩
          · obtain ⟨hnot, d, hd, hed⟩ := he e hm
            exact ⟨fun h => hnot ((Registry.names_of_register hreg).subset h), d,
              List.mem_cons_of_mem _ hd, hed⟩

theorem names_subset_register {r r' : Registry} {found : List ClassDecl}
    {outcome : Except Error (List String)} (h : register r found = (outcome, r')) :
    r.names ⊆ r'.names := by
  obtain ⟨added, hentries, -⟩ := entries_register h
  unfold Registry.names
  rw [hentries, List.map_append]
  exact List.subset_append_left _ _

end Scan

end Wiring
