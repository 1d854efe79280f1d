import Mathlib.Logic.Relation
import Wiring.ImportLog
import Wiring.Proofs.Count
import Wiring.Proofs.Declared

/-!
# Following importers

An import is chained if following the last importers from a class that is being gone through leads
back to it. The search follows each importer at most once, and that is enough: an importer that
comes up twice only leads to those already met.
-/

open Relation (ReflTransGen TransGen)

namespace Wiring

namespace ImportLog

variable {l : ImportLog} {target : String}

/-- The last importer of the one class is the other. -/
def Follows (l : ImportLog) (imported importer : String) : Prop :=
  l.lastImporter? imported = some importer

theorem Follows.mem_names {imported importer : String} (h : l.Follows imported importer) :
    imported ∈ l.importers.names := by
  unfold Follows lastImporter? importersOf at h
  cases hg : l.importers.get? imported with
  | none => rw [hg] at h; cases h
  | some importers => exact Table.mem_names_of_get? hg

/-- Those met are not the target, and lead only to each other or to where the search has come. -/
def Explored (l : ImportLog) (target : String) (met : List String) (current? : Option String) :
    Prop :=
  ∀ a ∈ met, a ≠ target ∧ ∀ b, l.Follows a b → b ∈ met ∨ current? = some b

/-- What has been explored leads only to where the search has come, and if that has been explored
too, then not to the target. -/
theorem Explored.not_mem {met : List String} {current : String}
    (he : l.Explored target met (some current)) (h : ReflTransGen l.Follows current target) :
    current ∉ met := by
  intro hm
  have hall : ∀ a, ReflTransGen l.Follows current a → a ∈ met := by
    intro a ha
    induction ha with
    | refl => exact hm
    | tail _ hab ih =>
      rcases (he _ ih).2 _ hab with hb | hb
      · exact hb
      · exact Option.some.inj hb ▸ hm
  exact (he _ (hall target h)).1 rfl

theorem Explored.cons {met : List String} {current : String}
    (he : l.Explored target met (some current)) (hne : current ≠ target) :
    l.Explored target (current :: met) (l.lastImporter? current) := by
  intro a ha
  rcases List.mem_cons.1 ha with rfl | ha
  · exact ⟨hne, fun b hb => .inr hb⟩
  · refine ⟨(he a ha).1, fun b hb => .inl ?_⟩
    rcases (he a ha).2 b hb with hb | hb
    · exact List.mem_cons_of_mem _ hb
    · cases hb
      exact List.mem_cons_self

theorem reflTransGen_of_leadsTo {bound : Nat} {met : List String} {current : String}
    (h : l.leadsTo target bound met (some current) = true) :
    ReflTransGen l.Follows current target := by
  induction bound generalizing met current with
  | zero => cases h
  | succ bound ih =>
    unfold leadsTo at h
    split at h
    next heq => rw [heq]
    next =>
      split at h
      · cases h
      · cases hl : l.lastImporter? current with
        | none => rw [hl] at h; unfold leadsTo at h; cases h
        | some next => rw [hl] at h; exact .head hl (ih h)

theorem leadsTo_of_reflTransGen {bound : Nat} {met : List String} {current : String}
    (hb : unmet l.importers.names met < bound) (he : l.Explored target met (some current))
    (h : ReflTransGen l.Follows current target) :
    l.leadsTo target bound met (some current) = true := by
  induction bound generalizing met current with
  | zero => omega
  | succ bound ih =>
    unfold leadsTo
    by_cases heq : current = target
    · rw [if_pos heq]
    · have hm := he.not_mem h
      rw [if_neg heq, if_neg hm]
      obtain rfl | ⟨next, hn, hr⟩ := h.cases_head
      · exact absurd rfl heq
      · have hlt := unmet_cons_lt hn.mem_names hm
        have he' := he.cons heq
        rw [hn] at he' ⊢
        exact ih (by omega) he' hr

/-- An import is chained exactly if the class is being gone through and following the last importers
from it leads back to it. -/
theorem isChained_iff {name : String} :
    l.isChained name = true ↔ l.contains name = true ∧ TransGen l.Follows name name := by
  unfold isChained
  rw [Bool.and_eq_true]
  refine and_congr_right fun _ => ?_
  cases hn : l.lastImporter? name with
  | none =>
    constructor
    · intro h
      unfold leadsTo at h
      cases h
    · intro h
      obtain ⟨importer, hi, -⟩ := TransGen.head'_iff.1 h
      rw [Follows, hn] at hi
      cases hi
  | some importer =>
    have hsize : l.importers.size = l.importers.names.length := (List.length_map _).symm
    have hb := unmet_le l.importers.names []
    constructor
    · exact fun h => .head' hn (reflTransGen_of_leadsTo h)
    · intro h
      obtain ⟨importer', hi, hr⟩ := TransGen.head'_iff.1 h
      rw [Follows, hn] at hi
      cases hi
      exact leadsTo_of_reflTransGen (by omega) nofun hr

end ImportLog

end Wiring
