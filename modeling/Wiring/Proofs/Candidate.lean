import Wiring.Condition
import Wiring.Proofs.Declared
import Wiring.Proofs.Registry

/-!
# Definitions of configuration classes

Marking a definition as one of a configuration class changes neither which names are taken nor which
class a definition is of.
-/

namespace Wiring

theorem Context.skips_of_unconditional {ctx : Context} {e : Element}
    (h : e.marks.has AnnotationType.conditional = false) (env : Environment)
    (phase? : Option Phase) : ctx.skips env e phase? = .ok false := by
  unfold skips
  rw [h]
  rfl

namespace Registry

/-- The definition is one of a configuration class that carries no condition. -/
structure Offers (r : Registry) (reader : Reader) (name : String) (c : ClassDecl) : Prop where
  class_eq : r.classOf? reader name = some c
  candidate : c.configurationKind?.isSome
  unconditional : c.marks.has AnnotationType.conditional = false

variable {r r' : Registry} {reader : Reader} {name other : String} {c : ClassDecl}

theorem classOf?_congr (h : r'.get? name = r.get? name) :
    r'.classOf? reader name = r.classOf? reader name := by
  unfold classOf?
  rw [h]

theorem exists_of_classOf? (h : r.classOf? reader name = some c) :
    ∃ d className, r.get? name = some d ∧ d.factoryMethod? = none ∧
      d.className? = some className ∧ reader.read? className = some c := by
  unfold classOf? at h
  obtain ⟨d, hd, h⟩ := Option.bind_eq_some_iff.1 h
  split at h
  · cases h
  next hf =>
    obtain ⟨className, hc, hr⟩ := Option.bind_eq_some_iff.1 h
    exact ⟨d, className, hd, Option.not_isSome_iff_eq_none.1 hf, hc, hr⟩

theorem className_of_classOf? (h : r.classOf? reader name = some c) :
    ∃ className, (r.get? name).bind (·.className?) = some className ∧
      reader.read? className = some c := by
  obtain ⟨d, className, hd, -, hc, hr⟩ := exists_of_classOf? h
  exact ⟨className, by rw [hd, Option.bind_some, hc], hr⟩

theorem mem_names_of_classOf? (h : r.classOf? reader name = some c) : name ∈ r.names := by
  obtain ⟨d, -, hd, -⟩ := exists_of_classOf? h
  exact mem_names_of_get? hd

/-! ## Marking -/

theorem markCandidate?_eq_some :
    r.markCandidate? reader name = some r' ↔
      ∃ c kind, r.classOf? reader name = some c ∧ c.configurationKind? = some kind ∧
        r' = r.modify name fun d => { d with kind? := some kind, order? := c.order? } := by
  unfold markCandidate?
  simp only [Option.bind_eq_bind, Option.bind_eq_some_iff, pure, Option.some.injEq]
  constructor
  · rintro ⟨c, hc, kind, hk, rfl⟩
    exact ⟨c, kind, hc, hk, rfl⟩
  · rintro ⟨c, kind, hc, hk, rfl⟩
    exact ⟨c, hc, kind, hk, rfl⟩

theorem names_of_markCandidate? (h : r.markCandidate? reader name = some r') :
    r'.names = r.names := by
  obtain ⟨c, kind, -, -, rfl⟩ := markCandidate?_eq_some.1 h
  exact names_modify _ _ _

theorem classOf?_of_markCandidate? (h : r.markCandidate? reader other = some r') :
    r'.classOf? reader name = r.classOf? reader name := by
  obtain ⟨c, kind, -, -, rfl⟩ := markCandidate?_eq_some.1 h
  unfold classOf?
  rw [get?_modify]
  split
  · cases r.get? name <;> rfl
  · rfl

variable {isCandidate : Bool}

theorem markCandidate?_of_markCandidate (h : r.markCandidate reader name = (isCandidate, r')) :
    isCandidate = true ∧ r.markCandidate? reader name = some r' ∨
      isCandidate = false ∧ r.markCandidate? reader name = none ∧ r' = r := by
  unfold markCandidate at h
  split at h
  next hm => cases h; exact .inl ⟨rfl, hm⟩
  next hm => cases h; exact .inr ⟨rfl, hm, rfl⟩

theorem names_markCandidate (h : r.markCandidate reader name = (isCandidate, r')) :
    r'.names = r.names := by
  rcases markCandidate?_of_markCandidate h with ⟨-, hm⟩ | ⟨-, -, rfl⟩
  · exact names_of_markCandidate? hm
  · rfl

theorem classOf?_markCandidate (h : r.markCandidate reader other = (isCandidate, r')) :
    r'.classOf? reader name = r.classOf? reader name := by
  rcases markCandidate?_of_markCandidate h with ⟨-, hm⟩ | ⟨-, -, rfl⟩
  · exact classOf?_of_markCandidate? hm
  · rfl

/-! ## Definitions of a class -/

/-- There is a definition of the class under the name, other than by a factory method. -/
def Defines (r : Registry) (name className : String) : Prop :=
  ∃ d, r.get? name = some d ∧ d.factoryMethod? = none ∧ d.className? = some className

variable {className : String}

theorem defines_congr (h : r'.get? name = r.get? name) :
    r'.Defines name className ↔ r.Defines name className := by
  unfold Defines
  rw [h]

theorem Defines.of_register {definition : Definition} (h : r'.Defines name className)
    (hr : r.register other definition = .ok r') :
    r.Defines name className ∨
      name = other ∧ definition.factoryMethod? = none ∧ definition.className? = some className := by
  by_cases he : name = other
  · obtain ⟨d, hd, hf, hc⟩ := h
    rw [get?_of_register hr, if_pos he] at hd
    obtain rfl := Option.some.inj hd
    exact .inr ⟨he, hf, hc⟩
  · refine .inl ((defines_congr ?_).1 h)
    rw [get?_of_register hr, if_neg he]

theorem defines_remove :
    (r.remove other).Defines name className ↔ r.Defines name className ∧ name ≠ other := by
  by_cases he : name = other
  · refine ⟨fun h => ?_, fun h => absurd he h.2⟩
    obtain ⟨d, hd, -⟩ := h
    rw [get?_remove, if_pos he] at hd
    cases hd
  · rw [and_iff_left he]
    refine defines_congr ?_
    rw [get?_remove, if_neg he]

theorem defines_of_markCandidate? (h : r.markCandidate? reader other = some r') :
    r'.Defines name className ↔ r.Defines name className := by
  obtain ⟨c, kind, -, -, rfl⟩ := markCandidate?_eq_some.1 h
  by_cases he : name = other
  · unfold Defines
    rw [get?_modify, if_pos he]
    cases r.get? name <;> simp
  · refine defines_congr ?_
    rw [get?_modify, if_neg he]

theorem defines_markCandidate (h : r.markCandidate reader other = (isCandidate, r')) :
    r'.Defines name className ↔ r.Defines name className := by
  rcases markCandidate?_of_markCandidate h with ⟨-, hm⟩ | ⟨-, -, rfl⟩
  · exact defines_of_markCandidate? hm
  · exact Iff.rfl

/-! ## Configuration classes without conditions -/

namespace Offers

variable (h : r.Offers reader name c)

include h

theorem of_classOf?_eq (he : r'.classOf? reader name = r.classOf? reader name) :
    r'.Offers reader name c :=
  ⟨he.trans h.class_eq, h.candidate, h.unconditional⟩

theorem mem_names : name ∈ r.names := mem_names_of_classOf? h.class_eq

theorem exists_markCandidate? : ∃ r', r.markCandidate? reader name = some r' := by
  obtain ⟨kind, hk⟩ := Option.isSome_iff_exists.1 h.candidate
  exact ⟨_, markCandidate?_eq_some.2 ⟨c, kind, h.class_eq, hk, rfl⟩⟩

end Offers

end Registry

end Wiring
