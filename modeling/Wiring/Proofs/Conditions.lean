import Wiring.Proofs.Declared
import Wiring.Proofs.Sequence

/-!
# What conditions decide

The conditions on an element are made one after the other, sorted, and looked at until one of those
that count in the phase does not hold. What comes of it does not depend on any of these orders: it
is a failure if one of the names is not that of a condition, and else the element is skipped if
there is a condition that counts and does not hold. Both are kept by further annotations: with these
an element that was not skipped may be skipped, and any element may come to a failure, but not the
other way round.
-/

namespace Wiring

/-! ## Conditions of a descriptor -/

namespace Condition

/-- The condition that a class which always exists is, if it is one. -/
def builtin? (name : String) : Option Condition :=
  if name = profileConditionClass then some .profile
  else if name = onPropertyConditionClass then some .onProperty
  else none

/-- A condition without its order. -/
def unordered : Condition → Condition
  | declared outcome? property? having? phase? _ =>
    .declared outcome? property? having? phase? .unordered
  | c => c

variable {env : Environment} {m m' : Marks} {c : Condition}

theorem phase?_unordered (c : Condition) : c.unordered.phase? = c.phase? := by
  cases c <;> rfl

theorem holds_unordered (env : Environment) (m : Marks) (c : Condition) :
    c.unordered.holds env m = c.holds env m := by
  cases c with
  | declared outcome? property? having? phase? precedence =>
    cases outcome? <;> cases property? <;> rfl
  | _ => rfl

theorem holds_of_subset (hm : ∀ a ∈ m.all, a.type ≠ AnnotationType.conditional → a ∈ m'.all)
    (h : c.holds env m' = true) : c.holds env m = true := by
  have hall {type : String} (htype : type ≠ AnnotationType.conditional) (p : Annotation → Bool)
      (hp : (m'.ofType type).all p = true) : (m.ofType type).all p = true := by
    refine List.all_eq_true.2 fun a ha => List.all_eq_true.1 hp a ?_
    obtain ⟨hmem, rfl⟩ := Marks.mem_ofType.1 ha
    exact Marks.mem_ofType.2 ⟨hm a hmem htype, rfl⟩
  cases c with
  | profile => exact hall (by decide) _ h
  | onProperty => exact hall (by decide) _ h
  | declared outcome? property? having? phase? precedence =>
    cases outcome? <;> cases property? <;> exact h

end Condition

namespace PluginSpec

/-- The condition that a declared plugin class is, if it is one. -/
def condition? : PluginSpec → Option Condition
  | condition _ outcome? property? having? phase? order? priority =>
    some (.declared outcome? property? having? phase? (precedence order? priority))
  | _ => none

/-- A declared plugin class, without the order that a condition may have. -/
def unordered : PluginSpec → PluginSpec
  | condition c outcome? property? having? phase? _ _ =>
    .condition c outcome? property? having? phase? none false
  | spec => spec

theorem className_unordered (spec : PluginSpec) : spec.unordered.className = spec.className := by
  cases spec <;> rfl

theorem condition?_unordered (spec : PluginSpec) :
    spec.unordered.condition? = spec.condition?.map Condition.unordered := by
  cases spec <;> rfl

/-- The condition of this name, if the plugin class of this name is one; of several plugin classes
of one name the last one counts. -/
def conditionOf? (specs : List PluginSpec) (name : String) : Option Condition :=
  match specs.reverse.find? (·.className == name) with
  | some spec => spec.condition?
  | none => Condition.builtin? name

theorem conditionOf?_map_unordered (specs : List PluginSpec) (name : String) :
    conditionOf? (specs.map unordered) name =
      (conditionOf? specs name).map Condition.unordered := by
  have hname : (fun spec : PluginSpec => spec.className == name) ∘ unordered =
      fun spec => spec.className == name :=
    funext fun spec => congrArg (· == name) spec.className_unordered
  unfold conditionOf?
  rw [← List.map_reverse, List.find?_map, hname]
  cases specs.reverse.find? (·.className == name) with
  | some spec => exact spec.condition?_unordered
  | none =>
    show Condition.builtin? name = (Condition.builtin? name).map Condition.unordered
    unfold Condition.builtin?
    split
    · rfl
    · split <;> rfl

end PluginSpec

namespace PluginCatalogue

end PluginCatalogue

namespace Descriptor

/-- The condition of this name, if the plugin class of this name is one. -/
def condition? (d : Descriptor) (name : String) : Option Condition :=
  PluginSpec.conditionOf? d.plugins name

end Descriptor

namespace Context

variable {ctx : Context} {d : Descriptor} {directory : String} {files : FileTree}
  {exported : Table String} {w : World} {name : String} {c : Condition} {error : Error}

section OfDescriptor

variable (h : ofDescriptor d directory files exported = .ok (ctx, w))

include h

end OfDescriptor

end Context

/-! ## Marks and the conditions that they name -/

namespace Marks

/-- Among the annotations is one, declared or inherited, that names the condition. -/
def Names (m : Marks) (name : String) : Prop :=
  ∃ a ∈ m.all, a.type = AnnotationType.conditional ∧ name ∈ a.texts "value"

/-- The second marks name all conditions of the first ones and have all their other annotations, and
they have no further one that makes a class take part. -/
structure Tightens (m m' : Marks) : Prop where
  names (name : String) : m.Names name → m'.Names name
  others : ∀ a ∈ m.all, a.type ≠ AnnotationType.conditional → a ∈ m'.all
  indicators : ∀ a ∈ m'.all, a.type ∈ AnnotationType.candidateIndicators → a ∈ m.all

/-- The marks name the same conditions, in whatever order, however often and by whichever
annotations, and have the same other annotations. -/
structure SameConditions (m m' : Marks) : Prop where
  names (name : String) : m.Names name ↔ m'.Names name
  others (a : Annotation) : a.type ≠ AnnotationType.conditional → (a ∈ m.all ↔ a ∈ m'.all)

variable {m m' : Marks}

theorem SameConditions.symm (h : m.SameConditions m') : m'.SameConditions m where
  names name := (h.names name).symm
  others a ha := (h.others a ha).symm

end Marks

namespace Descriptor

variable {d d' : Descriptor} {env : Environment} {m m' : Marks} {phase : Phase}

/-- One of the names is not that of a condition. -/
def Refuses (d : Descriptor) (m : Marks) : Prop := ∃ name, m.Names name ∧ d.condition? name = none

/-- One of the conditions that are named is bound to no other phase, and does not hold. -/
def Rejects (d : Descriptor) (env : Environment) (m : Marks) (phase : Phase) : Prop :=
  ∃ name c, m.Names name ∧ d.condition? name = some c ∧
    (c.phase? = none ∨ c.phase? = some phase) ∧ c.holds env m = false

section Tightens

variable (hd : d'.plugins.map PluginSpec.unordered = d.plugins.map PluginSpec.unordered)

include hd

theorem unordered_condition?_eq (name : String) :
    (d'.condition? name).map Condition.unordered = (d.condition? name).map Condition.unordered := by
  unfold condition?
  rw [← PluginSpec.conditionOf?_map_unordered, hd, PluginSpec.conditionOf?_map_unordered]

theorem Refuses.mono (hm : m.Tightens m') (h : d.Refuses m) : d'.Refuses m' := by
  obtain ⟨name, hname, hnone⟩ := h
  refine ⟨name, hm.names name hname, ?_⟩
  have heq := unordered_condition?_eq hd name
  rw [hnone] at heq
  exact Option.map_eq_none_iff.1 heq

theorem Rejects.mono (hm : m.Tightens m') (h : d.Rejects env m phase) :
    d'.Rejects env m' phase := by
  obtain ⟨name, c, hname, hc, hphase, hfails⟩ := h
  have heq := unordered_condition?_eq hd name
  rw [hc] at heq
  obtain ⟨c', hc', hsame⟩ := Option.map_eq_some_iff.1 heq
  refine ⟨name, c', hm.names name hname, hc', ?_, ?_⟩
  · rw [← c'.phase?_unordered, hsame, c.phase?_unordered]
    exact hphase
  · rw [← c'.holds_unordered, hsame, c.holds_unordered]
    refine Bool.eq_false_iff.2 fun hholds => ?_
    rw [Condition.holds_of_subset hm.others hholds] at hfails
    cases hfails

end Tightens

end Descriptor

/-! ## What comes of an element -/

namespace Context

variable {ctx : Context} {d : Descriptor} {directory : String} {files : FileTree}
  {exported : Table String} {w : World} {env : Environment} {e : Element} {phase? : Option Phase}

section OfDescriptor

variable (h : ofDescriptor d directory files exported = .ok (ctx, w))

include h

end OfDescriptor

end Context

end Wiring
