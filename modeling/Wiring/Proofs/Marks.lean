import Mathlib.Data.List.Nodup
import Mathlib.Logic.Relation
import Wiring.Proofs.Count
import Wiring.Metadata.Reader

/-!
# Inherited annotations

Reading a class goes through annotation types in the order in which they are met, each of them once.
`Gathers` is that search without a bound: it comes to its end whatever circles annotation types
form. What it finds are the annotations declared on the types that can be reached from those it
begins with, through types that are known and not foundational.
-/

open Relation (ReflTransGen TransGen)

namespace Wiring

namespace Reader

variable {r : Reader} {met queue : List String} {type other : String} {found : List Annotation}
  {a : Annotation}

/-! ## The search of annotation types -/

/-- The search of annotation types, with those met and those still to go through. -/
inductive Gathers (r : Reader) : List String → List String → List Annotation → Prop
  | done (met : List String) : Gathers r met [] []
  | next {met queue : List String} {type : String} {found : List Annotation} :
    Gathers r (freshTypes met (r.declaredOn type) ++ met)
      (queue ++ freshTypes met (r.declaredOn type)) found →
    Gathers r met (type :: queue) (r.declaredOn type ++ found)

theorem mem_freshTypes :
    type ∈ freshTypes met found ↔ type ∉ met ∧ ∃ a ∈ found, a.type = type := by
  induction found generalizing met with
  | nil => simp [freshTypes]
  | cons a found ih =>
    unfold freshTypes
    by_cases ha : a.type ∈ met
    · rw [if_pos ha, ih]
      grind
    · rw [if_neg ha, List.mem_cons, ih]
      grind

theorem nodup_freshTypes (met : List String) (found : List Annotation) :
    (freshTypes met found).Nodup := by
  induction found generalizing met with
  | nil => exact List.nodup_nil
  | cons a found ih =>
    unfold freshTypes
    split
    · exact ih met
    · refine List.nodup_cons.2 ⟨fun hm => ?_, ih _⟩
      exact (mem_freshTypes.1 hm).1 List.mem_cons_self

/-- The types of the annotations that are declared on known classes. -/
def declaredTypes (r : Reader) : List String :=
  r.catalogue.classes.toList.flatMap fun e => e.2.marks.declared.map (·.type)

theorem length_declaredTypes (r : Reader) :
    r.declaredTypes.length = r.catalogue.annotationCount := by
  unfold declaredTypes Catalogue.annotationCount
  rw [List.length_flatMap, List.sum_eq_foldl]
  simp only [List.length_map]

theorem mem_declaredTypes (ha : a ∈ r.declaredOn type) : a.type ∈ r.declaredTypes := by
  unfold declaredOn at ha
  split at ha
  · cases ha
  · cases hd : r.catalogue.classes.get? type with
    | none => rw [hd] at ha; cases ha
    | some d =>
      rw [hd] at ha
      obtain ⟨l₁, l₂, hl, -⟩ := List.lookup_eq_some_iff.1 hd
      refine List.mem_flatMap.2 ⟨(type, d), ?_, List.mem_map_of_mem ha⟩
      show _ ∈ r.catalogue.classes.entries
      rw [hl]
      simp

/-- With room for the types that are left and for those that have not been met, the search comes to
its end. -/
theorem gathers_gather {bound : Nat}
    (h : queue.length + unmet r.declaredTypes met ≤ bound) :
    r.Gathers met queue (r.gather bound met queue) := by
  induction bound generalizing met queue with
  | zero =>
    obtain rfl : queue = [] := List.eq_nil_of_length_eq_zero (by omega)
    exact .done met
  | succ bound ih =>
    cases queue with
    | nil => exact .done met
    | cons type queue =>
      apply Gathers.next
      apply ih
      have hfresh := unmet_append_le r.declaredTypes met
        (nodup_freshTypes met (r.declaredOn type)) fun other ho => by
          obtain ⟨hm, a, ha, rfl⟩ := mem_freshTypes.1 ho
          exact ⟨mem_declaredTypes ha, hm⟩
      rw [List.length_cons] at h
      rw [List.length_append]
      omega

theorem gathers_inheritedFrom (r : Reader) (declared : List Annotation) :
    r.Gathers (declared.map (·.type)) (declared.map (·.type)) (r.inheritedFrom declared) := by
  apply gathers_gather
  have hunmet := unmet_le r.declaredTypes (declared.map (·.type))
  rw [length_declaredTypes] at hunmet
  omega

/-! ## What the search finds -/

/-- The one annotation type is looked into, and known, and the other is declared on it. -/
def Declares (r : Reader) (type other : String) : Prop :=
  r.isFoundational type = false ∧
    ∃ d, r.catalogue.classes.get? type = some d ∧ ∃ a ∈ d.marks.declared, a.type = other

theorem declares_iff : r.Declares type other ↔ ∃ a ∈ r.declaredOn type, a.type = other := by
  unfold Declares declaredOn
  cases r.isFoundational type
  · cases r.catalogue.classes.get? type <;> simp
  · simp

theorem declaredOn_of_read? {d : ClassDecl} (hf : r.isFoundational type = false)
    (h : r.read? type = some d) : r.declaredOn type = d.marks.declared := by
  obtain ⟨e, he, rfl⟩ := Option.map_eq_some_iff.1 h
  simp [declaredOn, hf, he, complete, completeMarks]

theorem read?_of_declaredOn_ne_nil (r : Reader) (h : r.declaredOn type ≠ []) :
    r.isFoundational type = false ∧ ∃ d, r.read? type = some d := by
  unfold declaredOn at h
  split at h
  · exact absurd rfl h
  next hf =>
    refine ⟨Bool.not_eq_true _ ▸ hf, ?_⟩
    cases hd : r.catalogue.classes.get? type with
    | none => rw [hd] at h; exact absurd rfl h
    | some d => exact ⟨r.complete d, by simp [read?, hd]⟩

theorem inherited_of_read? {c : ClassDecl} (h : r.read? type = some c) :
    c.marks.inherited = r.inheritedFrom c.marks.declared := by
  obtain ⟨d, -, rfl⟩ := Option.map_eq_some_iff.1 h
  rfl

/-- Everything that is found is declared on a type that is reached from one to be gone through. -/
theorem Gathers.sound (h : r.Gathers met queue found) (ha : a ∈ found) :
    ∃ start ∈ queue, ∃ type, ReflTransGen r.Declares start type ∧ a ∈ r.declaredOn type := by
  induction h with
  | done => cases ha
  | @next met queue type found _ ih =>
    rcases List.mem_append.1 ha with ha | ha
    · exact ⟨type, List.mem_cons_self, type, .refl, ha⟩
    · obtain ⟨start, hs, last, hreach, ha⟩ := ih ha
      rcases List.mem_append.1 hs with hs | hs
      · exact ⟨start, List.mem_cons_of_mem _ hs, last, hreach, ha⟩
      · -- a type met just now is declared on the one that was gone through
        obtain ⟨-, hdeclared⟩ := mem_freshTypes.1 hs
        exact ⟨type, List.mem_cons_self, last, .head (declares_iff.2 hdeclared) hreach, ha⟩

/-- What the types met lead to has been met in the end, and everything declared on it is found,
unless it was gone through before. -/
theorem Gathers.complete (gone : List String) (h : r.Gathers met queue found)
    (hmet : ∀ type ∈ met, type ∈ queue ∨ type ∈ gone)
    (hgone : ∀ type ∈ gone, ∀ other, r.Declares type other → other ∈ met) :
    ∃ all : List String, met ⊆ all ∧
      (∀ type ∈ all, ∀ other, r.Declares type other → other ∈ all) ∧
      ∀ type ∈ all, type ∉ gone → r.declaredOn type ⊆ found := by
  induction h generalizing gone with
  | done met =>
    have hall (type : String) (ht : type ∈ met) : type ∈ gone :=
      (hmet type ht).resolve_left List.not_mem_nil
    exact ⟨met, List.Subset.refl _, fun type ht => hgone type (hall type ht),
      fun type ht hn => absurd (hall type ht) hn⟩
  | @next met queue type found _ ih =>
    have hmet' : ∀ other ∈ freshTypes met (r.declaredOn type) ++ met,
        other ∈ queue ++ freshTypes met (r.declaredOn type) ∨ other ∈ type :: gone := by
      intro other ho
      rcases List.mem_append.1 ho with ho | ho
      · exact .inl (List.mem_append_right _ ho)
      · rcases hmet other ho with ho | ho
        · rcases List.mem_cons.1 ho with rfl | ho
          · exact .inr List.mem_cons_self
          · exact .inl (List.mem_append_left _ ho)
        · exact .inr (List.mem_cons_of_mem _ ho)
    have hgone' : ∀ other ∈ type :: gone, ∀ next, r.Declares other next →
        next ∈ freshTypes met (r.declaredOn type) ++ met := by
      intro other ho next hn
      by_cases hm : next ∈ met
      · exact List.mem_append_right _ hm
      · rcases List.mem_cons.1 ho with rfl | ho
        · exact List.mem_append_left _ (mem_freshTypes.2 ⟨hm, declares_iff.1 hn⟩)
        · exact absurd (hgone other ho next hn) hm
    obtain ⟨all, hsub, hclosed, hfound⟩ := ih (type :: gone) hmet' hgone'
    refine ⟨all, List.Subset.trans (List.subset_append_right _ _) hsub, hclosed, ?_⟩
    intro other ho hn
    by_cases he : other = type
    · exact he ▸ List.subset_append_left _ _
    · have hother : other ∉ type :: gone := by simp [he, hn]
      exact List.Subset.trans (hfound other ho hother) (List.subset_append_right _ _)

/-- An annotation is inherited if it is declared on a type that is reached from those of the
declared annotations. -/
theorem mem_inheritedFrom {declared : List Annotation} :
    a ∈ r.inheritedFrom declared ↔
      ∃ b ∈ declared, ∃ type, ReflTransGen r.Declares b.type type ∧ a ∈ r.declaredOn type := by
  constructor
  · intro ha
    obtain ⟨start, hs, type, hreach, ha⟩ := (gathers_inheritedFrom r declared).sound ha
    obtain ⟨b, hb, rfl⟩ := List.mem_map.1 hs
    exact ⟨b, hb, type, hreach, ha⟩
  · rintro ⟨b, hb, type, hreach, ha⟩
    obtain ⟨all, hsub, hclosed, hfound⟩ :=
      (gathers_inheritedFrom r declared).complete [] (fun _ => .inl) nofun
    have hall : type ∈ all := by
      clear ha
      induction hreach with
      | refl => exact hsub (List.mem_map_of_mem hb)
      | tail _ hstep ih => exact hclosed _ ih _ hstep
    exact hfound type hall List.not_mem_nil ha

/-! ## The annotations of a class that is read -/

/-- The marks of something that is read, given those that it declares: the search for the inherited
annotations comes to its end, and there is an annotation of a type exactly if it is declared or if
types lead from a declared one to it, each declared on the one before, that are all known and not
foundational but for the last. -/
structure Completes (r : Reader) (declaring read : Marks) : Prop where
  declared : read.declared = declaring.declared
  gathers : r.Gathers (declaring.declared.map (·.type)) (declaring.declared.map (·.type))
    read.inherited
  has_iff (type : String) : read.has type = true ↔
    (∃ a ∈ declaring.declared, a.type = type) ∨
      ∃ a ∈ declaring.declared, TransGen r.Declares a.type type

theorem completes_completeMarks (r : Reader) (m : Marks) : r.Completes m (r.completeMarks m) where
  declared := rfl
  gathers := gathers_inheritedFrom r m.declared
  has_iff type := by
    rw [Marks.has_iff]
    show (∃ a ∈ m.declared ++ r.inheritedFrom m.declared, a.type = type) ↔ _
    simp only [List.mem_append, or_and_right, exists_or]
    apply or_congr_right
    constructor
    · rintro ⟨a, ha, rfl⟩
      obtain ⟨b, hb, last, hreach, ha⟩ := mem_inheritedFrom.1 ha
      exact ⟨b, hb, .tail' hreach (declares_iff.2 ⟨a, ha, rfl⟩)⟩
    · rintro ⟨b, hb, hreach⟩
      obtain ⟨last, hbefore, hstep⟩ := TransGen.tail'_iff.1 hreach
      obtain ⟨a, ha, hlast⟩ := declares_iff.1 hstep
      exact ⟨a, mem_inheritedFrom.2 ⟨b, hb, last, hbefore, ha⟩, hlast⟩

/-- A class as it is read, given its declaration: it and each of its methods have their annotations
completed. -/
structure ReadsAs (r : Reader) (declaration c : ClassDecl) : Prop where
  marks : r.Completes declaration.marks c.marks
  length_methods : c.methods.length = declaration.methods.length
  methods (i : Nat) (m : MethodDecl) : declaration.methods[i]? = some m →
    ∃ m' : MethodDecl, c.methods[i]? = some m' ∧ m'.name = m.name ∧ r.Completes m.marks m'.marks

/-- Every known class can be read, and it and each of its methods has the annotations that it
declares and those that they lead to. -/
theorem read_completes (r : Reader) {name : String} {d : ClassDecl}
    (h : r.catalogue.classes.get? name = some d) : ∃ c, r.read name = .ok c ∧ r.ReadsAs d c := by
  have hread : r.read name = .ok (r.complete d) := by
    unfold read read?
    rw [h]
    rfl
  refine ⟨r.complete d, hread, completes_completeMarks r d.marks, List.length_map _, ?_⟩
  intro i m hm
  refine ⟨{ m with marks := r.completeMarks m.marks }, ?_, rfl, completes_completeMarks r m.marks⟩
  simp [complete, hm]

/-- Annotation types that declare each other and themselves, an unknown one and a foundational one
that is known, on a class and on a method of it. -/
def circles : Reader where
  catalogue :=
    .ofClasses
      [annotationType "Here" [{ type := "There" }],
        annotationType "There" [{ type := "Here" }, { type := "Own" }, { type := "java.Base" }],
        annotationType "Own" [{ type := "Own" }, { type := "Unknown" }],
        annotationType "java.Base" [{ type := "Hidden" }],
        { name := "Target"
          marks := { declared := [{ type := "Here" }] }
          methods := [{ name := "make", marks := { declared := [{ type := "Own" }] } }] }]
      Table.empty
  foundational := ["java."]

theorem read_completes_circles : ∃ d c,
    circles.catalogue.classes.get? "Target" = some d ∧ circles.read "Target" = .ok c ∧
    c.marks.inherited.map (·.type) = ["There", "Here", "Own", "java.Base", "Own", "Unknown"] ∧
    circles.ReadsAs d c := by
  obtain ⟨d, hd⟩ : ∃ d, circles.catalogue.classes.get? "Target" = some d :=
    Option.isSome_iff_exists.1 (by decide +kernel)
  obtain ⟨c, hc, hreads⟩ := read_completes circles hd
  have hfound : (circles.read "Target").toOption.map (fun c => c.marks.inherited.map (·.type)) =
      some ["There", "Here", "Own", "java.Base", "Own", "Unknown"] := by decide +kernel
  rw [hc] at hfound
  exact ⟨d, c, hd, hc, Option.some.inj hfound, hreads⟩

end Reader

end Wiring
