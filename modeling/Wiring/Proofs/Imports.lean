import Mathlib.Data.List.Chain
import Mathlib.Logic.Relation
import Wiring.Proofs.Declared
import Wiring.Walk

/-!
# Classes that only import

Imports relate the known classes. Where the classes reached from roots by imports carry no other
directive, and import neither unknown classes nor plugin classes, a walk follows this relation and
does nothing else.
-/

open Relation (ReflTransGen TransGen)

namespace Wiring

/-- A class that carries no directive but imports: no relatives that would be gone through, and none
of the annotations that a walk acts on otherwise. -/
structure ClassDecl.OnlyImports (c : ClassDecl) : Prop where
  members : c.memberClasses = []
  superclass : c.superclass? = none
  interfaces : c.interfaces = []
  conditional : c.marks.has AnnotationType.conditional = false
  componentScan : c.marks.has AnnotationType.componentScan = false
  propertySource : c.marks.has AnnotationType.propertySource = false
  importResource : c.marks.has AnnotationType.importResource = false

namespace Context

variable (ctx : Context)

/-- The classes that a known class imports. -/
def importsOf (name : String) : List String :=
  match ctx.reader.read? name with
  | some c => Walk.collectImports ctx.reader c
  | none => []

/-- The one class imports the other. -/
def Imports (importing imported : String) : Prop := imported ∈ ctx.importsOf importing

/-- The class is a root, or imports lead from a root to it. -/
def Reaches (roots : List (String × String)) (name : String) : Prop :=
  ∃ root ∈ roots, ReflTransGen ctx.Imports root.2 name

/-- From these roots imports lead only to known classes that are no plugin classes, and none of the
classes reached carries any other directive. -/
structure OnlyImports (roots : List (String × String)) : Prop where
  plain : ∀ name c, ctx.Reaches roots name → ctx.reader.read? name = some c → c.OnlyImports
  known : ∀ name imported, ctx.Reaches roots name → ctx.Imports name imported →
    ∃ c, ctx.reader.read? imported = some c
  noPlugin : ∀ name imported, ctx.Reaches roots name → ctx.Imports name imported →
    ctx.plugins.capability? imported = none

variable {ctx} {roots : List (String × String)}

theorem importsOf_eq {name : String} {c : ClassDecl} (h : ctx.reader.read? name = some c) :
    ctx.importsOf name = Walk.collectImports ctx.reader c := by
  unfold importsOf
  rw [h]

theorem Reaches.tail {name imported : String} (h : ctx.Reaches roots name)
    (hi : ctx.Imports name imported) : ctx.Reaches roots imported := by
  obtain ⟨root, hm, hr⟩ := h
  exact ⟨root, hm, hr.tail hi⟩

/-! ## Paths of imports -/

/-- A path of imports from a root, from the innermost class to the outermost. -/
def ImportPath (ctx : Context) (roots : List (String × String)) (path : List String) : Prop :=
  path.IsChain (fun a b => ctx.Imports b a) ∧ ∃ root ∈ roots, path.getLast? = some root.2

namespace ImportPath

variable {a b : String} {path : List String}

theorem ofRoot {root : String × String} (h : root ∈ roots) : ImportPath ctx roots [root.2] :=
  ⟨.singleton _, root, h, rfl⟩

theorem cons (h : ImportPath ctx roots (a :: path)) (hi : ctx.Imports a b) :
    ImportPath ctx roots (b :: a :: path) := by
  obtain ⟨hp, root, hr, hl⟩ := h
  exact ⟨.cons_cons hi hp, root, hr, by rw [List.getLast?_cons_cons, hl]⟩

theorem tail (h : ImportPath ctx roots (a :: b :: path)) : ImportPath ctx roots (b :: path) := by
  obtain ⟨hp, root, hr, hl⟩ := h
  exact ⟨hp.tail, root, hr, by rw [← hl, List.getLast?_cons_cons]⟩

theorem reflTransGen (h : ImportPath ctx roots (a :: path)) (hb : b ∈ a :: path) :
    ReflTransGen ctx.Imports b a := by
  induction path generalizing a with
  | nil =>
    rw [List.mem_singleton.1 hb]
  | cons c path ih =>
    rcases List.mem_cons.1 hb with rfl | hb
    · exact .refl
    · exact (ih h.tail hb).tail h.1.rel

theorem transGen (h : ImportPath ctx roots (a :: path)) (hb : b ∈ path) :
    TransGen ctx.Imports b a := by
  cases path with
  | nil => cases hb
  | cons c path => exact .tail' (h.tail.reflTransGen hb) h.1.rel

theorem reaches (h : ImportPath ctx roots (a :: path)) : ctx.Reaches roots a := by
  obtain ⟨-, root, hr, hl⟩ := id h
  exact ⟨root, hr, h.reflTransGen (List.mem_of_getLast? hl)⟩

theorem reaches_of_mem (h : ImportPath ctx roots path) (hb : b ∈ path) : ctx.Reaches roots b := by
  induction path with
  | nil => cases hb
  | cons a path ih =>
    rcases List.mem_cons.1 hb with rfl | hb
    · exact h.reaches
    · cases path with
      | nil => cases hb
      | cons c path => exact ih h.tail hb

theorem subset_classNames (h : ImportPath ctx roots (a :: path)) {c : ClassDecl}
    (ha : ctx.reader.read? a = some c) : a :: path ⊆ ctx.reader.classNames := by
  induction path generalizing a c with
  | nil => exact List.cons_subset.2 ⟨Reader.mem_classNames ha, List.nil_subset _⟩
  | cons b path ih =>
    refine List.cons_subset.2 ⟨Reader.mem_classNames ha, ?_⟩
    have hi : ctx.Imports b a := h.1.rel
    unfold Imports importsOf at hi
    cases hb : ctx.reader.read? b with
    | none => rw [hb] at hi; cases hi
    | some d => exact ih h.tail hb

theorem nodup (h : ImportPath ctx roots path)
    (hacyclic : ∀ name, ctx.Reaches roots name → ¬ TransGen ctx.Imports name name) :
    path.Nodup := by
  induction path with
  | nil => exact .nil
  | cons a path ih =>
    refine List.nodup_cons.2 ⟨fun hm => hacyclic a h.reaches (h.transGen hm), ?_⟩
    cases path with
    | nil => exact .nil
    | cons b path => exact ih h.tail

end ImportPath

/-- Roots lead only to names in a set that holds them and is closed under imports. -/
theorem Reaches.mem_of_closed {names : List String} (hroots : ∀ root ∈ roots, root.2 ∈ names)
    (h : ∀ name ∈ names, ∀ imported ∈ ctx.importsOf name, imported ∈ names) {name : String}
    (hr : ctx.Reaches roots name) : name ∈ names := by
  obtain ⟨root, hm, hi⟩ := hr
  induction hi with
  | refl => exact hroots root hm
  | tail _ hab ih => exact h _ ih _ hab

/-- Imports lead in no circle if every class stands behind those that it imports. -/
theorem not_circle_of_order (names : List String) (hroots : ∀ root ∈ roots, root.2 ∈ names)
    (h : ∀ name ∈ names, ∀ imported ∈ ctx.importsOf name,
      imported ∈ names ∧ names.idxOf imported < names.idxOf name) :
    ∀ name, ctx.Reaches roots name → ¬ TransGen ctx.Imports name name := by
  intro name hr hcircle
  have hname := hr.mem_of_closed hroots fun n hn i hi => (h n hn i hi).1
  have hbefore : ∀ b, TransGen ctx.Imports name b →
      b ∈ names ∧ names.idxOf b < names.idxOf name := by
    intro b hb
    induction hb with
    | single hi => exact h name hname _ hi
    | tail _ hi ih =>
      obtain ⟨hm, hlt⟩ := h _ ih.1 _ hi
      exact ⟨hm, hlt.trans ih.2⟩
  exact Nat.lt_irrefl _ (hbefore name hcircle).2

theorem OnlyImports.of_closed (names : List String) (hroots : ∀ root ∈ roots, root.2 ∈ names)
    (h : ∀ name ∈ names, (∀ c ∈ ctx.reader.read? name, c.OnlyImports) ∧
      ∀ imported ∈ ctx.importsOf name, imported ∈ names ∧
        (ctx.reader.read? imported).isSome ∧ ctx.plugins.capability? imported = none) :
    ctx.OnlyImports roots := by
  have hreach : ∀ name, ctx.Reaches roots name → name ∈ names := fun name hr =>
    hr.mem_of_closed hroots fun n hn i hi => ((h n hn).2 i hi).1
  constructor
  · exact fun name c hn hc => (h name (hreach name hn)).1 c hc
  · exact fun name imported hn hi =>
      Option.isSome_iff_exists.1 ((h name (hreach name hn)).2 imported hi).2.1
  · exact fun name imported hn hi => ((h name (hreach name hn)).2 imported hi).2.2

end Context

/-- Whether a class carries no directive but imports can be read off it. -/
instance (c : ClassDecl) : Decidable c.OnlyImports :=
  decidable_of_iff
    (c.memberClasses = [] ∧ c.superclass? = none ∧ c.interfaces = [] ∧
      c.marks.has AnnotationType.conditional = false ∧
      c.marks.has AnnotationType.componentScan = false ∧
      c.marks.has AnnotationType.propertySource = false ∧
      c.marks.has AnnotationType.importResource = false)
    ⟨fun ⟨h₁, h₂, h₃, h₄, h₅, h₆, h₇⟩ => ⟨h₁, h₂, h₃, h₄, h₅, h₆, h₇⟩,
      fun ⟨h₁, h₂, h₃, h₄, h₅, h₆, h₇⟩ => ⟨h₁, h₂, h₃, h₄, h₅, h₆, h₇⟩⟩

end Wiring
