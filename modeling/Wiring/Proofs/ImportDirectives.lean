import Wiring.Proofs.Declared
import Wiring.Proofs.Marks
import Wiring.Proofs.Walk.Stored
import Wiring.Walk.Step

/-!
# Import directives

A class imports what its own directives name and what those of its annotation types name, and of
their annotation types in turn. The walk finds these names by going down through annotation types
one by one; reading a class gathers inherited annotations in the order in which types are met. The
two come to the same names, as long as the type of the directives declares no annotations itself.
-/

open Relation (ReflTransGen)

namespace Wiring

/-- The classes that the import directives declared on a class name. -/
def ClassDecl.importedNames (c : ClassDecl) : List String :=
  (c.marks.declaredOfType AnnotationType.importing).flatMap (·.texts "value")

theorem ClassDecl.mem_importedNames {c : ClassDecl} {x : String} :
    x ∈ c.importedNames ↔
      ∃ a ∈ c.marks.declared, a.type = AnnotationType.importing ∧ x ∈ a.texts "value" := by
  simp [importedNames, Marks.declaredOfType, and_assoc]

namespace Reader

variable {r : Reader} {c d : ClassDecl}

/-- The declarations of a class's annotation types, as far as imports are looked for on them. -/
def lookedInto (r : Reader) (c : ClassDecl) : List ClassDecl :=
  c.marks.declared.filterMap fun a =>
    if a.type == AnnotationType.importing || r.isFoundational a.type then none else r.read? a.type

/-- The second class is the declaration of an annotation type of the first, and imports are looked
for on it. -/
def LooksInto (r : Reader) (c d : ClassDecl) : Prop := d ∈ r.lookedInto c

theorem looksInto_iff :
    r.LooksInto c d ↔ ∃ a ∈ c.marks.declared, a.type ≠ AnnotationType.importing ∧
      r.isFoundational a.type = false ∧ r.read? a.type = some d := by
  unfold LooksInto lookedInto
  rw [List.mem_filterMap]
  refine exists_congr fun a => and_congr_right fun _ => ?_
  by_cases hi : a.type = AnnotationType.importing
  · simp [hi]
  · cases hf : r.isFoundational a.type <;> simp [hi]

theorem read?_of_looksInto (hr : r.catalogue.WellNamed) (h : r.LooksInto c d) :
    r.read? d.name = some d := by
  obtain ⟨a, -, -, -, hread⟩ := looksInto_iff.1 h
  exact read?_self hr hread

end Reader

namespace Walk

variable {r : Reader} {c d : ClassDecl} {cs : List ClassDecl} {g g' : Gathered}

/-! ## The search of directives -/

/-- The search of import directives on some classes and on what they lead to, one after the
other. -/
inductive Collects (r : Reader) : List ClassDecl → Gathered → Gathered → Prop
  | done (g : Gathered) : Collects r [] g g
  | again {c : ClassDecl} {cs : List ClassDecl} {g g' : Gathered} : c.name ∈ g.met →
    Collects r cs g g' → Collects r (c :: cs) g g'
  | first {c : ClassDecl} {cs : List ClassDecl} {g below g' : Gathered} : c.name ∉ g.met →
    Collects r (r.lookedInto c) { g with met := c.name :: g.met } below →
    Collects r cs
      { below with names := ConfigurationClass.mergeNames below.names c.importedNames } g' →
    Collects r (c :: cs) g g'

theorem foldl_lookedInto (r : Reader) (c : ClassDecl) (f : Gathered → ClassDecl → Gathered)
    (g : Gathered) :
    (r.lookedInto c).foldl f g =
      c.marks.declared.foldl (fun g a =>
        if a.type == AnnotationType.importing || r.isFoundational a.type then g
        else
          match r.read? a.type with
          | some d => f g d
          | none => g) g := by
  unfold Reader.lookedInto
  rw [List.foldl_filterMap]
  congr 1
  funext g a
  by_cases h : (a.type == AnnotationType.importing || r.isFoundational a.type) = true
  · rw [if_pos h, if_pos h]
  · rw [if_neg h, if_neg h]
    cases r.read? a.type <;> rfl

theorem gatherImports_succ (r : Reader) (bound : Nat) (c : ClassDecl) (g : Gathered) :
    gatherImports r (bound + 1) c g =
      if c.name ∈ g.met then g
      else
        let below := (r.lookedInto c).foldl (fun g d => gatherImports r bound d g)
          { g with met := c.name :: g.met }
        { below with names := ConfigurationClass.mergeNames below.names c.importedNames } := by
  simp only [foldl_lookedInto]
  rfl

theorem Collects.subset_met (h : Collects r cs g g') : g.met ⊆ g'.met := by
  induction h with
  | done => exact List.Subset.refl _
  | again _ _ ih => exact ih
  | first _ _ _ ih ih' =>
    exact List.Subset.trans (List.subset_cons_self _ _) (List.Subset.trans ih ih')

theorem Collects.nodup (h : Collects r cs g g') (hn : g.names.Nodup) : g'.names.Nodup := by
  induction h with
  | done => exact hn
  | again _ _ ih => exact ih hn
  | first _ _ _ ih ih' => exact ih' (ConfigurationClass.nodup_mergeNames _ (ih hn))

/-- With room for the classes that have not been met, the search comes to its end. -/
theorem collects_foldl (hr : r.catalogue.WellNamed) (bound : Nat)
    (hcs : ∀ c ∈ cs, r.read? c.name = some c) (hb : unmet r.classNames g.met < bound) :
    Collects r cs g (cs.foldl (fun g c => gatherImports r bound c g) g) := by
  induction bound generalizing cs g with
  | zero => omega
  | succ bound ih =>
    induction cs generalizing g with
    | nil => exact .done g
    | cons c cs ihcs =>
      have hrest : ∀ c ∈ cs, r.read? c.name = some c := fun d hd =>
        hcs d (List.mem_cons_of_mem _ hd)
      rw [List.foldl_cons, gatherImports_succ]
      by_cases hm : c.name ∈ g.met
      · rw [if_pos hm]
        exact .again hm (ihcs hrest hb)
      · rw [if_neg hm]
        have hlt := unmet_cons_lt (Reader.mem_classNames (hcs c List.mem_cons_self)) hm
        have hbelow : Collects r (r.lookedInto c) { g with met := c.name :: g.met } _ :=
          ih (fun d hd => Reader.read?_of_looksInto hr hd)
            (by show unmet _ (c.name :: g.met) < _; omega)
        refine .first hm hbelow (ihcs hrest (Nat.lt_of_le_of_lt ?_ hb))
        exact unmet_anti r.classNames fun x hx => hbelow.subset_met (List.mem_cons_of_mem _ hx)

theorem collects_collectImports (hr : r.catalogue.WellNamed) (hc : r.read? c.name = some c) :
    ∃ g, Collects r [c] {} g ∧ g.names = collectImports r c := by
  refine ⟨_, collects_foldl hr (r.catalogue.classes.size + 2) (by simpa using hc) ?_, rfl⟩
  have hle := unmet_le r.classNames []
  have hsize : r.classNames.length = r.catalogue.classes.size := List.length_map _
  show unmet _ [] < _
  omega

/-! ## What the search finds -/

/-- What a search has made of the names and of the classes met: the classes that were met lead to
classes met only, and their directives are among those found. -/
structure Explored (r : Reader) (cs : List ClassDecl) (g g' : Gathered) : Prop where
  met : g.met ⊆ g'.met
  names : g.names ⊆ g'.names
  listed : ∀ c ∈ cs, c.name ∈ g'.met
  closed : ∀ d, r.read? d.name = some d → d.name ∈ g'.met → d.name ∉ g.met →
    (∀ e, r.LooksInto d e → e.name ∈ g'.met) ∧ d.importedNames ⊆ g'.names
  named : ∀ x ∈ g'.names, x ∈ g.names ∨
    ∃ c ∈ cs, ∃ d, ReflTransGen r.LooksInto c d ∧ x ∈ d.importedNames

/-- A class that is met for the first time, then the others. -/
theorem Explored.first {below : Gathered} (hc : r.read? c.name = some c)
    (h : Explored r (r.lookedInto c) { g with met := c.name :: g.met } below)
    (h' : Explored r cs
      { below with names := ConfigurationClass.mergeNames below.names c.importedNames } g') :
    Explored r (c :: cs) g g' := by
  have hmerged : ∀ x, x ∈ below.names ∨ x ∈ c.importedNames → x ∈ g'.names := fun x hx =>
    h'.names (ConfigurationClass.mem_mergeNames.2 hx)
  constructor
  · exact List.Subset.trans (List.Subset.trans (List.subset_cons_self _ _) h.met) h'.met
  · exact fun x hx => hmerged x (.inl (h.names hx))
  · intro d hd
    rcases List.mem_cons.1 hd with rfl | hd
    · exact h'.met (h.met List.mem_cons_self)
    · exact h'.listed d hd
  · intro d hread hd hnew
    by_cases hbelow : d.name ∈ below.met
    · by_cases he : d.name = c.name
      · obtain rfl : d = c := Option.some.inj (hread.symm.trans (he ▸ hc))
        exact ⟨fun e hde => h'.met (h.listed e hde), fun x hx => hmerged x (.inr hx)⟩
      · have hnew' : d.name ∉ c.name :: g.met := by simp [he, hnew]
        obtain ⟨hmet, hnames⟩ := h.closed d hread hbelow hnew'
        exact ⟨fun e hde => h'.met (hmet e hde), fun x hx => hmerged x (.inl (hnames hx))⟩
    · exact h'.closed d hread hd hbelow
  · intro x hx
    rcases h'.named x hx with hx | ⟨d, hd, e, hreach, hx⟩
    · rcases ConfigurationClass.mem_mergeNames.1 hx with hx | hx
      · rcases h.named x hx with hx | ⟨d, hd, e, hreach, hx⟩
        · exact .inl hx
        · exact .inr ⟨c, List.mem_cons_self, e, .head hd hreach, hx⟩
      · exact .inr ⟨c, List.mem_cons_self, c, .refl, hx⟩
    · exact .inr ⟨d, List.mem_cons_of_mem _ hd, e, hreach, hx⟩

theorem Collects.explored (hr : r.catalogue.WellNamed) (h : Collects r cs g g')
    (hcs : ∀ c ∈ cs, r.read? c.name = some c) : Explored r cs g g' := by
  induction h with
  | done g =>
    exact ⟨List.Subset.refl _, List.Subset.refl _, nofun, fun _ _ hd hn => absurd hd hn,
      fun _ hx => .inl hx⟩
  | @again c cs g g' hm _ ih =>
    have hrest := ih fun d hd => hcs d (List.mem_cons_of_mem _ hd)
    refine ⟨hrest.met, hrest.names, ?_, hrest.closed, ?_⟩
    · intro d hd
      rcases List.mem_cons.1 hd with rfl | hd
      · exact hrest.met hm
      · exact hrest.listed d hd
    · intro x hx
      refine (hrest.named x hx).imp_right ?_
      rintro ⟨d, hd, hreach⟩
      exact ⟨d, List.mem_cons_of_mem _ hd, hreach⟩
  | first _ _ _ ih ih' =>
    exact .first (hcs _ List.mem_cons_self) (ih fun d hd => Reader.read?_of_looksInto hr hd)
      (ih' fun d hd => hcs d (List.mem_cons_of_mem _ hd))

/-- A class imports what the directives on it and on what it leads to name. -/
theorem mem_collectImports (hr : r.catalogue.WellNamed) (hc : r.read? c.name = some c)
    {x : String} :
    x ∈ collectImports r c ↔ ∃ d, ReflTransGen r.LooksInto c d ∧ x ∈ d.importedNames := by
  obtain ⟨g, hg, hnames⟩ := collects_collectImports hr hc
  have hexplored := hg.explored hr (by simpa using hc)
  rw [← hnames]
  constructor
  · intro hx
    rcases hexplored.named x hx with hx | ⟨d, hd, hreach⟩
    · cases hx
    · rw [List.mem_singleton.1 hd] at hreach
      exact hreach
  · rintro ⟨d, hreach, hx⟩
    have hmet : r.read? d.name = some d ∧ d.name ∈ g.met := by
      clear hx
      induction hreach with
      | refl => exact ⟨hc, hexplored.listed c List.mem_cons_self⟩
      | tail _ hstep ih =>
        have hclosed := hexplored.closed _ ih.1 ih.2 List.not_mem_nil
        exact ⟨Reader.read?_of_looksInto hr hstep, hclosed.1 _ hstep⟩
    exact (hexplored.closed d hmet.1 hmet.2 List.not_mem_nil).2 hx

/-! ## The same names as by the annotations -/

/-- A type that has annotations declared on it, and that is reached from the type of an annotation
of a class, is looked into from that class. -/
theorem exists_looksInto {a : Annotation} {type : String}
    (himporting : r.declaredOn AnnotationType.importing = []) (ha : a ∈ c.marks.declared)
    (hreach : ReflTransGen r.Declares a.type type) (hne : r.declaredOn type ≠ []) :
    ∃ d, ReflTransGen r.LooksInto c d ∧ d.marks.declared = r.declaredOn type := by
  have step {e : ClassDecl} {b : Annotation} (he : ReflTransGen r.LooksInto c e)
      (hb : b ∈ e.marks.declared) (hne : r.declaredOn b.type ≠ []) :
      ∃ d, ReflTransGen r.LooksInto c d ∧ d.marks.declared = r.declaredOn b.type := by
    obtain ⟨hf, d, hread⟩ := r.read?_of_declaredOn_ne_nil hne
    have hni : b.type ≠ AnnotationType.importing := fun hi => hne (hi ▸ himporting)
    exact ⟨d, he.tail (Reader.looksInto_iff.2 ⟨b, hb, hni, hf, hread⟩),
      (Reader.declaredOn_of_read? hf hread).symm⟩
  induction hreach with
  | refl => exact step .refl ha hne
  | tail _ hstep ih =>
    obtain ⟨b, hb, rfl⟩ := Reader.declares_iff.1 hstep
    obtain ⟨e, he, hdeclared⟩ := ih (List.ne_nil_of_mem hb)
    exact step he (hdeclared ▸ hb) hne

/-- What a class looks into is the class itself, or what is declared on it is inherited. -/
theorem declared_subset_of_looksInto (hr : r.catalogue.WellNamed)
    (hreach : ReflTransGen r.LooksInto c d) :
    d = c ∨ d.marks.declared ⊆ r.inheritedFrom c.marks.declared := by
  suffices d = c ∨ r.declaredOn d.name = d.marks.declared ∧
      ∃ a ∈ c.marks.declared, ReflTransGen r.Declares a.type d.name by
    rcases this with he | ⟨hdeclared, a, ha, hreach⟩
    · exact .inl he
    · exact .inr fun b hb => Reader.mem_inheritedFrom.2 ⟨a, ha, d.name, hreach, hdeclared ▸ hb⟩
  induction hreach with
  | refl => exact .inl rfl
  | @tail e d _ hstep ih =>
    obtain ⟨b, hb, -, hf, hread⟩ := Reader.looksInto_iff.1 hstep
    rw [Reader.name_of_read? hr hread]
    refine .inr ⟨Reader.declaredOn_of_read? hf hread, ?_⟩
    rcases ih with rfl | ⟨hdeclared, a, ha, hreach⟩
    · exact ⟨b, hb, .refl⟩
    · exact ⟨a, ha, hreach.tail (Reader.declares_iff.2 ⟨b, hdeclared ▸ hb, rfl⟩)⟩

/-- Where the annotation type of import directives declares no annotations itself, the search for
the directives on a class that was read comes to its end, and finds each of the names once that the
directives among the class's annotations, declared and inherited, name. -/
theorem collectImports_agrees (hr : r.catalogue.WellNamed)
    (himporting : ∀ d, r.catalogue.classes.get? AnnotationType.importing = some d →
      d.marks.declared = [])
    {name : String} (hc : r.read? name = some c) :
    (∃ g, Collects r [c] {} g ∧ g.names = collectImports r c) ∧ (collectImports r c).Nodup ∧
      ∀ x, x ∈ collectImports r c ↔
        ∃ a ∈ c.marks.ofType AnnotationType.importing, x ∈ a.texts "value" := by
  have hself := Reader.read?_self hr hc
  obtain ⟨g, hg, hnames⟩ := collects_collectImports hr hself
  refine ⟨⟨g, hg, hnames⟩, hnames ▸ hg.nodup .nil, fun x => ?_⟩
  rw [mem_collectImports hr hself]
  simp only [Marks.mem_ofType, Marks.all, List.mem_append, Reader.inherited_of_read? hc]
  constructor
  · rintro ⟨d, hreach, hx⟩
    obtain ⟨a, ha, htype, hx⟩ := ClassDecl.mem_importedNames.1 hx
    rcases declared_subset_of_looksInto hr hreach with rfl | hsub
    · exact ⟨a, ⟨.inl ha, htype⟩, hx⟩
    · exact ⟨a, ⟨.inr (hsub ha), htype⟩, hx⟩
  · rintro ⟨a, ⟨ha | ha, htype⟩, hx⟩
    · exact ⟨c, .refl, ClassDecl.mem_importedNames.2 ⟨a, ha, htype, hx⟩⟩
    · obtain ⟨b, hb, type, hreach, ha⟩ := Reader.mem_inheritedFrom.1 ha
      have hnothing : r.declaredOn AnnotationType.importing = [] := by
        unfold Reader.declaredOn
        cases hd : r.catalogue.classes.get? AnnotationType.importing with
        | none => simp
        | some d => simp [himporting d hd]
      obtain ⟨d, hlooks, hdeclared⟩ :=
        exists_looksInto hnothing hb hreach (List.ne_nil_of_mem ha)
      exact ⟨d, hlooks, ClassDecl.mem_importedNames.2 ⟨a, hdeclared ▸ ha, htype, hx⟩⟩

/-- A class and annotation types that lead to each other, one of them foundational and one unknown,
with import directives on the way. -/
def directives : Reader where
  catalogue :=
    .ofClasses
      [{ name := "App"
         marks :=
          { declared :=
              [{ type := "Enable" }, .naming AnnotationType.importing ["Log", "Own"],
                { type := "Unknown" }, { type := "java.Base" }] } },
        annotationType "Enable"
          [.naming AnnotationType.importing ["Web", "Log"], { type := "Deep" }],
        annotationType "Deep" [.naming AnnotationType.importing ["Store"], { type := "App" }],
        annotationType "java.Base" [.naming AnnotationType.importing ["Hidden"]]]
      Table.empty
  foundational := ["java."]

theorem collectImports_agrees_directives : ∃ c,
    directives.catalogue.WellNamed ∧
    (∀ d, directives.catalogue.classes.get? AnnotationType.importing = some d →
      d.marks.declared = []) ∧
    directives.read? "App" = some c ∧
    collectImports directives c = ["Store", "Web", "Log", "Own"] ∧
    (∃ g, Collects directives [c] {} g ∧ g.names = collectImports directives c) ∧
    (collectImports directives c).Nodup ∧
    ∀ x, x ∈ collectImports directives c ↔
      ∃ a ∈ c.marks.ofType AnnotationType.importing, x ∈ a.texts "value" := by
  have hr : directives.catalogue.WellNamed := by
    simp only [directives]
    exact Catalogue.wellNamed_ofClasses _ _
  have himporting : ∀ d, directives.catalogue.classes.get? AnnotationType.importing = some d →
      d.marks.declared = [] := by
    have hnothing : (directives.catalogue.classes.get? AnnotationType.importing).all
        (·.marks.declared == []) = true := by decide +kernel
    intro d hd
    rw [hd] at hnothing
    exact eq_of_beq hnothing
  have hfound : (directives.read? "App").map (collectImports directives) =
      some ["Store", "Web", "Log", "Own"] := by decide +kernel
  obtain ⟨c, hc, hnames⟩ := Option.map_eq_some_iff.1 hfound
  exact ⟨c, hr, himporting, hc, hnames, collectImports_agrees hr himporting hc⟩

end Walk

end Wiring
