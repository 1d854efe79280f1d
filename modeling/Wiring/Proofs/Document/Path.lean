import Wiring.Document.Flatten

/-!
# Paths into documents

A path leads through fields and list items to a part of a document. It is written with a point in
front of each name but the first, and with positions in brackets. If no name is empty or has a point
or an opening bracket in it, a written path can be read in one way only.
-/

namespace Wiring.Document

/-- A step from a value to one of its parts. -/
inductive PathStep where
  | field (name : String)
  | item (index : Nat)
deriving DecidableEq, Repr

/-- Steps as they are written behind a path. -/
def stepsText : List PathStep → String
  | [] => ""
  | .field name :: rest => "." ++ name ++ stepsText rest
  | .item index :: rest => "[" ++ toString index ++ "]" ++ stepsText rest

/-- A path as it is written. -/
def pathText : List PathStep → String
  | .field name :: rest => name ++ stepsText rest
  | steps => stepsText steps

/-- A name that ends where a path goes on: it is not empty, and has neither a point nor an opening
bracket. -/
def IsPlain (name : String) : Prop := name ≠ "" ∧ '.' ∉ name.toList ∧ '[' ∉ name.toList

instance (name : String) : Decidable (IsPlain name) := inferInstanceAs (Decidable (_ ∧ _ ∧ _))

/-- A path through plain names. -/
def PlainPath (steps : List PathStep) : Prop := ∀ name, .field name ∈ steps → IsPlain name

/-! ## Longer paths -/

variable {steps steps' : List PathStep} {name : String}

theorem PlainPath.concat (h : PlainPath steps) {step : PathStep}
    (hstep : ∀ name, step = .field name → IsPlain name) : PlainPath (steps ++ [step]) := by
  intro name hname
  rcases List.mem_append.1 hname with hname | hname
  · exact h name hname
  · exact hstep name (List.mem_singleton.1 hname).symm

theorem stepsText_append (steps steps' : List PathStep) :
    stepsText (steps ++ steps') = stepsText steps ++ stepsText steps' := by
  induction steps with
  | nil => simp [stepsText]
  | cons step steps ih => cases step <;> simp [stepsText, ih, String.append_assoc]

theorem pathText_append (h : steps ≠ []) (steps' : List PathStep) :
    pathText (steps ++ steps') = pathText steps ++ stepsText steps' := by
  cases steps with
  | nil => exact absurd rfl h
  | cons step steps =>
    cases step with
    | field name => simp [pathText, stepsText_append, String.append_assoc]
    | item index => exact stepsText_append (.item index :: steps) steps'

/-- Only the path that goes nowhere is written as nothing. -/
theorem pathText_eq_empty_iff (h : PlainPath steps) : pathText steps = "" ↔ steps = [] := by
  constructor
  · intro he
    cases steps with
    | nil => rfl
    | cons step steps =>
      cases step with
      | field name =>
        have hname := (h name List.mem_cons_self).1
        simp [pathText, hname] at he
      | item index => simp [pathText, stepsText] at he
  · rintro rfl
    rfl

theorem fieldPath_pathText (h : PlainPath steps) (name : String) :
    fieldPath (pathText steps) name = pathText (steps ++ [.field name]) := by
  have hfield : fieldPath (pathText steps) name =
      if (pathText steps).isEmpty then name else pathText steps ++ "." ++ name := rfl
  rw [hfield]
  by_cases hs : steps = []
  · subst hs
    simp [pathText, stepsText]
  · have hne : (pathText steps).isEmpty = false := by
      simpa using mt (pathText_eq_empty_iff h).1 hs
    rw [hne, pathText_append hs]
    simp [stepsText, String.append_assoc]

theorem itemPath_pathText (steps : List PathStep) (index : Nat) :
    itemPath (pathText steps) index = pathText (steps ++ [.item index]) := by
  have hitem : itemPath (pathText steps) index =
      pathText steps ++ "[" ++ toString index ++ "]" := rfl
  rw [hitem]
  by_cases hs : steps = []
  · subst hs
    simp [pathText, stepsText]
  · rw [pathText_append hs]
    simp [stepsText, String.append_assoc]

/-! ## Reading a path -/

/-- Two texts that begin with characters of one kind, up to where the first other character stands,
begin alike. -/
theorem append_inj_of_stops {P : Char → Prop} {a b s t : List Char} (ha : ∀ c ∈ a, P c)
    (hb : ∀ c ∈ b, P c) (hs : ∀ c ∈ s.head?, ¬P c) (ht : ∀ c ∈ t.head?, ¬P c)
    (h : a ++ s = b ++ t) : a = b ∧ s = t := by
  induction a generalizing b with
  | nil =>
    cases b with
    | nil => exact ⟨rfl, h⟩
    | cons c b =>
      rw [List.nil_append] at h
      exact absurd (hb c List.mem_cons_self) (hs c (by rw [h]; rfl))
  | cons c a ih =>
    cases b with
    | nil =>
      rw [List.nil_append] at h
      exact absurd (ha c List.mem_cons_self) (ht c (by rw [← h]; rfl))
    | cons d b =>
      obtain ⟨rfl, hrest⟩ := List.cons.inj h
      obtain ⟨rfl, hst⟩ := ih (fun x hx => ha x (List.mem_cons_of_mem _ hx))
        (fun x hx => hb x (List.mem_cons_of_mem _ hx)) hrest
      exact ⟨rfl, hst⟩

/-- A character that may stand in a plain name. -/
def PlainChar (c : Char) : Prop := c ≠ '.' ∧ c ≠ '['

theorem IsPlain.plainChar (h : IsPlain name) : ∀ c ∈ name.toList, PlainChar c :=
  fun _ hc => ⟨fun he => h.2.1 (he ▸ hc), fun he => h.2.2 (he ▸ hc)⟩

theorem toList_stepsText_field (name : String) (steps : List PathStep) :
    (stepsText (.field name :: steps)).toList =
      '.' :: (name.toList ++ (stepsText steps).toList) := by
  simp [stepsText]

theorem toList_stepsText_item (index : Nat) (steps : List PathStep) :
    (stepsText (.item index :: steps)).toList =
      '[' :: (Nat.toDigits 10 index ++ ']' :: (stepsText steps).toList) := by
  simp [stepsText]

/-- Steps are written with a point or a bracket in front, which no plain name has. -/
theorem not_plainChar_head_stepsText (steps : List PathStep) :
    ∀ c ∈ (stepsText steps).toList.head?, ¬PlainChar c := by
  cases steps with
  | nil => simp [stepsText]
  | cons step steps =>
    cases step with
    | field name =>
      rw [toList_stepsText_field]
      rintro _ ⟨⟩ ⟨hpoint, -⟩
      exact hpoint rfl
    | item index =>
      rw [toList_stepsText_item]
      rintro _ ⟨⟩ ⟨-, hbracket⟩
      exact hbracket rfl

theorem stepsText_field_inj {name' : String} (h : IsPlain name) (h' : IsPlain name')
    (he : (stepsText (.field name :: steps)).toList = (stepsText (.field name' :: steps')).toList) :
    name = name' ∧ (stepsText steps).toList = (stepsText steps').toList := by
  rw [toList_stepsText_field, toList_stepsText_field] at he
  obtain ⟨hname, hsteps⟩ := append_inj_of_stops h.plainChar h'.plainChar
    (not_plainChar_head_stepsText steps) (not_plainChar_head_stepsText steps') (List.cons.inj he).2
  exact ⟨String.toList_inj.1 hname, hsteps⟩

/-- An index ends at the closing bracket. -/
theorem stepsText_item_inj {index index' : Nat}
    (he : (stepsText (.item index :: steps)).toList = (stepsText (.item index' :: steps')).toList) :
    index = index' ∧ (stepsText steps).toList = (stepsText steps').toList := by
  rw [toList_stepsText_item, toList_stepsText_item] at he
  have hdigits (i : Nat) : ∀ c ∈ Nat.toDigits 10 i, c.isDigit = true :=
    fun c hc => Nat.isDigit_of_mem_toDigits (by decide) (by decide) hc
  obtain ⟨hindex, hsteps⟩ := append_inj_of_stops (hdigits index) (hdigits index')
    (by simp) (by simp) (List.cons.inj he).2
  refine ⟨?_, (List.cons.inj hsteps).2⟩
  calc
    index = Nat.ofDigitChars 10 (Nat.toDigits 10 index) 0 := Nat.ofDigitChars_ten_toDigits.symm
    _ = Nat.ofDigitChars 10 (Nat.toDigits 10 index') 0 := by rw [hindex]
    _ = index' := Nat.ofDigitChars_ten_toDigits

theorem stepsText_injective (h : PlainPath steps) (h' : PlainPath steps')
    (he : (stepsText steps).toList = (stepsText steps').toList) : steps = steps' := by
  induction steps generalizing steps' with
  | nil =>
    cases steps' with
    | nil => rfl
    | cons step steps' => cases step <;> simp [stepsText] at he
  | cons step steps ih =>
    have hrest : PlainPath steps := fun name hn => h name (List.mem_cons_of_mem _ hn)
    cases steps' with
    | nil => cases step <;> simp [stepsText] at he
    | cons step' steps' =>
      have hrest' : PlainPath steps' := fun name hn => h' name (List.mem_cons_of_mem _ hn)
      cases step with
      | field name =>
        cases step' with
        | item index => simp [stepsText] at he
        | field name' =>
          obtain ⟨rfl, hsteps⟩ :=
            stepsText_field_inj (h name List.mem_cons_self) (h' name' List.mem_cons_self) he
          rw [ih hrest hrest' hsteps]
      | item index =>
        cases step' with
        | field name => simp [stepsText] at he
        | item index' =>
          obtain ⟨rfl, hsteps⟩ := stepsText_item_inj he
          rw [ih hrest hrest' hsteps]

theorem pathText_cases (steps : List PathStep) :
    (∃ name rest, steps = .field name :: rest) ∨ pathText steps = stepsText steps := by
  cases steps with
  | nil => exact .inr rfl
  | cons step rest =>
    cases step with
    | field name => exact .inl ⟨name, rest, rfl⟩
    | item index => exact .inr rfl

theorem pathText_field_ne_stepsText (h : IsPlain name) (rest steps : List PathStep) :
    pathText (.field name :: rest) ≠ stepsText steps := by
  intro he
  obtain ⟨c, cs, hname⟩ := List.exists_cons_of_ne_nil (mt String.toList_eq_nil_iff.1 h.1)
  have hhead : c ∈ (stepsText steps).toList.head? := by
    rw [← he]
    simp [pathText, hname]
  exact not_plainChar_head_stepsText steps c hhead (h.plainChar c (hname ▸ List.mem_cons_self))

/-- Different paths through plain names are written differently. -/
theorem pathText_injective (h : PlainPath steps) (h' : PlainPath steps')
    (he : pathText steps = pathText steps') : steps = steps' := by
  rcases pathText_cases steps with ⟨name, rest, rfl⟩ | hs <;>
    rcases pathText_cases steps' with ⟨name', rest', rfl⟩ | hs'
  · -- with a point in front both are steps behind a path
    refine stepsText_injective h h' ?_
    have hpoint := congrArg (fun text => ("." ++ text).toList) he
    simpa [pathText, stepsText] using hpoint
  · exact absurd (he.trans hs') (pathText_field_ne_stepsText (h name List.mem_cons_self) _ _)
  · exact absurd (he.symm.trans hs) (pathText_field_ne_stepsText (h' name' List.mem_cons_self) _ _)
  · exact stepsText_injective h h' (congrArg String.toList (hs.symm.trans (he.trans hs')))

end Wiring.Document
