import Wiring.Proofs.Document.Path
import Wiring.Proofs.Table

/-!
# What a flattened document tells

Every scalar of a document is led to by one path, and stands in the flattened document under that
path as it is written. If the names of each record are different and can be told apart within a
path, then nothing else stands there and no scalar is lost: there are as many properties as scalars.
-/

namespace Wiring.Document

/-! ## The scalars of a document -/

/-- The text of a scalar as the value of a property. -/
def Scalar.propertyText : Scalar → String
  | null => ""
  | bool b => if b then "true" else "false"
  | int i => toString i
  | float x => Decimal.renderFloat x
  | text s => s

namespace Value

/-- The scalar that a value is, if it is one. -/
def scalar? : Value → Option Scalar
  | null => some .null
  | bool b => some (.bool b)
  | int i => some (.int i)
  | float x => some (.float x)
  | text s => some (.text s)
  | list _ => none
  | record _ => none

/-- The steps lead from a value to a scalar. -/
inductive LeadsTo : Value → List PathStep → Scalar → Prop
  | here {v s} (h : v.scalar? = some s) : LeadsTo v [] s
  | item {items index v steps s} (h : items[index]? = some v) (hv : LeadsTo v steps s) :
    LeadsTo (.list items) (.item index :: steps) s
  | field {fields name v steps s} (h : (name, v) ∈ fields) (hv : LeadsTo v steps s) :
    LeadsTo (.record fields) (.field name :: steps) s

/-- The names of every record within a value have a property. -/
inductive Everywhere (P : List String → Prop) : Value → Prop
  | scalar {v s} (h : v.scalar? = some s) : Everywhere P v
  | list {items} (h : ∀ v ∈ items, Everywhere P v) : Everywhere P (.list items)
  | record {fields} (hnames : P (fields.map (·.1))) (h : ∀ f ∈ fields, Everywhere P f.2) :
    Everywhere P (.record fields)

theorem everywhere_list_iff {P : List String → Prop} {items : List Value} :
    (list items).Everywhere P ↔ ∀ v ∈ items, v.Everywhere P := by
  refine ⟨fun h => ?_, .list⟩
  cases h with
  | scalar h => cases h
  | list h => exact h

theorem everywhere_record_iff {P : List String → Prop} {fields : List (String × Value)} :
    (record fields).Everywhere P ↔ P (fields.map (·.1)) ∧ ∀ f ∈ fields, f.2.Everywhere P := by
  refine ⟨fun h => ?_, fun h => .record h.1 h.2⟩
  cases h with
  | scalar h => cases h
  | record hnames h => exact ⟨hnames, h⟩

/-- Every record has different names, as in all documents that are read. -/
def Distinct (v : Value) : Prop := v.Everywhere List.Nodup

/-- Every record has plain names. -/
def Plain (v : Value) : Prop := v.Everywhere fun names => ∀ name ∈ names, IsPlain name

end Value

mutual

/-- The scalars of a value with the steps that lead to them, in the order of the document. -/
def Value.scalars : Value → List (List PathStep × Scalar)
  | .list items => itemScalars 0 items
  | .record fields => fieldScalars fields
  | .null => [([], .null)]
  | .bool b => [([], .bool b)]
  | .int i => [([], .int i)]
  | .float x => [([], .float x)]
  | .text s => [([], .text s)]

/-- The scalars of list items, the first of which has this index. -/
def itemScalars (index : Nat) : List Value → List (List PathStep × Scalar)
  | [] => []
  | v :: rest =>
    v.scalars.map (fun e => (.item index :: e.1, e.2)) ++ itemScalars (index + 1) rest

/-- The scalars of fields. -/
def fieldScalars : List (String × Value) → List (List PathStep × Scalar)
  | [] => []
  | (name, v) :: rest => v.scalars.map (fun e => (.field name :: e.1, e.2)) ++ fieldScalars rest

end

variable {v : Value} {steps : List PathStep} {s : Scalar}

theorem Value.shape (v : Value) :
    (∃ s, v.scalar? = some s) ∨ (∃ items, v = .list items) ∨ ∃ fields, v = .record fields := by
  cases v with
  | list items => exact .inr (.inl ⟨items, rfl⟩)
  | record fields => exact .inr (.inr ⟨fields, rfl⟩)
  | _ => exact .inl ⟨_, rfl⟩

theorem scalars_of_scalar? (h : v.scalar? = some s) : v.scalars = [([], s)] := by
  cases v <;> cases h <;> rfl

theorem leaves_of_scalar? (h : v.scalar? = some s) (path : String) :
    v.leaves path = [(path, s.propertyText)] := by
  cases v <;> cases h <;> rfl

theorem mem_itemScalars {index : Nat} {items : List Value} :
    (steps, s) ∈ itemScalars index items ↔
      ∃ i v rest, items[i]? = some v ∧ (rest, s) ∈ v.scalars ∧
        steps = .item (index + i) :: rest := by
  induction items generalizing index with
  | nil => simp [itemScalars]
  | cons w items ih =>
    simp only [itemScalars, List.mem_append, List.mem_map, Prod.exists, Prod.mk.injEq, ih]
    constructor
    · rintro (⟨rest, t, hrest, rfl, rfl⟩ | ⟨i, v, rest, hv, hrest, rfl⟩)
      · exact ⟨0, w, rest, rfl, hrest, rfl⟩
      · exact ⟨i + 1, v, rest, hv, hrest, by rw [Nat.add_right_comm, Nat.add_assoc]⟩
    · rintro ⟨i, v, rest, hv, hrest, rfl⟩
      cases i with
      | zero => cases hv; exact .inl ⟨rest, s, hrest, rfl, rfl⟩
      | succ i => exact .inr ⟨i, v, rest, hv, hrest, by rw [Nat.add_right_comm, Nat.add_assoc]⟩

theorem mem_fieldScalars {fields : List (String × Value)} :
    (steps, s) ∈ fieldScalars fields ↔
      ∃ name v rest, (name, v) ∈ fields ∧ (rest, s) ∈ v.scalars ∧ steps = .field name :: rest := by
  induction fields with
  | nil => simp [fieldScalars]
  | cons f fields ih =>
    obtain ⟨name, w⟩ := f
    simp only [fieldScalars, List.mem_append, List.mem_map, Prod.exists, Prod.mk.injEq, ih,
      List.mem_cons]
    constructor
    · rintro (⟨rest, t, hrest, rfl, rfl⟩ | ⟨other, v, rest, hv, hrest, rfl⟩)
      · exact ⟨name, w, rest, .inl ⟨rfl, rfl⟩, hrest, rfl⟩
      · exact ⟨other, v, rest, .inr hv, hrest, rfl⟩
    · rintro ⟨other, v, rest, ⟨rfl, rfl⟩ | hv, hrest, rfl⟩
      · exact .inl ⟨rest, s, hrest, rfl, rfl⟩
      · exact .inr ⟨other, v, rest, hv, hrest, rfl⟩

theorem leadsTo_of_mem_scalars (h : (steps, s) ∈ v.scalars) : v.LeadsTo steps s := by
  induction steps generalizing v with
  | nil =>
    rcases v.shape with ⟨t, ht⟩ | ⟨items, rfl⟩ | ⟨fields, rfl⟩
    · rw [scalars_of_scalar? ht, List.mem_singleton] at h
      cases h
      exact .here ht
    · obtain ⟨_, _, _, -, -, hsteps⟩ := mem_itemScalars.1 h
      cases hsteps
    · obtain ⟨_, _, _, -, -, hsteps⟩ := mem_fieldScalars.1 h
      cases hsteps
  | cons step steps ih =>
    rcases v.shape with ⟨t, ht⟩ | ⟨items, rfl⟩ | ⟨fields, rfl⟩
    · rw [scalars_of_scalar? ht, List.mem_singleton] at h
      cases h
    · obtain ⟨i, w, rest, hw, hrest, hsteps⟩ := mem_itemScalars.1 h
      rw [Nat.zero_add] at hsteps
      cases hsteps
      exact .item hw (ih hrest)
    · obtain ⟨name, w, rest, hw, hrest, hsteps⟩ := mem_fieldScalars.1 h
      cases hsteps
      exact .field hw (ih hrest)

/-- The scalars are those that steps lead to. -/
theorem mem_scalars_iff : (steps, s) ∈ v.scalars ↔ v.LeadsTo steps s := by
  refine ⟨leadsTo_of_mem_scalars, fun h => ?_⟩
  induction h with
  | here h =>
    rw [scalars_of_scalar? h]
    exact List.mem_cons_self
  | item h _ ih => exact mem_itemScalars.2 ⟨_, _, _, h, ih, by rw [Nat.zero_add]⟩
  | field h _ ih => exact mem_fieldScalars.2 ⟨_, _, _, h, ih, rfl⟩

/-! ## Different paths -/

/-- Paths that begin with a new step are different from the rest. -/
theorem nodup_cons_append {l rest : List (List PathStep × Scalar)} {step : PathStep}
    (hl : (l.map (·.1)).Nodup) (hrest : (rest.map (·.1)).Nodup)
    (hnew : ∀ steps s, (step :: steps, s) ∉ rest) :
    ((l.map (fun e => (step :: e.1, e.2)) ++ rest).map (·.1)).Nodup := by
  have hcons : (l.map fun e => (step :: e.1, e.2)).map (·.1) = (l.map (·.1)).map (step :: ·) := by
    simp only [List.map_map]
    rfl
  rw [List.map_append, hcons]
  refine (hl.map fun _ _ he => (List.cons.inj he).2).append hrest ?_
  intro steps hfirst hmem
  obtain ⟨steps, -, rfl⟩ := List.mem_map.1 hfirst
  obtain ⟨⟨_, s⟩, hs, rfl⟩ := List.mem_map.1 hmem
  exact hnew steps s hs

theorem nodup_itemScalars {items : List Value}
    (h : ∀ v ∈ items, (v.scalars.map (·.1)).Nodup) (index : Nat) :
    ((itemScalars index items).map (·.1)).Nodup := by
  induction items generalizing index with
  | nil => exact List.nodup_nil
  | cons v items ih =>
    have hrest := ih (fun w hw => h w (List.mem_cons_of_mem _ hw)) (index + 1)
    refine nodup_cons_append (h v List.mem_cons_self) hrest fun steps s hs => ?_
    obtain ⟨i, _, _, -, -, hsteps⟩ := mem_itemScalars.1 hs
    have hindex := PathStep.item.inj (List.cons.inj hsteps).1
    omega

theorem nodup_fieldScalars {fields : List (String × Value)} (hnames : (fields.map (·.1)).Nodup)
    (h : ∀ f ∈ fields, (f.2.scalars.map (·.1)).Nodup) :
    ((fieldScalars fields).map (·.1)).Nodup := by
  induction fields with
  | nil => exact List.nodup_nil
  | cons f fields ih =>
    obtain ⟨hnew, hnames⟩ := List.nodup_cons.1 hnames
    have hrest := ih hnames fun f hf => h f (List.mem_cons_of_mem _ hf)
    refine nodup_cons_append (h f List.mem_cons_self) hrest fun steps s hs => ?_
    obtain ⟨name, w, _, hw, -, hsteps⟩ := mem_fieldScalars.1 hs
    have hname := PathStep.field.inj (List.cons.inj hsteps).1
    exact hnew (List.mem_map.2 ⟨_, hw, hname.symm⟩)

/-- Different scalars of a document with different names are led to by different steps. -/
theorem nodup_scalars (h : v.Distinct) : (v.scalars.map (·.1)).Nodup := by
  induction h with
  | scalar h =>
    rw [scalars_of_scalar? h]
    exact List.nodup_singleton _
  | list _ ih => exact nodup_itemScalars ih 0
  | record hnames _ ih => exact nodup_fieldScalars hnames ih

theorem plainPath_of_leadsTo (h : v.Plain) (hs : v.LeadsTo steps s) : PlainPath steps := by
  induction hs with
  | here _ => nofun
  | item hv _ ih =>
    intro name hname
    rcases List.mem_cons.1 hname with hname | hname
    · cases hname
    · exact ih (Value.everywhere_list_iff.1 h _ (List.mem_of_getElem? hv)) name hname
  | field hv _ ih =>
    obtain ⟨hnames, hfields⟩ := Value.everywhere_record_iff.1 h
    intro name hname
    rcases List.mem_cons.1 hname with hname | hname
    · cases hname
      exact hnames _ (List.mem_map_of_mem hv)
    · exact ih (hfields _ hv) name hname

/-! ## Flattening -/

/-- A scalar as a property, where the document is under a path. -/
def propertyUnder (steps : List PathStep) (e : List PathStep × Scalar) : String × String :=
  (pathText (steps ++ e.1), e.2.propertyText)

theorem map_propertyUnder_cons (steps : List PathStep) (step : PathStep)
    (l : List (List PathStep × Scalar)) :
    (l.map fun e => (step :: e.1, e.2)).map (propertyUnder steps) =
      l.map (propertyUnder (steps ++ [step])) := by
  rw [List.map_map]
  refine List.map_congr_left fun e _ => ?_
  simp [propertyUnder]

theorem itemLeaves_eq {items : List Value} {steps : List PathStep}
    (h : ∀ v ∈ items, ∀ index, v.leaves (pathText (steps ++ [.item index])) =
      v.scalars.map (propertyUnder (steps ++ [.item index]))) (index : Nat) :
    itemLeaves (pathText steps) index items =
      (itemScalars index items).map (propertyUnder steps) := by
  induction items generalizing index with
  | nil => rfl
  | cons v items ih =>
    have hrest := ih (fun w hw => h w (List.mem_cons_of_mem _ hw)) (index + 1)
    rw [itemLeaves, itemScalars, List.map_append, map_propertyUnder_cons, itemPath_pathText,
      h v List.mem_cons_self, hrest]

theorem fieldLeaves_eq {fields : List (String × Value)} {steps : List PathStep}
    (hs : PlainPath steps)
    (h : ∀ f ∈ fields, f.2.leaves (pathText (steps ++ [.field f.1])) =
      f.2.scalars.map (propertyUnder (steps ++ [.field f.1]))) :
    fieldLeaves (pathText steps) fields = (fieldScalars fields).map (propertyUnder steps) := by
  induction fields with
  | nil => rfl
  | cons f fields ih =>
    have hrest := ih fun f hf => h f (List.mem_cons_of_mem _ hf)
    rw [fieldLeaves, fieldScalars, List.map_append, map_propertyUnder_cons, fieldPath_pathText hs,
      h f List.mem_cons_self, hrest]

/-- What is listed of a document under a path are its scalars as properties, in their order. -/
theorem leaves_eq (h : v.Plain) (hs : PlainPath steps) :
    v.leaves (pathText steps) = v.scalars.map (propertyUnder steps) := by
  induction h generalizing steps with
  | scalar h =>
    rw [leaves_of_scalar? h, scalars_of_scalar? h]
    simp [propertyUnder]
  | list _ ih => exact itemLeaves_eq (fun v hv index => ih v hv (hs.concat nofun)) 0
  | record hnames _ ih =>
    refine fieldLeaves_eq hs fun f hf => ih f hf (hs.concat ?_)
    rintro _ ⟨⟩
    exact hnames _ (List.mem_map_of_mem hf)

/-! ## Documents that are read -/

theorem distinct_toValue (s : Scalar) : s.toValue.Distinct := by
  cases s with
  | float x =>
    show (if x.isFinite then Value.float x else .null).Distinct
    split
    · exact .scalar rfl
    · exact .scalar rfl
  | _ => exact .scalar rfl

theorem distinct_of_scalar_toValue? {s : Scalar} (h : s.toValue? = some v) : v.Distinct := by
  unfold Scalar.toValue? at h
  split at h
  · split at h
    · exact Option.some.inj h ▸ distinct_toValue _
    · cases h
  · exact Option.some.inj h ▸ distinct_toValue _

theorem distinct_record_orderFields {fields : List (String × Value)}
    (h : ∀ f ∈ fields, f.2.Distinct) : (Value.record (orderFields fields)).Distinct := by
  refine .record (Table.nodup_names _) fun f hf => h f ?_
  exact Table.mem_of_mem_ofList hf

mutual

/-- A document that is read has different names in each record. -/
theorem distinct_of_toValue? : ∀ {n : Node} {v : Value}, n.toValue? = some v → v.Distinct
  | .scalar _, _, h => distinct_of_scalar_toValue? h
  | .loose _ meaning?, _, h => by
    obtain ⟨s, -, hs⟩ := Option.bind_eq_some_iff.1 h
    exact distinct_of_scalar_toValue? hs
  | .list items, _, h => by
    obtain ⟨vs, hvs, rfl⟩ := Option.map_eq_some_iff.1 h
    exact .list (distinct_of_toValues? hvs)
  | .record fields, _, h => by
    obtain ⟨fs, hfs, rfl⟩ := Option.map_eq_some_iff.1 h
    exact distinct_record_orderFields (distinct_of_toFields? hfs)
  | .tagged .., _, h => nomatch h

theorem distinct_of_toValues? : ∀ {ns : List Node} {vs : List Value}, toValues? ns = some vs →
    ∀ v ∈ vs, v.Distinct
  | [], _, h => by cases h; nofun
  | n :: ns, _, h => by
    obtain ⟨v, hv, h⟩ := Option.bind_eq_some_iff.1 h
    obtain ⟨vs, hvs, h⟩ := Option.bind_eq_some_iff.1 h
    cases h
    exact List.forall_mem_cons.2 ⟨distinct_of_toValue? hv, distinct_of_toValues? hvs⟩

theorem distinct_of_toFields? : ∀ {ns : List (String × Node)} {fs : List (String × Value)},
    toFields? ns = some fs → ∀ f ∈ fs, f.2.Distinct
  | [], _, h => by cases h; nofun
  | (name, n) :: ns, _, h => by
    obtain ⟨v, hv, h⟩ := Option.bind_eq_some_iff.1 h
    obtain ⟨fs, hfs, h⟩ := Option.bind_eq_some_iff.1 h
    cases h
    exact List.forall_mem_cons.2 ⟨distinct_of_toValue? hv, distinct_of_toFields? hfs⟩

end

/-! ## Nothing is lost -/

/-- The document has different and plain names in each record. Then flattening it gives one property
for each scalar, under the path that leads to it and with its text; different scalars have different
paths, written differently, and nothing else is given. -/
theorem flatten_loses_nothing (hd : v.Distinct) (hp : v.Plain) :
    (v.flatten "").toList.Perm (v.scalars.map fun e => (pathText e.1, e.2.propertyText)) ∧
    (∀ steps s, (steps, s) ∈ v.scalars ↔ v.LeadsTo steps s) ∧
    (v.scalars.map (·.1)).Nodup ∧
    (∀ steps s steps' s', v.LeadsTo steps s → v.LeadsTo steps' s' →
      pathText steps = pathText steps' → steps = steps' ∧ s = s') ∧
    (∀ key text, (v.flatten "").get? key = some text ↔
      ∃ steps s, v.LeadsTo steps s ∧ pathText steps = key ∧ s.propertyText = text) ∧
    (v.flatten "").size = v.scalars.length := by
  have hpaths := nodup_scalars hd
  have hinjective {e e' : List PathStep × Scalar} (he : e ∈ v.scalars) (he' : e' ∈ v.scalars)
      (htext : pathText e.1 = pathText e'.1) : e = e' := by
    have hsteps := pathText_injective (plainPath_of_leadsTo hp (mem_scalars_iff.1 he))
      (plainPath_of_leadsTo hp (mem_scalars_iff.1 he')) htext
    exact List.inj_on_of_nodup_map hpaths he he' hsteps
  have hroot : PlainPath [] := nofun
  have hleaves : v.leaves "" = v.scalars.map (propertyUnder []) := leaves_eq hp hroot
  have hkeys : ((v.leaves "").map (·.1)).Nodup := by
    rw [hleaves, List.map_map]
    exact (hpaths.of_map _).map_on fun e he e' he' htext => hinjective he he' htext
  have hperm : (v.flatten "").toList.Perm (v.scalars.map (propertyUnder [])) :=
    hleaves ▸ Table.entries_ofList_perm hkeys
  refine ⟨hperm, fun _ _ => mem_scalars_iff, hpaths, ?_, ?_, ?_⟩
  · intro steps s steps' s' hs hs' htext
    exact Prod.mk.inj (hinjective (mem_scalars_iff.2 hs) (mem_scalars_iff.2 hs') htext)
  · intro key text
    rw [Table.get?_eq_some_iff]
    refine hperm.mem_iff.trans (List.mem_map.trans ?_)
    constructor
    · rintro ⟨⟨steps, s⟩, he, heq⟩
      cases heq
      exact ⟨steps, s, mem_scalars_iff.1 he, rfl, rfl⟩
    · rintro ⟨steps, s, hs, rfl, rfl⟩
      exact ⟨(steps, s), mem_scalars_iff.2 hs, rfl⟩
  · exact hperm.length_eq.trans (List.length_map _)

/-- A document with lists in lists, records in lists, and names with a closing bracket. -/
def nested : Node :=
  .record
    [("servers", .list [.list [.int 80, .null], .record [("0]", .text "a"), ("0", .text "b")]]),
      ("servers]", .bool true), ("0", .record [("empty", .list [])])]

/-- The document as it is read, with its names in order. -/
def nestedValue : Value :=
  .record
    [("0", .record [("empty", .list [])]),
      ("servers", .list [.list [.int 80, .null], .record [("0", .text "b"), ("0]", .text "a")]]),
      ("servers]", .bool true)]

theorem plain_nestedValue : nestedValue.Plain := by
  have hports : (Value.list [.int 80, .null]).Plain :=
    .list (List.forall_mem_cons.2 ⟨.scalar rfl, List.forall_mem_singleton.2 (.scalar rfl)⟩)
  have hnames : (Value.record [("0", .text "b"), ("0]", .text "a")]).Plain :=
    .record (by decide)
      (List.forall_mem_cons.2 ⟨.scalar rfl, List.forall_mem_singleton.2 (.scalar rfl)⟩)
  have hempty : (Value.record [("empty", .list [])]).Plain :=
    .record (by decide) (List.forall_mem_singleton.2 (.list nofun))
  refine .record (by decide)
    (List.forall_mem_cons.2 ⟨hempty, List.forall_mem_cons.2 ⟨.list ?_, ?_⟩⟩)
  · exact List.forall_mem_cons.2 ⟨hports, List.forall_mem_singleton.2 hnames⟩
  · exact List.forall_mem_singleton.2 (.scalar rfl)

theorem flatten_loses_nothing_nested : nested.toValue? = some nestedValue ∧
    nestedValue.Distinct ∧ nestedValue.Plain ∧
    nestedValue.LeadsTo [.field "servers", .item 1, .field "0]"] (.text "a") ∧
    (nestedValue.flatten "").get? "servers[1].0]" = some "a" ∧
    (nestedValue.flatten "").get? "servers[0][1]" = some "" ∧
    (nestedValue.flatten "").size = 5 := by
  have hread : nested.toValue? = some nestedValue := rfl
  have hd := distinct_of_toValue? hread
  obtain ⟨-, -, -, -, hget, hsize⟩ := flatten_loses_nothing hd plain_nestedValue
  have hname : nestedValue.LeadsTo [.field "servers", .item 1, .field "0]"] (.text "a") :=
    .field (.tail _ (.head _)) (.item rfl (.field (.tail _ (.head _)) (.here rfl)))
  have hport : nestedValue.LeadsTo [.field "servers", .item 0, .item 1] .null :=
    .field (.tail _ (.head _)) (.item rfl (.item rfl (.here rfl)))
  exact ⟨hread, hd, plain_nestedValue, hname, (hget _ _).2 ⟨_, _, hname, by decide, rfl⟩,
    (hget _ _).2 ⟨_, _, hport, by decide, rfl⟩, hsize⟩

end Wiring.Document
