import Mathlib.Data.List.Induction
import Mathlib.Data.List.Nodup
import Mathlib.Order.Nat
import Wiring.Proofs.Registry

/-!
# Edits of a registry

Definitions are registered, removed and changed in place, one edit after the other. The names of the
registry are those that stand, in the order in which they were first registered since they were last
removed: overriding a definition and refused edits move nothing.

A registry may also be kept as an index of the definitions and, beside it, the list of the names.
Both have to be edited in step then; whatever the edits, this cannot be told from the outside.
-/

namespace Wiring

/-- An edit of a registry. -/
inductive RegistryEdit where
  | register (name : String) (definition : Definition)
  | remove (name : String)
  | modify (name : String) (change : Definition → Definition)

namespace RegistryEdit

/-- What an edit that is not refused makes of the definition under a name. -/
def effect (name : String) (definition? : Option Definition) : RegistryEdit → Option Definition
  | register other definition => if name = other then some definition else definition?
  | remove other => if name = other then none else definition?
  | modify other change => if name = other then definition?.map change else definition?

end RegistryEdit

/-! ## What stands after edits -/

/-- The name was registered at this place for the first time since it was last removed, and has not
been removed since. -/
structure StandsSince (es : List RegistryEdit) (name : String) (place : Nat) : Prop where
  named : name ≠ ""
  registered : ∃ d, es[place]? = some (.register name d)
  kept : ∀ later, place < later → es[later]? ≠ some (.remove name)
  first : ∀ earlier < place, (∃ d, es[earlier]? = some (.register name d)) →
    ∃ between, earlier < between ∧ between < place ∧ es[between]? = some (.remove name)

namespace StandsSince

variable {es : List RegistryEdit} {e : RegistryEdit} {name : String} {i j : Nat}

theorem lt_length (h : StandsSince es name i) : i < es.length := by
  obtain ⟨d, hd⟩ := h.registered
  exact (List.getElem?_eq_some_iff.1 hd).1

theorem unique (h : StandsSince es name i) (h' : StandsSince es name j) : i = j := by
  rcases Nat.lt_trichotomy i j with hlt | heq | hgt
  · obtain ⟨k, hik, -, hk⟩ := h'.first i hlt h.registered
    exact absurd hk (h.kept k hik)
  · exact heq
  · obtain ⟨k, hjk, -, hk⟩ := h.first j hgt h'.registered
    exact absurd hk (h'.kept k hjk)

/-- A name that was registered and not removed after that stands. -/
theorem exists_of_registered (hn : name ≠ "") (hi : ∃ d, es[i]? = some (.register name d))
    (hkept : ∀ later, i < later → es[later]? ≠ some (.remove name)) :
    ∃ place, StandsSince es name place := by
  classical
  let standing (i : Nat) : Prop := (∃ d, es[i]? = some (.register name d)) ∧
    ∀ later, i < later → es[later]? ≠ some (.remove name)
  have hsome : ∃ i, standing i := ⟨i, hi, hkept⟩
  obtain ⟨hregistered, hlater⟩ := Nat.find_spec hsome
  refine ⟨Nat.find hsome, hn, hregistered, hlater, fun earlier hlt hearlier => ?_⟩
  -- an earlier registration does not stand, and what undid it came before the one that stands
  have hnot := Nat.find_min hsome hlt
  obtain ⟨between, hbetween, hremoved⟩ :
      ∃ between, earlier < between ∧ es[between]? = some (.remove name) := by
    by_contra hnone
    exact hnot ⟨hearlier, fun later hlate hl => hnone ⟨later, hlate, hl⟩⟩
  refine ⟨between, hbetween, ?_, hremoved⟩
  rcases Nat.lt_trichotomy between (Nat.find hsome) with hlt' | heq | hgt
  · exact hlt'
  · obtain ⟨d, hd⟩ := hregistered
    rw [← heq, hremoved] at hd
    cases hd
  · exact absurd hremoved (hlater between hgt)

end StandsSince

section Concat

variable {es : List RegistryEdit} {e : RegistryEdit} {name : String} {i : Nat}

theorem getElem?_concat_edit (es : List RegistryEdit) (e : RegistryEdit) (i : Nat) :
    (es ++ [e])[i]? = if i = es.length then some e else es[i]? := by
  split
  next h => rw [h, List.getElem?_concat_length]
  next h =>
    rcases Nat.lt_or_gt_of_ne h with hlt | hgt
    · exact List.getElem?_append_left hlt
    · rw [List.getElem?_eq_none (by simp; omega), List.getElem?_eq_none (Nat.le_of_lt hgt)]

/-- What stands keeps standing through an edit that does not remove it. -/
theorem StandsSince.concat (h : StandsSince es name i) (he : e ≠ .remove name) :
    StandsSince (es ++ [e]) name i := by
  have hi := h.lt_length
  refine ⟨h.named, ?_, fun later hlater => ?_, fun earlier hearlier hd => ?_⟩
  · rw [List.getElem?_append_left hi]
    exact h.registered
  · rw [getElem?_concat_edit]
    split
    · exact fun hr => he (Option.some.inj hr)
    · exact h.kept later hlater
  · rw [List.getElem?_append_left (hearlier.trans hi)] at hd
    obtain ⟨between, hlt, hbetween, hremoved⟩ := h.first earlier hearlier hd
    refine ⟨between, hlt, hbetween, ?_⟩
    rwa [List.getElem?_append_left (hbetween.trans hi)]

/-- What stood before an edit and after it stood there all the time. -/
theorem StandsSince.of_concat (h : StandsSince (es ++ [e]) name i) (hi : i < es.length) :
    StandsSince es name i ∧ e ≠ .remove name := by
  refine ⟨⟨h.named, ?_, fun later hlater hr => ?_, fun earlier hearlier hd => ?_⟩, ?_⟩
  · have hregistered := h.registered
    rwa [List.getElem?_append_left hi] at hregistered
  · refine h.kept later hlater ?_
    rwa [List.getElem?_append_left (List.getElem?_eq_some_iff.1 hr).1]
  · rw [← List.getElem?_append_left (hearlier.trans hi)] at hd
    obtain ⟨between, hlt, hbetween, hremoved⟩ := h.first earlier hearlier hd
    refine ⟨between, hlt, hbetween, ?_⟩
    rwa [← List.getElem?_append_left (hbetween.trans hi)]
  · rintro rfl
    exact h.kept es.length hi (by rw [List.getElem?_concat_length])

/-- The last edit registers a name from there on if the name did not stand. -/
theorem standsSince_length_iff :
    StandsSince (es ++ [e]) name es.length ↔
      name ≠ "" ∧ (∃ d, e = .register name d) ∧ ∀ place, ¬StandsSince es name place := by
  constructor
  · intro h
    have hregister : ∃ d, e = .register name d := by
      obtain ⟨d, hd⟩ := h.registered
      rw [List.getElem?_concat_length] at hd
      exact ⟨d, Option.some.inj hd⟩
    refine ⟨h.named, hregister, fun place hplace => ?_⟩
    have hne : e ≠ .remove name := by
      obtain ⟨d, rfl⟩ := hregister
      rintro ⟨⟩
    exact absurd ((hplace.concat hne).unique h) hplace.lt_length.ne
  · rintro ⟨hn, ⟨d, rfl⟩, hnone⟩
    refine ⟨hn, ⟨d, List.getElem?_concat_length ..⟩, fun later hlater => ?_,
      fun earlier hlt hd => ?_⟩
    · rw [List.getElem?_eq_none (by simp; omega)]
      rintro ⟨⟩
    · by_contra hnot
      rw [List.getElem?_append_left hlt] at hd
      obtain ⟨place, hplace⟩ := StandsSince.exists_of_registered hn hd fun later hlater hr => by
        have hlength := (List.getElem?_eq_some_iff.1 hr).1
        refine hnot ⟨later, hlater, hlength, ?_⟩
        rwa [List.getElem?_append_left hlength]
      exact hnone place hplace

/-- A name stands after an edit if it stood before and is not removed, or if it is registered. -/
theorem exists_standsSince_concat :
    (∃ place, StandsSince (es ++ [e]) name place) ↔
      (∃ place, StandsSince es name place) ∧ e ≠ .remove name ∨
        name ≠ "" ∧ (∃ d, e = .register name d) ∧ ∀ place, ¬StandsSince es name place := by
  rw [← standsSince_length_iff]
  constructor
  · rintro ⟨place, h⟩
    have hlt : place < es.length + 1 := by simpa using h.lt_length
    rcases Nat.lt_succ_iff_lt_or_eq.1 hlt with hlt | rfl
    · obtain ⟨hold, he⟩ := h.of_concat hlt
      exact .inl ⟨⟨place, hold⟩, he⟩
    · exact .inr h
  · rintro (⟨⟨place, h⟩, he⟩ | h)
    · exact ⟨place, h.concat he⟩
    · exact ⟨es.length, h⟩

end Concat

namespace Registry

variable {r : Registry} {es : List RegistryEdit} {e : RegistryEdit} {name : String}

/-! ## Edits -/

/-- Carry out an edit: whether it succeeds, and the registry afterwards. -/
def edit (r : Registry) : RegistryEdit → Except Error Unit × Registry
  | .register name definition =>
    match r.register name definition with
    | .ok r' => (.ok (), r')
    | .error error => (.error error, r)
  | .remove name => (.ok (), r.remove name)
  | .modify name change => (.ok (), r.modify name change)

/-- The registry that edits make of an empty one, whether they succeed or not. -/
def edited (overriding : Bool) (es : List RegistryEdit) : Registry :=
  es.foldl (fun r e => (r.edit e).2) { allowsOverriding := overriding }

theorem edited_concat (overriding : Bool) (es : List RegistryEdit) (e : RegistryEdit) :
    edited overriding (es ++ [e]) = ((edited overriding es).edit e).2 :=
  List.foldl_append

/-- Registering fails for an empty name, and for a taken one if overriding is not allowed. -/
theorem edit_register_cases (r : Registry) (name : String) (d : Definition) :
    (name = "" ∧ r.edit (.register name d) =
      (.error (.invalidConfiguration (d.className?.getD "")
        "bean definition name must not be empty"), r)) ∨
    (name ≠ "" ∧ name ∈ r.names ∧ r.allowsOverriding = false ∧
      r.edit (.register name d) = (.error (.definitionOverride name), r)) ∨
    (name ≠ "" ∧ name ∈ r.names ∧ r.allowsOverriding = true ∧
      r.edit (.register name d) = (.ok (), r.modify name fun _ => d)) ∨
    (name ≠ "" ∧ name ∉ r.names ∧
      r.edit (.register name d) = (.ok (), r.withLast name d)) := by
  simp only [edit]
  unfold register
  by_cases hn : name = ""
  · rw [if_pos (String.isEmpty_iff.2 hn)]
    exact .inl ⟨hn, rfl⟩
  rw [if_neg (mt String.isEmpty_iff.1 hn)]
  by_cases hmem : name ∈ r.names
  · rw [if_pos (contains_iff_mem_names.2 hmem)]
    cases ho : r.allowsOverriding with
    | false => exact .inr (.inl ⟨hn, hmem, rfl, rfl⟩)
    | true => exact .inr (.inr (.inl ⟨hn, hmem, rfl, rfl⟩))
  · rw [if_neg (mt contains_iff_mem_names.1 hmem)]
    exact .inr (.inr (.inr ⟨hn, hmem, rfl⟩))

/-- What an edit does to the names: it adds one behind them, takes one out, or leaves them. -/
theorem names_edit (r : Registry) (e : RegistryEdit) :
    (∃ name d, e = .register name d ∧ name ≠ "" ∧ name ∉ r.names ∧
      (r.edit e).2.names = r.names ++ [name]) ∨
    (∃ name, e = .remove name ∧ (r.edit e).2.names = r.names.filter (· != name)) ∨
    ((∀ name, e ≠ .remove name) ∧ (∀ name d, e = .register name d → name = "" ∨ name ∈ r.names) ∧
      (r.edit e).2.names = r.names) := by
  cases e with
  | register name d =>
    have hcongr (hname : name = "" ∨ name ∈ r.names) (other : String)
        (d' : Definition) (he : RegistryEdit.register name d = .register other d') :
        other = "" ∨ other ∈ r.names := by
      cases he
      exact hname
    rcases edit_register_cases r name d with
      ⟨hn, h⟩ | ⟨-, hmem, -, h⟩ | ⟨-, hmem, -, h⟩ | ⟨hn, hnew, h⟩
    · exact .inr (.inr ⟨nofun, hcongr (.inl hn), by rw [h]⟩)
    · exact .inr (.inr ⟨nofun, hcongr (.inr hmem), by rw [h]⟩)
    · exact .inr (.inr ⟨nofun, hcongr (.inr hmem), by rw [h]; exact names_modify ..⟩)
    · exact .inl ⟨name, d, rfl, hn, hnew, by rw [h]; exact names_withLast ..⟩
  | remove name => exact .inr (.inl ⟨name, rfl, names_remove r name⟩)
  | modify name change => exact .inr (.inr ⟨nofun, nofun, names_modify r name change⟩)

/-- The names are those that stand, in the order in which they were first registered since they were
last removed. -/
structure Lists (es : List RegistryEdit) (names : List String) : Prop where
  nodup : names.Nodup
  mem_iff : ∀ name, name ∈ names ↔ ∃ place, StandsSince es name place
  ordered : names.Pairwise fun a b => ∃ i j, StandsSince es a i ∧ StandsSince es b j ∧ i < j

namespace Lists

variable {names : List String}

theorem nil : Lists [] [] where
  nodup := .nil
  mem_iff name := by
    refine iff_of_false List.not_mem_nil fun ⟨place, h⟩ => ?_
    exact absurd h.lt_length (Nat.not_lt_zero place)
  ordered := .nil

theorem not_mem_iff (h : Lists es names) :
    name ∉ names ↔ ∀ place, ¬StandsSince es name place := by
  rw [h.mem_iff, not_exists]

theorem ordered_concat (h : Lists es names) {kept : List String} (hsub : kept.Sublist names)
    (he : ∀ name ∈ kept, e ≠ .remove name) :
    kept.Pairwise fun a b =>
      ∃ i j, StandsSince (es ++ [e]) a i ∧ StandsSince (es ++ [e]) b j ∧ i < j := by
  refine (h.ordered.sublist hsub).imp_of_mem fun {a b} ha hb hab => ?_
  obtain ⟨i, j, hi, hj, hlt⟩ := hab
  exact ⟨i, j, hi.concat (he a ha), hj.concat (he b hb), hlt⟩

/-- A name that is registered anew comes last. -/
theorem concat_new (h : Lists es names) (hn : name ≠ "") (hnew : name ∉ names) (d : Definition) :
    Lists (es ++ [.register name d]) (names ++ [name]) where
  nodup := List.concat_eq_append ▸ h.nodup.concat hnew
  mem_iff other := by
    rw [List.mem_append, List.mem_singleton, exists_standsSince_concat, h.mem_iff, ← h.not_mem_iff]
    refine or_congr (and_iff_left nofun).symm ⟨?_, ?_⟩
    · rintro rfl
      exact ⟨hn, ⟨d, rfl⟩, hnew⟩
    · rintro ⟨-, ⟨d', hd'⟩, -⟩
      cases hd'
      rfl
  ordered := by
    have hlast : StandsSince (es ++ [.register name d]) name es.length :=
      standsSince_length_iff.2 ⟨hn, ⟨d, rfl⟩, h.not_mem_iff.1 hnew⟩
    refine List.pairwise_append.2 ⟨h.ordered_concat (List.Sublist.refl _) fun _ _ => nofun,
      List.pairwise_singleton _ _, fun a ha b hb => ?_⟩
    obtain rfl := List.mem_singleton.1 hb
    obtain ⟨i, hi⟩ := (h.mem_iff a).1 ha
    exact ⟨i, es.length, hi.concat nofun, hlast, hi.lt_length⟩

theorem concat_remove (h : Lists es names) (name : String) :
    Lists (es ++ [.remove name]) (names.filter (· != name)) where
  nodup := h.nodup.filter _
  mem_iff other := by
    rw [List.mem_filter, bne_iff_ne, exists_standsSince_concat, h.mem_iff]
    have hne : RegistryEdit.remove name ≠ .remove other ↔ other ≠ name := by
      rw [Ne, RegistryEdit.remove.injEq, eq_comm]
    rw [hne]
    refine (or_iff_left ?_).symm
    rintro ⟨-, ⟨d, hd⟩, -⟩
    cases hd
  ordered := by
    refine h.ordered_concat List.filter_sublist fun other ho he => ?_
    cases he
    exact bne_iff_ne.1 (List.mem_filter.1 ho).2 rfl

theorem concat_idle (h : Lists es names) (hremove : ∀ name, e ≠ .remove name)
    (hregister : ∀ name d, e = .register name d → name = "" ∨ name ∈ names) :
    Lists (es ++ [e]) names where
  nodup := h.nodup
  mem_iff name := by
    rw [exists_standsSince_concat, h.mem_iff, and_iff_left (hremove name)]
    refine (or_iff_left ?_).symm
    rintro ⟨hn, ⟨d, hd⟩, hnone⟩
    exact h.not_mem_iff.2 hnone ((hregister name d hd).resolve_left hn)
  ordered := h.ordered_concat (List.Sublist.refl _) fun name _ => hremove name

theorem edit (h : Lists es r.names) (e : RegistryEdit) : Lists (es ++ [e]) (r.edit e).2.names := by
  rcases names_edit r e with
    ⟨name, d, rfl, hn, hnew, hnames⟩ | ⟨name, rfl, hnames⟩ | ⟨hremove, hregister, hnames⟩
  · rw [hnames]
    exact h.concat_new hn hnew d
  · rw [hnames]
    exact h.concat_remove name
  · rw [hnames]
    exact h.concat_idle hremove hregister

end Lists

/-- Edits of an empty registry leave the names that stand. -/
theorem lists_edited (overriding : Bool) (es : List RegistryEdit) :
    Lists es (edited overriding es).names := by
  induction es using List.reverseRecOn with
  | nil => exact .nil
  | append_singleton es e ih =>
    rw [edited_concat]
    exact ih.edit e

theorem allowsOverriding_edit (r : Registry) (e : RegistryEdit) :
    (r.edit e).2.allowsOverriding = r.allowsOverriding := by
  cases e with
  | register name d =>
    rcases edit_register_cases r name d with ⟨-, h⟩ | ⟨-, -, -, h⟩ | ⟨-, -, -, h⟩ | ⟨-, -, h⟩
    · rw [h]
    · rw [h]
    · rw [h]
      rfl
    · rw [h]
      rfl
  | _ => rfl

theorem allowsOverriding_edited (overriding : Bool) (es : List RegistryEdit) :
    (edited overriding es).allowsOverriding = overriding := by
  induction es using List.reverseRecOn with
  | nil => rfl
  | append_singleton es e ih => rw [edited_concat, allowsOverriding_edit, ih]

theorem register_refused_iff (r : Registry) (name : String) (d : Definition) :
    (∃ error, (r.edit (.register name d)).1 = .error error) ↔
      name = "" ∨ name ∈ r.names ∧ r.allowsOverriding = false := by
  rcases edit_register_cases r name d with
    ⟨hn, h⟩ | ⟨-, hmem, ho, h⟩ | ⟨hn, hmem, ho, h⟩ | ⟨hn, hnew, h⟩
  · exact iff_of_true ⟨_, congrArg Prod.fst h⟩ (.inl hn)
  · exact iff_of_true ⟨_, congrArg Prod.fst h⟩ (.inr ⟨hmem, ho⟩)
  · rw [h, ho]
    simp [hn]
  · rw [h]
    simp [hn, hnew]

theorem edit_of_refused {error : Error} (h : (r.edit e).1 = .error error) : (r.edit e).2 = r := by
  cases e with
  | register name d =>
    rcases edit_register_cases r name d with ⟨-, he⟩ | ⟨-, -, -, he⟩ | ⟨-, -, -, he⟩ | ⟨-, -, he⟩
    · rw [he]
    · rw [he]
    · rw [he] at h
      cases h
    · rw [he] at h
      cases h
  | remove name => cases h
  | modify name change => cases h

theorem get?_edit (h : (r.edit e).1 = .ok ()) (name : String) :
    (r.edit e).2.get? name = e.effect name (r.get? name) := by
  cases e with
  | register other d =>
    rcases hr : r.register other d with error | r'
    · simp only [edit, hr] at h
      cases h
    · simp only [edit, hr]
      exact get?_of_register hr
  | remove other => exact get?_remove
  | modify other change => exact get?_modify change

end Registry

/-! ## An index and a list -/

/-- Definitions found by their names, and beside them the names in order. -/
structure IndexedRegistry where
  definitions : Std.HashMap String Definition := ∅
  order : List String := []
  allowsOverriding : Bool := true

namespace IndexedRegistry

/-- Register a definition. The name goes behind all others unless it is taken. -/
def register (s : IndexedRegistry) (name : String) (definition : Definition) :
    Except Error Unit × IndexedRegistry :=
  if name.isEmpty then
    (.error (.invalidConfiguration (definition.className?.getD "")
      "bean definition name must not be empty"), s)
  else
    match s.definitions[name]? with
    | some _ =>
      if s.allowsOverriding then
        (.ok (), { s with definitions := s.definitions.insert name definition })
      else (.error (.definitionOverride name), s)
    | none =>
      (.ok (), { s with
        definitions := s.definitions.insert name definition
        order := s.order ++ [name] })

/-- Take a definition out, and its name. -/
def remove (s : IndexedRegistry) (name : String) : IndexedRegistry :=
  match s.definitions[name]? with
  | some _ =>
    { s with
      definitions := s.definitions.erase name
      order := s.order.filter (· != name) }
  | none => s

/-- Carry out an edit: whether it succeeds, and the registry afterwards. -/
def edit (s : IndexedRegistry) : RegistryEdit → Except Error Unit × IndexedRegistry
  | .register name definition => s.register name definition
  | .remove name => (.ok (), s.remove name)
  | .modify name change => (.ok (), { s with definitions := s.definitions.modify name change })

/-- The registry that edits make of an empty one, whether they succeed or not. -/
def edited (overriding : Bool) (es : List RegistryEdit) : IndexedRegistry :=
  es.foldl (fun s e => (s.edit e).2) { allowsOverriding := overriding }

theorem edited_concat (overriding : Bool) (es : List RegistryEdit) (e : RegistryEdit) :
    edited overriding (es ++ [e]) = ((edited overriding es).edit e).2 :=
  List.foldl_append

/-- The index and the list are in step, and give what the registry gives. -/
structure InStep (s : IndexedRegistry) (r : Registry) : Prop where
  order : s.order = r.names
  definitions : ∀ name, s.definitions[name]? = r.get? name
  size : s.definitions.size = r.size
  allowsOverriding : s.allowsOverriding = r.allowsOverriding

namespace InStep

variable {s : IndexedRegistry} {r : Registry} {name : String}

theorem mem_iff (h : InStep s r) : name ∈ s.definitions ↔ name ∈ r.names := by
  rw [← Registry.contains_iff_mem_names, Registry.contains, ← h.definitions,
    ← Std.HashMap.contains_eq_isSome_getElem?, Std.HashMap.mem_iff_contains]

theorem getElem?_insert (h : InStep s r) (name : String) (d : Definition) (other : String) :
    (s.definitions.insert name d)[other]? = if other = name then some d else r.get? other := by
  rw [Std.HashMap.getElem?_insert, h.definitions, BEq.comm]
  simp only [beq_iff_eq]

/-- A taken name stays where it is, and the index counts as many. -/
theorem override (h : InStep s r) (hmem : name ∈ r.names) (d : Definition) :
    InStep { s with definitions := s.definitions.insert name d } (r.modify name fun _ => d) where
  order := h.order.trans (Registry.names_modify ..).symm
  definitions other := by
    obtain ⟨old, hold⟩ := Option.isSome_iff_exists.1 (Registry.contains_iff_mem_names.2 hmem)
    rw [Registry.get?_modify, h.getElem?_insert]
    split
    next hother => rw [hother, hold]; rfl
    next => rfl
  size := by
    rw [Std.HashMap.size_insert, if_pos (h.mem_iff.2 hmem), h.size]
    rw [Registry.size_eq_length_names, Registry.size_eq_length_names, Registry.names_modify]
  allowsOverriding := h.allowsOverriding

theorem withLast (h : InStep s r) (hn : name ≠ "") (hnew : name ∉ r.names) (d : Definition) :
    InStep { s with definitions := s.definitions.insert name d, order := s.order ++ [name] }
      (r.withLast name d) where
  order := by rw [Registry.names_withLast, h.order]
  definitions other := by rw [h.getElem?_insert, Registry.get?_withLast hnew hn]
  size := by
    rw [Std.HashMap.size_insert, if_neg (mt h.mem_iff.1 hnew), h.size,
      Registry.size_eq_length_names, Registry.size_eq_length_names, Registry.names_withLast,
      List.length_append, List.length_singleton]
  allowsOverriding := h.allowsOverriding

theorem register (h : InStep s r) (name : String) (d : Definition) :
    (s.register name d).1 = (r.edit (.register name d)).1 ∧
      InStep (s.register name d).2 (r.edit (.register name d)).2 := by
  unfold IndexedRegistry.register
  rcases Registry.edit_register_cases r name d with
    ⟨rfl, he⟩ | ⟨hn, hmem, ho, he⟩ | ⟨hn, hmem, ho, he⟩ | ⟨hn, hnew, he⟩
  · rw [he]
    exact ⟨rfl, h⟩
  · obtain ⟨old, hold⟩ := Option.isSome_iff_exists.1 (Registry.contains_iff_mem_names.2 hmem)
    rw [he, if_neg (mt String.isEmpty_iff.1 hn)]
    simp only [h.definitions, hold, h.allowsOverriding, ho, Bool.false_eq_true, if_false, true_and]
    exact h
  · obtain ⟨old, hold⟩ := Option.isSome_iff_exists.1 (Registry.contains_iff_mem_names.2 hmem)
    rw [he, if_neg (mt String.isEmpty_iff.1 hn)]
    simp only [h.definitions, hold, h.allowsOverriding, ho, if_true, true_and]
    exact ho ▸ h.allowsOverriding ▸ h.override hmem d
  · rw [he, if_neg (mt String.isEmpty_iff.1 hn)]
    simp only [h.definitions, Registry.get?_eq_none_iff.2 hnew, true_and]
    exact h.withLast hn hnew d

theorem remove (h : InStep s r) (hnodup : r.names.Nodup) (name : String) :
    InStep (s.remove name) (r.remove name) := by
  have hnames : (r.remove name).names = r.names.erase name := by
    rw [Registry.names_remove, hnodup.erase_eq_filter]
  have hsize : (r.remove name).size = (r.names.erase name).length := by
    rw [Registry.size_eq_length_names, hnames]
  unfold IndexedRegistry.remove
  by_cases hmem : name ∈ r.names
  · obtain ⟨old, hold⟩ := Option.isSome_iff_exists.1 (Registry.contains_iff_mem_names.2 hmem)
    rw [h.definitions, hold]
    refine ⟨?_, fun other => ?_, ?_, h.allowsOverriding⟩
    · rw [Registry.names_remove, h.order]
    · rw [Registry.get?_remove, Std.HashMap.getElem?_erase, h.definitions, BEq.comm]
      simp only [beq_iff_eq]
    · rw [Std.HashMap.size_erase, if_pos (h.mem_iff.2 hmem), h.size, hsize,
        List.length_erase_of_mem hmem, Registry.size_eq_length_names]
  · rw [h.definitions, Registry.get?_eq_none_iff.2 hmem]
    refine ⟨?_, fun other => ?_, ?_, h.allowsOverriding⟩
    · rw [hnames, List.erase_of_not_mem hmem, h.order]
    · rw [Registry.get?_remove, h.definitions]
      split
      next hother => rw [hother, Registry.get?_eq_none_iff.2 hmem]
      next => rfl
    · rw [h.size, hsize, List.erase_of_not_mem hmem, Registry.size_eq_length_names]

theorem modify (h : InStep s r) (name : String) (change : Definition → Definition) :
    InStep { s with definitions := s.definitions.modify name change } (r.modify name change) where
  order := h.order.trans (Registry.names_modify ..).symm
  definitions other := by
    rw [Std.HashMap.getElem?_modify, Registry.get?_modify, h.definitions, h.definitions, BEq.comm]
    simp only [beq_iff_eq]
    split
    next hother => rw [hother]
    next => rfl
  size := by
    rw [Std.HashMap.size_modify, h.size, Registry.size_eq_length_names,
      Registry.size_eq_length_names, Registry.names_modify]
  allowsOverriding := h.allowsOverriding

theorem edit (h : InStep s r) (hnodup : r.names.Nodup) (e : RegistryEdit) :
    (s.edit e).1 = (r.edit e).1 ∧ InStep (s.edit e).2 (r.edit e).2 := by
  cases e with
  | register name d => exact h.register name d
  | remove name => exact ⟨rfl, h.remove hnodup name⟩
  | modify name change => exact ⟨rfl, h.modify name change⟩

end InStep

/-- Edits leave an empty index and an empty list in step. -/
theorem inStep_edited (overriding : Bool) (es : List RegistryEdit) :
    InStep (edited overriding es) (Registry.edited overriding es) := by
  induction es using List.reverseRecOn with
  | nil => exact ⟨rfl, fun _ => Std.HashMap.getElem?_empty, Std.HashMap.size_empty, rfl⟩
  | append_singleton es e ih =>
    rw [edited_concat, Registry.edited_concat]
    exact (ih.edit (Registry.lists_edited overriding es).nodup e).2

end IndexedRegistry

namespace Registry

/-- After any edits the names are different and those that have definitions, in the order in which
they were first registered since they were last removed. Registering a taken name again leaves it in
its place; it is refused for an empty name, and for a taken one if overriding is not allowed, and a
refused edit changes nothing, while any other one changes the definition under its name. An index
and a list that are edited instead give the same names, definitions and failures. -/
theorem edited_in_order (overriding : Bool) (es : List RegistryEdit) :
    Lists es (edited overriding es).names ∧
    (∀ name, name ∈ (edited overriding es).names ↔ ∃ d, (edited overriding es).get? name = some d) ∧
    (edited overriding es).size = (edited overriding es).names.length ∧
    (∀ name ∈ (edited overriding es).names, ∀ d,
      ((edited overriding es).edit (.register name d)).2.names = (edited overriding es).names) ∧
    (∀ name d, (∃ error, ((edited overriding es).edit (.register name d)).1 = .error error) ↔
      name = "" ∨ name ∈ (edited overriding es).names ∧ overriding = false) ∧
    (∀ e error, ((edited overriding es).edit e).1 = .error error →
      ((edited overriding es).edit e).2 = edited overriding es) ∧
    (∀ e, ((edited overriding es).edit e).1 = .ok () → ∀ name,
      ((edited overriding es).edit e).2.get? name =
        e.effect name ((edited overriding es).get? name)) ∧
    IndexedRegistry.InStep (IndexedRegistry.edited overriding es) (edited overriding es) ∧
    ∀ e, ((IndexedRegistry.edited overriding es).edit e).1 = ((edited overriding es).edit e).1 := by
  have hlists := lists_edited overriding es
  have hstep := IndexedRegistry.inStep_edited overriding es
  refine ⟨hlists, fun name => ?_, size_eq_length_names _, fun name hmem d => ?_, fun name d => ?_,
    fun e error => edit_of_refused, fun e => get?_edit, hstep,
    fun e => (hstep.edit hlists.nodup e).1⟩
  · rw [← contains_iff_mem_names, contains, Option.isSome_iff_exists]
  · rcases names_edit (edited overriding es) (.register name d) with
      ⟨_, _, he, -, hnew, -⟩ | ⟨_, he, -⟩ | ⟨-, -, hnames⟩
    · cases he
      exact absurd hmem hnew
    · cases he
    · exact hnames
  · rw [register_refused_iff, allowsOverriding_edited]

/-- Definitions of two classes, the first of which is overridden, changed, removed and registered
again, with refused edits among these. -/
def rearranged : List RegistryEdit :=
  [.register "first" (.ofClass "First" .root), .register "second" (.ofClass "Second" .root),
    .register "first" (.ofClass "Other" .scanned), .register "" (.ofClass "Third" .root),
    .remove "first", .modify "second" fun d => { d with order? := some 1 }, .remove "third",
    .register "first" (.ofClass "First" .imported), .register "first" (.ofClass "First" .root)]

theorem edited_in_order_rearranged :
    (edited false rearranged).names = ["second", "first"] ∧
    (∃ error, ((edited false rearranged).edit (.register "first" default)).1 = .error error) ∧
    ∃ i j, StandsSince rearranged "second" i ∧ StandsSince rearranged "first" j ∧ i < j := by
  obtain ⟨hlists, -, -, -, hrefused, -⟩ := edited_in_order false rearranged
  have hnames : (edited false rearranged).names = ["second", "first"] := rfl
  have hfirst : "first" ∈ (edited false rearranged).names := hnames ▸ by decide
  have hordered := hlists.ordered
  rw [hnames, List.pairwise_pair] at hordered
  exact ⟨hnames, (hrefused "first" default).2 (.inr ⟨hfirst, rfl⟩), hordered⟩

end Registry

end Wiring
