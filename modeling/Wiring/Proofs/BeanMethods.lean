import Mathlib.Data.List.Induction
import Mathlib.Data.List.Nodup
import Mathlib.Data.List.Perm.Subperm
import Wiring.Proofs.Declared
import Wiring.Walk.Step

/-!
# The order of bean methods

The bean methods of a class are brought in the declared order of its methods by picking the first
method of each name. What is picked is used where it is as much as there are methods; it is then
every method once, since no method is picked twice.
-/

namespace Wiring

namespace Walk

/-! ## Picking methods -/

section Picking

variable {methods : List MethodDecl} {order : List String} {picked : List Nat}

theorem pickMethods_append (methods : List MethodDecl) (picked : List Nat)
    (order rest : List String) :
    pickMethods methods picked (order ++ rest) =
      pickMethods methods (pickMethods methods picked order) rest := by
  induction order generalizing picked with
  | nil => rfl
  | cons name order ih =>
    simp only [List.cons_append, pickMethods]
    split
    · exact ih _
    · exact ih _

/-- The first method of each name of an order, each once, those first whose names come first. -/
structure Picked (methods : List MethodDecl) (order : List String) (picked : List Nat) : Prop where
  nodup : picked.Nodup
  mem_iff : ∀ i, i ∈ picked ↔ ∃ name ∈ order, methods.findIdx? (·.name == name) = some i
  ordered : (picked.filterMap (methods[·]?)).Pairwise fun a b =>
    order.idxOf a.name < order.idxOf b.name

theorem getElem?_of_findIdx? {name : String} {i : Nat}
    (h : methods.findIdx? (·.name == name) = some i) :
    ∃ m, methods[i]? = some m ∧ m.name = name := by
  obtain ⟨hi, hname, -⟩ := List.findIdx?_eq_some_iff_getElem.1 h
  exact ⟨methods[i], List.getElem?_eq_getElem hi, beq_iff_eq.1 hname⟩

namespace Picked

theorem exists_method (h : Picked methods order picked) {i : Nat} (hi : i ∈ picked) :
    ∃ m, methods[i]? = some m ∧ m.name ∈ order := by
  obtain ⟨name, hname, hfind⟩ := (h.mem_iff i).1 hi
  obtain ⟨m, hm, rfl⟩ := getElem?_of_findIdx? hfind
  exact ⟨m, hm, hname⟩

/-- A name of which there is no method, or whose first method is picked, adds nothing. -/
theorem concat_old (h : Picked methods order picked) {name : String}
    (hold : ∀ i, methods.findIdx? (·.name == name) = some i → i ∈ picked) :
    Picked methods (order ++ [name]) picked where
  nodup := h.nodup
  mem_iff i := by
    rw [h.mem_iff]
    refine ⟨fun ⟨n, hn, hi⟩ => ⟨n, List.mem_append_left _ hn, hi⟩, fun ⟨n, hn, hi⟩ => ?_⟩
    rcases List.mem_append.1 hn with hn | hn
    · exact ⟨n, hn, hi⟩
    · rw [List.mem_singleton.1 hn] at hi
      exact (h.mem_iff i).1 (hold i hi)
  ordered := by
    refine h.ordered.imp_of_mem fun ha hb hlt => ?_
    obtain ⟨i, hi, ha⟩ := List.mem_filterMap.1 ha
    obtain ⟨j, hj, hb⟩ := List.mem_filterMap.1 hb
    obtain ⟨a', ha', haorder⟩ := h.exists_method hi
    obtain ⟨b', hb', hborder⟩ := h.exists_method hj
    obtain rfl := Option.some.inj (ha'.symm.trans ha)
    obtain rfl := Option.some.inj (hb'.symm.trans hb)
    rwa [List.idxOf_append_of_mem haorder, List.idxOf_append_of_mem hborder]

/-- The first method of a name that the order does not have yet comes last. -/
theorem concat_new (h : Picked methods order picked) {name : String} {i : Nat}
    (hi : methods.findIdx? (·.name == name) = some i) (hnew : i ∉ picked) :
    Picked methods (order ++ [name]) (picked ++ [i]) where
  nodup := List.concat_eq_append ▸ h.nodup.concat hnew
  mem_iff j := by
    rw [List.mem_append, h.mem_iff, List.mem_singleton]
    constructor
    · rintro (⟨n, hn, hj⟩ | rfl)
      · exact ⟨n, List.mem_append_left _ hn, hj⟩
      · exact ⟨name, by simp, hi⟩
    · rintro ⟨n, hn, hj⟩
      rcases List.mem_append.1 hn with hn | hn
      · exact .inl ⟨n, hn, hj⟩
      · rw [List.mem_singleton.1 hn, hi] at hj
        exact .inr (Option.some.inj hj).symm
  ordered := by
    obtain ⟨m, hm, rfl⟩ := getElem?_of_findIdx? hi
    -- had the order its name already, the method would have been picked for it
    have hm_order : m.name ∉ order := fun hin => hnew ((h.mem_iff i).2 ⟨m.name, hin, hi⟩)
    have hold : ∀ a ∈ picked.filterMap (methods[·]?), a.name ∈ order := by
      intro a ha
      obtain ⟨j, hj, ha⟩ := List.mem_filterMap.1 ha
      obtain ⟨a', ha', haorder⟩ := h.exists_method hj
      obtain rfl := Option.some.inj (ha'.symm.trans ha)
      exact haorder
    rw [List.filterMap_append, List.pairwise_append]
    refine ⟨h.ordered.imp_of_mem fun ha hb hlt => ?_, by simp [hm], fun a ha b hb => ?_⟩
    · rwa [List.idxOf_append_of_mem (hold _ ha), List.idxOf_append_of_mem (hold _ hb)]
    · obtain rfl : b = m := by simpa [hm] using hb
      rw [List.idxOf_append_of_mem (hold a ha), List.idxOf_append_of_notMem hm_order]
      exact Nat.lt_add_right _ (List.idxOf_lt_length_of_mem (hold a ha))

end Picked

theorem picked_pickMethods (methods : List MethodDecl) (order : List String) :
    Picked methods order (pickMethods methods [] order) := by
  induction order using List.reverseRecOn with
  | nil => exact ⟨List.nodup_nil, by simp [pickMethods], by simp [pickMethods]⟩
  | append_singleton order name ih =>
    rw [pickMethods_append]
    simp only [pickMethods]
    split
    next i hi =>
      split
      next hold =>
        refine ih.concat_old fun j hj => ?_
        obtain rfl := Option.some.inj (hi.symm.trans hj)
        exact hold
      next hnew => exact ih.concat_new hi hnew
    next hnone => exact ih.concat_old fun j hj => absurd (hnone.symm.trans hj) nofun

theorem Picked.subperm_range (h : Picked methods order picked) :
    picked.Subperm (List.range methods.length) := by
  refine List.subperm_of_subset h.nodup fun i hi => ?_
  obtain ⟨m, hm, -⟩ := h.exists_method hi
  exact List.mem_range.2 (List.getElem?_eq_some_iff.1 hm).1

theorem Picked.length_eq (h : Picked methods order picked) (hn : (methods.map (·.name)).Nodup)
    (hall : ∀ m ∈ methods, m.name ∈ order) : picked.length = methods.length := by
  have hrange : List.range methods.length ⊆ picked := by
    intro i hi
    have hlt := List.mem_range.1 hi
    refine (h.mem_iff i).2 ⟨methods[i].name, hall _ (List.getElem_mem hlt), ?_⟩
    refine List.findIdx?_eq_some_iff_getElem.2 ⟨hlt, beq_self_eq_true _, fun j hj heq => ?_⟩
    have hne := List.pairwise_iff_getElem.1 hn j i (by simp; omega) (by simpa using hlt) hj
    exact hne (by simpa using heq)
  have hle := (List.subperm_of_subset List.nodup_range hrange).length_le
  have hge := h.subperm_range.length_le
  rw [List.length_range] at hle hge
  exact Nat.le_antisymm hge hle

theorem filterMap_range_getElem? (methods : List MethodDecl) :
    (List.range methods.length).filterMap (methods[·]?) = methods := by
  induction methods with
  | nil => rfl
  | cons m methods ih =>
    rw [List.length_cons, List.range_succ_eq_map, List.filterMap_cons, List.filterMap_map]
    simpa [Function.comp_def] using ih

theorem Picked.perm (h : Picked methods order picked) (hlen : picked.length = methods.length) :
    (picked.filterMap (methods[·]?)).Perm methods := by
  have hrange : picked.Perm (List.range methods.length) :=
    h.subperm_range.perm_of_length_le (by simp [hlen])
  exact (hrange.filterMap _).trans (.of_eq (filterMap_range_getElem? methods))

theorem Picked.mem_order (h : Picked methods order picked) (hlen : picked.length = methods.length)
    {m : MethodDecl} (hm : m ∈ methods) : m.name ∈ order := by
  obtain ⟨i, hi, him⟩ := List.mem_filterMap.1 ((h.perm hlen).mem_iff.2 hm)
  obtain ⟨m', hm', horder⟩ := h.exists_method hi
  obtain rfl := Option.some.inj (hm'.symm.trans him)
  exact horder

end Picking

/-! ## The bean methods of a class -/

section Classes

variable (r : Reader) (c : ClassDecl)

/-- The bean methods are as they are declared, or all of them are picked by the declared order of
a class that is read reflectively. -/
theorem beanMethods_cases :
    beanMethods r c = c.beanMethods ∨
      ∃ order picked, c.introspection = .reflective ∧ r.methodOrder? c.name = some order ∧
        Picked c.beanMethods order picked ∧ picked.length = c.beanMethods.length ∧
        beanMethods r c = picked.filterMap (c.beanMethods[·]?) := by
  unfold beanMethods
  simp only
  split
  next order hread horder =>
    split
    · split
      next hlen =>
        exact .inr ⟨order, _, hread, horder, picked_pickMethods c.beanMethods order, hlen, rfl⟩
      · exact .inl rfl
    · exact .inl rfl
  · exact .inl rfl

variable {r c}

/-- Where the declared order has the different names of several bean methods, they are picked. -/
theorem beanMethods_of_covered {order : List String} (hread : c.introspection = .reflective)
    (horder : r.methodOrder? c.name = some order) (hmany : 1 < c.beanMethods.length)
    (hn : (c.beanMethods.map (·.name)).Nodup) (hall : ∀ m ∈ c.beanMethods, m.name ∈ order) :
    beanMethods r c =
      (pickMethods c.beanMethods [] order).filterMap (c.beanMethods[·]?) := by
  have hlen := (picked_pickMethods c.beanMethods order).length_eq hn hall
  have hcover : c.beanMethods.length ≤ order.length := by
    have hsub : c.beanMethods.map (·.name) ⊆ order := by
      intro name hname
      obtain ⟨m, hm, rfl⟩ := List.mem_map.1 hname
      exact hall m hm
    simpa using (List.subperm_of_subset hn hsub).length_le
  simp [beanMethods, hread, horder, hmany, hcover, hlen]

variable (r c)

theorem perm_beanMethods : (beanMethods r c).Perm c.beanMethods := by
  rcases beanMethods_cases r c with h | ⟨order, picked, -, -, hpicked, hlen, h⟩
  · exact .of_eq h
  · exact h ▸ hpicked.perm hlen

/-- The bean methods of a class are those that it declares, each once. Where its declared order is
used, that is the order they come in. -/
theorem beanMethods_reordered :
    (beanMethods r c).Perm c.beanMethods ∧
      (∀ order, c.introspection = .reflective → r.methodOrder? c.name = some order →
        1 < c.beanMethods.length → (c.beanMethods.map (·.name)).Nodup →
        (∀ m ∈ c.beanMethods, m.name ∈ order) →
        (beanMethods r c).Pairwise fun a b => order.idxOf a.name < order.idxOf b.name) ∧
      (c.introspection = .structural → beanMethods r c = c.beanMethods) ∧
      ∀ order, r.methodOrder? c.name = some order → (∃ m ∈ c.beanMethods, m.name ∉ order) →
        beanMethods r c = c.beanMethods := by
  refine ⟨perm_beanMethods r c, fun order hread horder hmany hn hall => ?_, fun hread => ?_,
    fun order horder ⟨m, hm, hout⟩ => ?_⟩
  · rw [beanMethods_of_covered hread horder hmany hn hall]
    exact (picked_pickMethods c.beanMethods order).ordered
  · rcases beanMethods_cases r c with h | ⟨_, _, hread', -⟩
    · exact h
    · rw [hread] at hread'
      cases hread'
  · rcases beanMethods_cases r c with h | ⟨order', picked, -, horder', hpicked, hlen, -⟩
    · exact h
    · obtain rfl := Option.some.inj (horder.symm.trans horder')
      exact absurd (hpicked.mem_order hlen hm) hout

end Classes

/-- A class that is read reflectively, with a declared order that repeats a name and has one that no
method has. -/
def reflected : Reader where
  catalogue :=
    .ofClasses
      [{ name := "App"
         introspection := .reflective
         methods :=
           [{ name := "store", marks := { declared := [.naming AnnotationType.bean []] } },
             { name := "plain" },
             { name := "mail", marks := { declared := [.naming AnnotationType.bean []] } },
             { name := "log", marks := { declared := [.naming AnnotationType.bean []] } }] }]
      (Table.empty.insert "App" ["log", "unknown", "store", "plain", "log", "mail"])
  foundational := []

theorem beanMethods_reordered_reflected : ∃ c,
    reflected.read? "App" = some c ∧ c.introspection = .reflective ∧
    reflected.methodOrder? c.name = some ["log", "unknown", "store", "plain", "log", "mail"] ∧
    1 < c.beanMethods.length ∧ c.beanMethods.map (·.name) = ["store", "mail", "log"] ∧
    (beanMethods reflected c).map (·.name) = ["log", "store", "mail"] ∧
    (beanMethods reflected c).Perm c.beanMethods ∧
    (beanMethods reflected c).Pairwise fun a b =>
      ["log", "unknown", "store", "plain", "log", "mail"].idxOf a.name <
        ["log", "unknown", "store", "plain", "log", "mail"].idxOf b.name := by
  have hfound : (reflected.read? "App").map (fun c => (c.introspection,
      reflected.methodOrder? c.name, c.beanMethods.map (·.name),
      (beanMethods reflected c).map (·.name))) =
      some (.reflective, some ["log", "unknown", "store", "plain", "log", "mail"],
        ["store", "mail", "log"], ["log", "store", "mail"]) := by decide +kernel
  obtain ⟨c, hc, hparts⟩ := Option.map_eq_some_iff.1 hfound
  simp only [Prod.mk.injEq] at hparts
  obtain ⟨hread, horder, hnames, hordered⟩ := hparts
  have hmany : 1 < c.beanMethods.length := by
    rw [← List.length_map (·.name), hnames]
    decide
  have hcover : ∀ name ∈ ["store", "mail", "log"],
      name ∈ ["log", "unknown", "store", "plain", "log", "mail"] := by decide
  have hall : ∀ m ∈ c.beanMethods,
      m.name ∈ ["log", "unknown", "store", "plain", "log", "mail"] := fun m hm =>
    hcover m.name (hnames ▸ List.mem_map_of_mem hm)
  obtain ⟨hperm, hsorted, -⟩ := beanMethods_reordered reflected c
  exact ⟨c, hc, hread, horder, hmany, hnames, hordered, hperm,
    hsorted _ hread horder hmany (hnames ▸ by decide) hall⟩

end Walk

end Wiring
