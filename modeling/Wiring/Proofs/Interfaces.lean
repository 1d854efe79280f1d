import Mathlib.Logic.Relation
import Wiring.Proofs.BeanMethods

/-!
# Interfaces

The bean methods of the interfaces of a class are found by going down through the interfaces that it
names, those that they name, and so on. One search comes to each interface once, also where several
ways lead there and where interfaces name each other.
-/

open Relation (ReflTransGen TransGen)

namespace Wiring

namespace Reader

/-- The first class names the second one as an interface, and it is not foundational. -/
def Implements (r : Reader) (c d : ClassDecl) : Prop :=
  ∃ name ∈ c.interfaces, r.isFoundational name = false ∧ r.read? name = some d

end Reader

/-- What tells methods apart: the class that declares a method, and its name. -/
def MethodDecl.identity (m : MethodDecl) : String × String := (m.declaringClass, m.name)

namespace Walk

/-- The bean methods that a class takes over from an interface: those with a body. -/
def defaultMethods (r : Reader) (c : ClassDecl) : List MethodDecl :=
  (beanMethods r c).filter (!·.isAbstract)

/-- A search of interfaces, from the names that have been met and those to be gone through to the
interfaces that it comes to and the names that have been met then. -/
inductive InterfaceSearch (r : Reader) :
    List String → List String → List ClassDecl → List String → Prop
  | done (met : List String) : InterfaceSearch r met [] [] met
  | passed {met rest met' : List String} {name : String} {reached : List ClassDecl} :
    r.isFoundational name = true ∨ name ∈ met → InterfaceSearch r met rest reached met' →
      InterfaceSearch r met (name :: rest) reached met'
  | next {met rest met₁ met₂ : List String} {name : String} {c : ClassDecl}
      {above others : List ClassDecl} :
    r.isFoundational name = false → name ∉ met → r.read? name = some c →
      InterfaceSearch r (name :: met) c.interfaces above met₁ →
      InterfaceSearch r met₁ rest others met₂ →
      InterfaceSearch r met (name :: rest) (c :: above ++ others) met₂

variable {r : Reader} {met met' names : List String} {reached : List ClassDecl} {c d : ClassDecl}

/-- The methods that are found are those of the interfaces that a search comes to. -/
theorem search_of_interfaceMethods {bound : Nat} {found : List MethodDecl}
    (h : interfaceMethods r bound met names = .ok (found, met')) :
    ∃ reached, InterfaceSearch r met names reached met' ∧
      found = reached.flatMap (defaultMethods r) := by
  induction bound generalizing met names found met' with
  | zero =>
    cases names with
    | nil => cases h; exact ⟨[], .done _, rfl⟩
    | cons name rest => cases h
  | succ bound ih =>
    cases names with
    | nil => cases h; exact ⟨[], .done _, rfl⟩
    | cons name rest =>
      unfold interfaceMethods at h
      split at h
      next hp =>
        obtain ⟨reached, hs, hfound⟩ := ih h
        have hpassed : r.isFoundational name = true ∨ name ∈ met := by simpa using hp
        exact ⟨reached, .passed hpassed hs, hfound⟩
      next hp =>
        obtain ⟨hf, hm⟩ : r.isFoundational name = false ∧ name ∉ met := by simpa using hp
        cases hr : r.read name with
        | error e => rw [hr] at h; cases h
        | ok c =>
          rw [hr] at h
          simp only [bind, Except.bind] at h
          split at h
          · cases h
          next above ha =>
            split at h
            · cases h
            next others ho =>
              obtain ⟨reached, hs, habove⟩ := ih ha
              obtain ⟨reached', hs', hothers⟩ := ih ho
              cases h
              refine ⟨_, .next hf hm (Reader.read_eq_ok.1 hr) hs hs', ?_⟩
              rw [habove, hothers, List.cons_append, List.flatMap_cons, List.flatMap_append,
                List.append_assoc]
              rfl

namespace InterfaceSearch

theorem subset_met (h : InterfaceSearch r met names reached met') : met ⊆ met' := by
  induction h with
  | done => exact List.Subset.refl _
  | passed _ _ ih => exact ih
  | next _ _ _ _ _ ih ih' =>
    exact List.Subset.trans (List.subset_cons_self _ _) (List.Subset.trans ih ih')

theorem nodup_met (h : InterfaceSearch r met names reached met') (hn : met.Nodup) : met'.Nodup := by
  induction h with
  | done => exact hn
  | passed _ _ ih => exact ih hn
  | next _ hm _ _ _ ih ih' => exact ih' (ih (List.nodup_cons.2 ⟨hm, hn⟩))

theorem perm_met (hr : r.catalogue.WellNamed) (h : InterfaceSearch r met names reached met') :
    met'.Perm (reached.map (·.name) ++ met) := by
  induction h with
  | done => exact .refl _
  | passed _ _ ih => exact ih
  | @next met rest met₁ met₂ name c above others _ _ hread _ _ ih ih' =>
    rw [← Reader.name_of_read? hr hread] at ih
    calc met₂.Perm (others.map (·.name) ++ met₁) := ih'
      _ |>.Perm (others.map (·.name) ++ (above.map (·.name) ++ c.name :: met)) := ih.append_left _
      _ |>.Perm (c.name :: (others.map (·.name) ++ above.map (·.name) ++ met)) := by
        rw [← List.append_assoc]
        exact List.perm_middle
      _ |>.Perm (c.name :: (above.map (·.name) ++ others.map (·.name) ++ met)) :=
        (List.perm_append_comm.append_right met).cons _
      _ |>.Perm ((c :: above ++ others).map (·.name) ++ met) := by simp

theorem read? (hr : r.catalogue.WellNamed) (h : InterfaceSearch r met names reached met') :
    ∀ d ∈ reached, r.read? d.name = some d := by
  induction h with
  | done => nofun
  | passed _ _ ih => exact ih
  | next _ _ hread _ _ ih ih' =>
    intro d hd
    rcases List.mem_append.1 hd with hd | hd
    · rcases List.mem_cons.1 hd with rfl | hd
      · exact Reader.read?_self hr hread
      · exact ih d hd
    · exact ih' d hd

/-- A search comes to the interfaces named, and from each interface to those that it names. -/
theorem complete (h : InterfaceSearch r met names reached met') :
    (∀ name ∈ names, r.isFoundational name = false → name ∈ met') ∧
      ∀ c ∈ reached, ∀ name ∈ c.interfaces, r.isFoundational name = false → name ∈ met' := by
  induction h with
  | done => exact ⟨nofun, nofun⟩
  | @passed met rest met' name reached hp hs ih =>
    refine ⟨List.forall_mem_cons.2 ⟨fun hf => ?_, ih.1⟩, ih.2⟩
    rcases hp with hp | hm
    · exact absurd (hf.symm.trans hp) Bool.false_ne_true
    · exact hs.subset_met hm
  | next _ _ hread hs hs' ih ih' =>
    have hsub := hs'.subset_met
    refine ⟨List.forall_mem_cons.2 ⟨fun _ => ?_, ih'.1⟩, fun d hd => ?_⟩
    · exact hsub (hs.subset_met List.mem_cons_self)
    · rcases List.mem_append.1 hd with hd | hd
      · rcases List.mem_cons.1 hd with rfl | hd
        · exact fun name hn hf => hsub (ih.1 name hn hf)
        · exact fun name hn hf => hsub (ih.2 d hd name hn hf)
      · exact ih'.2 d hd

/-- A search comes to an interface by way of one that is named. -/
theorem sound (h : InterfaceSearch r met names reached met') :
    ∀ d ∈ reached, ∃ name ∈ names, r.isFoundational name = false ∧
      ∃ c, r.read? name = some c ∧ ReflTransGen r.Implements c d := by
  induction h with
  | done => nofun
  | passed _ _ ih =>
    intro d hd
    obtain ⟨name, hname, hrest⟩ := ih d hd
    exact ⟨name, List.mem_cons_of_mem _ hname, hrest⟩
  | @next met rest met₁ met₂ name c above others hf _ hread _ _ ih ih' =>
    intro d hd
    rcases List.mem_append.1 hd with hd | hd
    · refine ⟨name, List.mem_cons_self, hf, c, hread, ?_⟩
      rcases List.mem_cons.1 hd with rfl | hd
      · exact .refl
      · obtain ⟨name', hname', hf', c', hread', hreach⟩ := ih d hd
        exact .head ⟨name', hname', hf', hread'⟩ hreach
    · obtain ⟨name', hname', hrest⟩ := ih' d hd
      exact ⟨name', List.mem_cons_of_mem _ hname', hrest⟩

end InterfaceSearch

/-- A search from nothing comes to the interfaces of a class, those of its interfaces, and so on. -/
theorem InterfaceSearch.mem_iff (hr : r.catalogue.WellNamed)
    (h : InterfaceSearch r [] c.interfaces reached met') :
    d ∈ reached ↔ TransGen r.Implements c d := by
  obtain ⟨hnamed, habove⟩ := h.complete
  -- nothing had been met before, so a name that is met is that of an interface come to
  have hmet (name : String) (e : ClassDecl) (hm : name ∈ met') (hread : r.read? name = some e) :
      e ∈ reached := by
    have hreached : name ∈ reached.map (·.name) := by simpa using (h.perm_met hr).mem_iff.1 hm
    obtain ⟨e', he', rfl⟩ := List.mem_map.1 hreached
    exact Option.some.inj ((h.read? hr e' he').symm.trans hread) ▸ he'
  constructor
  · intro hd
    obtain ⟨name, hname, hf, e, hread, hreach⟩ := h.sound d hd
    exact .head' ⟨name, hname, hf, hread⟩ hreach
  · intro hd
    induction hd with
    | single hstep =>
      obtain ⟨name, hname, hf, hread⟩ := hstep
      exact hmet name _ (hnamed name hname hf) hread
    | tail _ hstep ih =>
      obtain ⟨name, hname, hf, hread⟩ := hstep
      exact hmet name _ (habove _ ih name hname hf) hread

/-- The bean methods of a class's interfaces are those of the interfaces that it leads to, and each
of these interfaces is gone through once. -/
theorem methodsOfInterfaces_eq (hr : r.catalogue.WellNamed) {found : List MethodDecl}
    (h : methodsOfInterfaces r c = .ok found) :
    ∃ reached : List ClassDecl, reached.Nodup ∧ (∀ d, d ∈ reached ↔ TransGen r.Implements c d) ∧
      found = reached.flatMap (defaultMethods r) := by
  unfold methodsOfInterfaces at h
  simp only [Except.map] at h
  split at h
  · cases h
  next result hresult =>
    cases h
    obtain ⟨reached, hs, hfound⟩ := search_of_interfaceMethods hresult
    have hnames : (reached.map (·.name)).Nodup := by
      simpa using (hs.perm_met hr).nodup_iff.1 (hs.nodup_met List.nodup_nil)
    exact ⟨reached, hnames.of_map _, fun d => hs.mem_iff hr, hfound⟩

/-! ## How often a method is found -/

section Counting

variable (howns : r.catalogue.OwnsMethods) {i : ClassDecl} {m : MethodDecl}
  (hi : r.read? i.name = some i) (hn : (i.beanMethods.map (·.name)).Nodup) (hm : m ∈ i.beanMethods)

include howns hi hn hm

theorem eq_of_identity_eq (hd : r.read? d.name = some d) {x : MethodDecl} (hx : x ∈ d.beanMethods)
    (h : x.identity = m.identity) : d = i ∧ x = m := by
  obtain ⟨hdeclaring, hname⟩ := Prod.mk.inj h
  have hxd := Reader.declaringClass_of_read? howns hd x (List.mem_of_mem_filter hx)
  have hmi := Reader.declaringClass_of_read? howns hi m (List.mem_of_mem_filter hm)
  have hsame : d.name = i.name := hxd.symm.trans (hdeclaring.trans hmi)
  obtain rfl : d = i := Option.some.inj (hd.symm.trans (hsame ▸ hi))
  exact ⟨rfl, List.inj_on_of_nodup_map hn hx hm hname⟩

theorem count_identity (hd : r.read? d.name = some d) {methods : List MethodDecl}
    (hsub : methods ⊆ d.beanMethods) (hmethods : d = i → methods.Nodup) :
    (methods.map (·.identity)).count m.identity = if d = i ∧ m ∈ methods then 1 else 0 := by
  split
  next h =>
    obtain ⟨rfl, hmem⟩ := h
    have hdistinct : (methods.map (·.identity)).Nodup :=
      (hmethods rfl).map_on fun x hx y hy hxy =>
        (eq_of_identity_eq howns hi hn (hsub hy) hi (hsub hx) hxy).2
    exact List.count_eq_one_of_mem hdistinct (List.mem_map_of_mem hmem)
  next h =>
    refine List.count_eq_zero.2 fun hmem => h ?_
    obtain ⟨x, hx, hidentity⟩ := List.mem_map.1 hmem
    obtain ⟨rfl, rfl⟩ := eq_of_identity_eq howns hi hn hm hd (hsub hx) hidentity
    exact ⟨rfl, hx⟩

theorem count_beanMethods (hd : r.read? d.name = some d) :
    ((beanMethods r d).map (·.identity)).count m.identity = if d = i then 1 else 0 := by
  have hperm := perm_beanMethods r d
  rw [count_identity howns hi hn hm hd hperm.subset fun he => hperm.nodup_iff.2 (he ▸ hn.of_map _)]
  refine if_congr ⟨And.left, fun he => ⟨he, hperm.mem_iff.2 (he ▸ hm)⟩⟩ rfl rfl

theorem count_defaultMethods (hd : r.read? d.name = some d) :
    ((defaultMethods r d).map (·.identity)).count m.identity =
      if d = i ∧ m.isAbstract = false then 1 else 0 := by
  have hperm := perm_beanMethods r d
  have hsub : defaultMethods r d ⊆ d.beanMethods :=
    List.Subset.trans (List.filter_subset_self _) hperm.subset
  rw [count_identity howns hi hn hm hd hsub fun he =>
    (hperm.nodup_iff.2 (he ▸ hn.of_map _)).filter _]
  refine if_congr (and_congr_right fun he => ?_) rfl rfl
  unfold defaultMethods
  rw [List.mem_filter, hperm.mem_iff]
  simp [he, hm]

/-- A method of an interface is found once among those of different interfaces, if the interface is
one of them and the method has a body. -/
theorem count_flatMap_defaultMethods (hreached : reached.Nodup)
    (hread : ∀ d ∈ reached, r.read? d.name = some d) :
    ((reached.flatMap (defaultMethods r)).map (·.identity)).count m.identity =
      if i ∈ reached ∧ m.isAbstract = false then 1 else 0 := by
  induction reached with
  | nil => simp
  | cons d rest ih =>
    obtain ⟨hnew, hrest⟩ := List.nodup_cons.1 hreached
    rw [List.flatMap_cons, List.map_append, List.count_append,
      count_defaultMethods howns hi hn hm (hread d List.mem_cons_self),
      ih hrest fun e he => hread e (List.mem_cons_of_mem _ he)]
    by_cases he : d = i
    · obtain rfl := he
      simp [hnew]
    · simp [he, Ne.symm he]

end Counting

end Walk

end Wiring
