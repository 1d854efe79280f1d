import Wiring.Proofs.Scan

/-!
# Registering components

A component is registered under its bean name if the name is free, and passed over if the name is
taken by the same class. So the registry ends with a definition of every component, and registering
the same components again finds all of them there.
-/

namespace Wiring

/-- The definition under the bean name of the class is one of the class. -/
def Registry.Holds (r : Registry) (c : ClassDecl) : Prop :=
  ∃ d, r.get? (Scan.beanName c) = some d ∧ d.className? = some c.name

/-- The class cannot be registered as a component: its bean name is empty, or taken by a definition
of something else. -/
def Registry.Refuses (r : Registry) (c : ClassDecl) : Prop :=
  (Scan.beanName c = "" ∧ "" ∉ r.names) ∨
    ∃ d, r.get? (Scan.beanName c) = some d ∧ d.className? ≠ some c.name

/-- The registry with the component behind all others. -/
def Registry.withComponent (r : Registry) (c : ClassDecl) : Registry :=
  r.withLast (Scan.beanName c) (.ofClass c.name .scanned)

namespace Scan

/-- Components that are registered one after the other, the names that are new, and the registry
that this leads to. -/
inductive Registers : Registry → List ClassDecl → List String → Registry → Prop
  | nil (r : Registry) : Registers r [] [] r
  | held {r c rest names r'} : r.Holds c → Registers r rest names r' →
      Registers r (c :: rest) names r'
  | added {r c rest names r'} : beanName c ∉ r.names → beanName c ≠ "" →
      Registers (r.withComponent c) rest names r' → Registers r (c :: rest) (beanName c :: names) r'

section Steps

variable {r : Registry} {c : ClassDecl} {rest : List ClassDecl}

theorem register_cons_of_holds (h : r.Holds c) : register r (c :: rest) = register r rest := by
  obtain ⟨d, hd, hclass⟩ := h
  rw [register]
  simp only [hd]
  rw [if_pos (beq_iff_eq.2 hclass)]

theorem register_cons_of_refuses (h : r.Refuses c) :
    ∃ e, register r (c :: rest) = (.error e, r) := by
  rw [register]
  obtain ⟨hempty, hnew⟩ | ⟨d, hd, hclass⟩ := h
  · simp only [hempty, Registry.get?_eq_none_iff.2 hnew]
    exact ⟨_, rfl⟩
  · simp only [hd]
    rw [if_neg (by rwa [beq_iff_eq])]
    exact ⟨_, rfl⟩

theorem register_cons_of_new (hnew : beanName c ∉ r.names) (hempty : beanName c ≠ "") :
    register r (c :: rest) =
      ((register (r.withComponent c) rest).1.map (beanName c :: ·),
        (register (r.withComponent c) rest).2) := by
  have hregister : r.register (beanName c) (.ofClass c.name .scanned) = .ok (r.withComponent c) :=
    Registry.register_of_new hnew hempty _
  rw [register]
  simp only [Registry.get?_eq_none_iff.2 hnew, hregister]

theorem holds_or_refuses_or_new (r : Registry) (c : ClassDecl) :
    r.Holds c ∨ r.Refuses c ∨ (beanName c ∉ r.names ∧ beanName c ≠ "") := by
  cases hget : r.get? (beanName c) with
  | some d =>
    by_cases hclass : d.className? = some c.name
    · exact .inl ⟨d, hget, hclass⟩
    · exact .inr (.inl (.inr ⟨d, hget, hclass⟩))
  | none =>
    have hnew := Registry.get?_eq_none_iff.1 hget
    by_cases hempty : beanName c = ""
    · exact .inr (.inl (.inl ⟨hempty, hempty ▸ hnew⟩))
    · exact .inr (.inr ⟨hnew, hempty⟩)

end Steps

theorem registers_of_register {found : List ClassDecl} {names : List String} {r r' : Registry}
    (h : register r found = (.ok names, r')) : Registers r found names r' := by
  induction found generalizing r names with
  | nil =>
    cases h
    exact .nil _
  | cons c rest ih =>
    obtain hholds | hrefuses | ⟨hnew, hempty⟩ := holds_or_refuses_or_new r c
    · rw [register_cons_of_holds hholds] at h
      exact .held hholds (ih h)
    · obtain ⟨e, he⟩ := register_cons_of_refuses hrefuses
      rw [he] at h
      cases h
    · rw [register_cons_of_new hnew hempty] at h
      rcases hrest : register (r.withComponent c) rest with ⟨_ | names', r₁⟩
      · rw [hrest] at h
        cases h
      · rw [hrest] at h
        cases h
        exact .added hnew hempty (ih hrest)

/-- Registering fails at a component that the registry refuses, with those before it registered. -/
theorem refuses_of_register {found : List ClassDecl} {r r' : Registry} {e : Error}
    (h : register r found = (.error e, r')) :
    ∃ before c after names r₁, found = before ++ c :: after ∧ Registers r before names r₁ ∧
      r₁.Refuses c := by
  induction found generalizing r r' e with
  | nil => cases h
  | cons c rest ih =>
    obtain hholds | hrefuses | ⟨hnew, hempty⟩ := holds_or_refuses_or_new r c
    · rw [register_cons_of_holds hholds] at h
      obtain ⟨before, c', after, names, r₁, rfl, hbefore, hc'⟩ := ih h
      exact ⟨c :: before, c', after, names, r₁, rfl, .held hholds hbefore, hc'⟩
    · exact ⟨[], c, rest, [], r, rfl, .nil r, hrefuses⟩
    · rw [register_cons_of_new hnew hempty] at h
      rcases hrest : register (r.withComponent c) rest with ⟨e' | names', r₂⟩
      · obtain ⟨before, c', after, names, r₁, rfl, hbefore, hc'⟩ := ih hrest
        exact ⟨c :: before, c', after, _, r₁, rfl, .added hnew hempty hbefore, hc'⟩
      · rw [hrest] at h
        cases h

namespace Registers

variable {r r' : Registry} {found : List ClassDecl} {names : List String}

/-- The definitions that are new stand behind all others. -/
theorem entries (h : Registers r found names r') :
    ∃ added, r'.entries = r.entries ++ added ∧ added.map (·.1) = names ∧
      ∀ e ∈ added, ∃ c ∈ found, e = (beanName c, .ofClass c.name .scanned) := by
  induction h with
  | nil r => exact ⟨[], (List.append_nil _).symm, rfl, nofun⟩
  | held _ _ ih =>
    obtain ⟨added, hentries, hnames, hfound⟩ := ih
    refine ⟨added, hentries, hnames, fun e he => ?_⟩
    obtain ⟨c, hc, he⟩ := hfound e he
    exact ⟨c, List.mem_cons_of_mem _ hc, he⟩
  | @added r c rest names r' _ _ _ ih =>
    obtain ⟨added, hentries, hnames, hfound⟩ := ih
    refine ⟨(beanName c, .ofClass c.name .scanned) :: added, ?_, ?_, fun e he => ?_⟩
    · rw [hentries]
      exact List.append_assoc _ _ _
    · rw [List.map_cons, hnames]
    · rcases List.mem_cons.1 he with rfl | he
      · exact ⟨c, List.mem_cons_self, rfl⟩
      · obtain ⟨c', hc', he⟩ := hfound e he
        exact ⟨c', List.mem_cons_of_mem _ hc', he⟩

theorem names_eq (h : Registers r found names r') : r'.names = r.names ++ names := by
  obtain ⟨added, hentries, hnames, -⟩ := h.entries
  unfold Registry.names
  rw [hentries, List.map_append, hnames]

theorem get?_of_mem (h : Registers r found names r') {name : String} (hn : name ∈ r.names) :
    r'.get? name = r.get? name := by
  obtain ⟨added, hentries, -⟩ := h.entries
  obtain ⟨d, hd⟩ := Option.isSome_iff_exists.1 (Registry.contains_iff_mem_names.2 hn)
  rw [Registry.get?_append hentries, hd]
  rfl

theorem get?_cases (h : Registers r found names r') {name : String} {d : Definition}
    (hd : r'.get? name = some d) :
    r.get? name = some d ∨ ∃ c ∈ found, beanName c = name ∧ d.className? = some c.name := by
  obtain ⟨added, hentries, -, hfound⟩ := h.entries
  rw [Registry.get?_append hentries, Option.or_eq_some_iff] at hd
  refine hd.imp_right fun hadded => ?_
  obtain ⟨l₁, l₂, hl, -⟩ := List.lookup_eq_some_iff.1 hadded.2
  obtain ⟨c, hc, he⟩ := hfound (name, d) (hl ▸ List.mem_append_right _ List.mem_cons_self)
  obtain ⟨rfl, rfl⟩ := Prod.mk.inj he
  exact ⟨c, hc, rfl, rfl⟩

theorem nodup_and_new (h : Registers r found names r') :
    names.Nodup ∧ ∀ name ∈ names, name ∉ r.names ∧ name ≠ "" := by
  induction h with
  | nil r => exact ⟨.nil, nofun⟩
  | held _ _ ih => exact ih
  | @added r c rest names r' hnew hempty _ ih =>
    obtain ⟨hnodup, hnews⟩ := ih
    have hnames : (r.withComponent c).names = r.names ++ [beanName c] := Registry.names_withLast ..
    have hrest (name : String) (hn : name ∈ names) : name ∉ r.names ∧ name ≠ beanName c := by
      have := (hnews name hn).1
      rwa [hnames, List.mem_append, List.mem_singleton, not_or] at this
    refine ⟨List.nodup_cons.2 ⟨fun hc => (hrest _ hc).2 rfl, hnodup⟩, fun name hn => ?_⟩
    rcases List.mem_cons.1 hn with rfl | hn
    · exact ⟨hnew, hempty⟩
    · exact ⟨(hrest name hn).1, (hnews name hn).2⟩

theorem holds (h : Registers r found names r') {c : ClassDecl} (hc : c ∈ found) : r'.Holds c := by
  induction h with
  | nil r => cases hc
  | @held r c' rest names r' hholds hrest ih =>
    rcases List.mem_cons.1 hc with rfl | hc
    · obtain ⟨d, hd, hclass⟩ := hholds
      exact ⟨d, (hrest.get?_of_mem (Registry.mem_names_of_get? hd)).trans hd, hclass⟩
    · exact ih hc
  | @added r c' rest names r' hnew hempty hrest ih =>
    rcases List.mem_cons.1 hc with rfl | hc
    · have hget : (r.withComponent c).get? (beanName c) = some (.ofClass c.name .scanned) := by
        rw [Registry.get?_append rfl, Registry.get?_eq_none_iff.2 hnew]
        exact List.lookup_cons_self
      exact ⟨_, (hrest.get?_of_mem (Registry.mem_names_of_get? hget)).trans hget, rfl⟩
    · exact ih hc

end Registers

theorem register_of_holds {r : Registry} {found : List ClassDecl} (h : ∀ c ∈ found, r.Holds c) :
    register r found = (.ok [], r) := by
  induction found with
  | nil => rfl
  | cons c rest ih =>
    rw [register_cons_of_holds (h c List.mem_cons_self)]
    exact ih fun c' hc' => h c' (List.mem_cons_of_mem _ hc')

/-- Registering fails exactly if the registry refuses one of the components, or one of them has the
bean name of another class before it. -/
theorem register_fails_iff (r : Registry) (found : List ClassDecl) :
    (∃ e, (register r found).1 = .error e) ↔
      ∃ before c after, found = before ++ c :: after ∧
        (r.Refuses c ∨ ∃ b ∈ before, beanName b = beanName c ∧ b.name ≠ c.name) := by
  constructor
  · rintro ⟨e, he⟩
    have hregister : register r found = (.error e, (register r found).2) := Prod.ext he rfl
    obtain ⟨before, c, after, names, r₁, hfound, hbefore, hc⟩ := refuses_of_register hregister
    refine ⟨before, c, after, hfound, ?_⟩
    obtain ⟨hempty, hnew⟩ | ⟨d, hd, hclass⟩ := hc
    · rw [hbefore.names_eq, List.mem_append, not_or] at hnew
      exact .inl (.inl ⟨hempty, hnew.1⟩)
    · rcases hbefore.get?_cases hd with hd | ⟨b, hb, hname, hbclass⟩
      · exact .inl (.inr ⟨d, hd, hclass⟩)
      · exact .inr ⟨b, hb, hname, fun he => hclass (he ▸ hbclass)⟩
  · rintro ⟨before, c, after, rfl, hc⟩
    rcases hregister : register r (before ++ c :: after) with ⟨e | names, r'⟩
    · exact ⟨e, rfl⟩
    · exfalso
      -- had nothing failed, the bean name would stand for the class in the end
      have h := registers_of_register hregister
      obtain ⟨d, hd, hclass⟩ := h.holds (List.mem_append_right _ List.mem_cons_self)
      rcases hc with (⟨hempty, hnew⟩ | ⟨d', hd', hclass'⟩) | ⟨b, hb, hname, hne⟩
      · have hmem := Registry.mem_names_of_get? hd
        rw [hempty, h.names_eq, List.mem_append] at hmem
        exact (h.nodup_and_new.2 "" (hmem.resolve_left hnew)).2 rfl
      · rw [h.get?_of_mem (Registry.mem_names_of_get? hd'), hd'] at hd
        exact hclass' (Option.some.inj hd ▸ hclass)
      · obtain ⟨d', hd', hclass'⟩ := h.holds (List.mem_append_left _ hb)
        rw [hname, hd] at hd'
        rw [← Option.some.inj hd', hclass] at hclass'
        exact hne (Option.some.inj hclass').symm

/-- Registering components gives different names that were free and now stand behind all others, in
that order. Every component has a definition of its class then, what was there stays as it is, and
registering the components again changes nothing. It fails exactly if a bean name is empty and free,
or taken by another class, in the registry or among the components before. -/
theorem register_adds (r : Registry) (found : List ClassDecl) :
    (∀ names r', register r found = (.ok names, r') →
      names.Nodup ∧ (∀ name ∈ names, name ∉ r.names) ∧ r'.names = r.names ++ names ∧
      (∀ c ∈ found, ∃ d, r'.get? (beanName c) = some d ∧ d.className? = some c.name) ∧
      (∀ name ∈ r.names, r'.get? name = r.get? name) ∧
      register r' found = (.ok [], r')) ∧
    ((∃ e, (register r found).1 = .error e) ↔
      ∃ before c after, found = before ++ c :: after ∧
        ((beanName c = "" ∧ "" ∉ r.names) ∨
          (∃ d, r.get? (beanName c) = some d ∧ d.className? ≠ some c.name) ∨
          ∃ b ∈ before, beanName b = beanName c ∧ b.name ≠ c.name)) := by
  refine ⟨fun names r' h => ?_, ?_⟩
  · have hr := registers_of_register h
    obtain ⟨hnodup, hnew⟩ := hr.nodup_and_new
    exact ⟨hnodup, fun name hn => (hnew name hn).1, hr.names_eq, fun c hc => hr.holds hc,
      fun name hn => hr.get?_of_mem hn, register_of_holds fun c hc => hr.holds hc⟩
  · rw [register_fails_iff]
    simp only [Registry.Refuses, or_assoc]

/-- A component that is a root already, one with a bean name of its own, and one that is found
twice. -/
def wares : List ClassDecl :=
  [{ name := "shop.Clock" },
    { name := "shop.Till", marks := { declared := [
      { type := AnnotationType.component
        attributes := Table.empty.insert "value" (.text "register") }] } },
    { name := "shop.URLMap" }, { name := "shop.URLMap" }]

/-- A registry with the definition of a root. -/
def opened : Registry := { entries := [("clock", .ofClass "shop.Clock" .root)] }

theorem register_adds_wares : ∃ r',
    register opened wares = (.ok ["register", "URLMap"], r') ∧
    r'.names = ["clock", "register", "URLMap"] ∧ r'.get? "clock" = opened.get? "clock" ∧
    register r' wares = (.ok [], r') ∧
    ∃ e, (register opened (wares ++ [{ name := "other.Clock" }])).1 = .error e := by
  have h : register opened wares = (.ok ["register", "URLMap"], _) := rfl
  obtain ⟨-, -, hnames, -, hkept, hagain⟩ := (register_adds opened wares).1 _ _ h
  refine ⟨_, h, hnames, hkept "clock" List.mem_cons_self, hagain, (register_adds _ _).2.2 ?_⟩
  exact ⟨wares, { name := "other.Clock" }, [], rfl, .inr (.inl
    ⟨.ofClass "shop.Clock" .root, by decide +kernel, by decide⟩)⟩

end Scan

end Wiring
