import Mathlib.Logic.Relation
import Wiring.Proofs.Count
import Wiring.Proofs.Loading
import Wiring.Proofs.Walk.Nodes

/-!
# Which classes loading skips

A class that is skipped is so by its own conditions, or because all its importers are skipped. While
the importers of a class are looked through, the class counts as not skipped, and what is decided
about others meanwhile stays decided. So the converse holds but on a circle of importers, through a
class that its own conditions skip: there it depends on where the search comes in.
-/

namespace Wiring

open Relation

namespace Load

section Skipping

variable (ctx : Context) (env : Environment) (known : List ConfigurationClass)

/-- The conditions of the class itself say that it is skipped. -/
def OwnSkips (c : ConfigurationClass) : Prop :=
  ctx.skips env (.ofClass c.decl) (some .register) = .ok true

/-- The second class is noted as an importer of the first. -/
def Importer (x y : String) : Prop := ∃ c ∈ known, c.name = x ∧ y ∈ c.importedBy

/-- The class lies on a circle of importers, together with one whose own conditions skip it. -/
def OnSkippedCircle (x : String) : Prop :=
  ∃ k ∈ known, OwnSkips ctx env k ∧ TransGen (Importer known) x k.name ∧
    TransGen (Importer known) k.name x

/-- The class is skipped by its own conditions, or because all its importers are, and so on. -/
inductive Rejected : String → Prop
  | own {c : ConfigurationClass} (hc : c ∈ known) (h : OwnSkips ctx env c) : Rejected c.name
  | importers {c : ConfigurationClass} (hc : c ∈ known) (hi : c.importedBy ≠ [])
    (h : ∀ y ∈ c.importedBy, Rejected y) : Rejected c.name

/-- Why a known class may be decided on, where others are decided on already. -/
def Reason (ds : List (String × Bool)) (c : ConfigurationClass) : Bool → Prop
  | true => OwnSkips ctx env c ∨ c.importedBy ≠ [] ∧ ∀ y ∈ c.importedBy, ds.lookup y = some true
  | false => ¬ OwnSkips ctx env c ∧
      (c.importedBy = [] ∨
        (∃ y ∈ c.importedBy, known.find? (·.name == y) = none ∨ ds.lookup y = some false) ∨
        OnSkippedCircle ctx env known c.name)

/-- The class is imported, and all its importers are among the skipped classes. -/
def Unsupported (skipped : List String) (c : ConfigurationClass) : Prop :=
  c.importedBy ≠ [] ∧ ∀ y ∈ c.importedBy, y ∈ skipped

/-- What looking for decisions has made of those that there were: they stand, and there is a reason
for each new one. -/
structure Decides (ds ds' : List (String × Bool)) : Prop where
  keeps : ∀ x b, ds.lookup x = some b → ds'.lookup x = some b
  reason : ∀ x b, ds.lookup x = none → ds'.lookup x = some b →
    ∃ c ∈ known, c.name = x ∧ Reason ctx env known ds' c b
  rejected : (∀ x, ds.lookup x = some true → Rejected ctx env known x) →
    ∀ x, ds'.lookup x = some true → Rejected ctx env known x

/-- A search that has come to an answer. New decisions are about classes within its reach. Where it
says that a class is skipped, a class that it decides not to skip is reached from one that its own
conditions skip. -/
structure Search (reach : String → Prop) (ds : List (String × Bool)) (answer : Bool)
    (ds' : List (String × Bool)) : Prop extends Decides ctx env known ds ds' where
  reached : ∀ x, ds.lookup x = none → ds'.lookup x ≠ none → reach x
  through : answer = true → ∀ x, ds.lookup x = none → ds'.lookup x = some false →
    ∃ k ∈ known, OwnSkips ctx env k ∧ reach k.name ∧ TransGen (Importer known) k.name x

end Skipping

variable {ctx : Context} {env : Environment} {known : List ConfigurationClass}
  {ds ds₁ ds₂ : List (String × Bool)} {c : ConfigurationClass} {b answer : Bool}
  {reach : String → Prop}

/-! ## Decisions -/

theorem lookup_decision_of_ne {name x : String} (h : x ≠ name) (skipped : Bool)
    (ds : List (String × Bool)) : ((name, skipped) :: ds).lookup x = ds.lookup x := by
  rw [List.lookup_cons, beq_false_of_ne h]

theorem Reason.mono (h : Reason ctx env known ds c b)
    (hk : ∀ x b, ds.lookup x = some b → ds₁.lookup x = some b) : Reason ctx env known ds₁ c b := by
  cases b with
  | true => exact h.imp_right fun hi => ⟨hi.1, fun y hy => hk y true (hi.2 y hy)⟩
  | false =>
    refine ⟨h.1, h.2.imp_right (Or.imp_left ?_)⟩
    rintro ⟨y, hy, hknown⟩
    exact ⟨y, hy, hknown.imp_right (hk y false)⟩

namespace Decides

theorem refl (ds : List (String × Bool)) : Decides ctx env known ds ds :=
  ⟨fun _ _ h => h, fun _ _ hn hs => (Option.some_ne_none _ (hs.symm.trans hn)).elim, id⟩

theorem trans (h : Decides ctx env known ds ds₁) (h' : Decides ctx env known ds₁ ds₂) :
    Decides ctx env known ds ds₂ where
  keeps x b hb := h'.keeps x b (h.keeps x b hb)
  reason x b hn hb := by
    cases hx : ds₁.lookup x with
    | none => exact h'.reason x b hx hb
    | some b' =>
      obtain rfl := Option.some.inj ((h'.keeps x b' hx).symm.trans hb)
      obtain ⟨c, hc, hname, hreason⟩ := h.reason x b' hn hx
      exact ⟨c, hc, hname, hreason.mono h'.keeps⟩
  rejected hr := h'.rejected (h.rejected hr)

end Decides

namespace Search

theorem refl (ds : List (String × Bool)) : Search ctx env known reach ds answer ds where
  toDecides := .refl ds
  reached _ hn hs := (hs hn).elim
  through _ _ hn hs := (Option.some_ne_none _ (hs.symm.trans hn)).elim

theorem mono {reach' : String → Prop} (h : Search ctx env known reach ds answer ds₁)
    (hr : ∀ x, reach x → reach' x) : Search ctx env known reach' ds answer ds₁ where
  toDecides := h.toDecides
  reached x hn hs := hr x (h.reached x hn hs)
  through ha x hn hs :=
    let ⟨k, hk, hown, hreach, hpath⟩ := h.through ha x hn hs
    ⟨k, hk, hown, hr _ hreach, hpath⟩

theorem trans (h : Search ctx env known reach ds true ds₁)
    (h' : Search ctx env known reach ds₁ answer ds₂) :
    Search ctx env known reach ds answer ds₂ where
  toDecides := h.toDecides.trans h'.toDecides
  reached x hn hs := by
    cases hx : ds₁.lookup x with
    | none => exact h'.reached x hx hs
    | some b => exact h.reached x hn (hx ▸ Option.some_ne_none b)
  through ha x hn hs := by
    cases hx : ds₁.lookup x with
    | none => exact h'.through ha x hx hs
    | some b =>
      obtain rfl := Option.some.inj ((h'.keeps x b hx).symm.trans hs)
      exact h.through rfl x hn hx

end Search

/-- A reason stands when a class that has counted as not skipped is decided on, unless that is what
it rests on. -/
theorem Reason.decided {d : ConfigurationClass} {b' : Bool} (h : Reason ctx env known ds d b')
    (hc : ds.lookup c.name = some false)
    (hcircle : b' = false → b = true → c.name ∈ d.importedBy →
      OnSkippedCircle ctx env known d.name) :
    Reason ctx env known ((c.name, b) :: ds) d b' := by
  cases b' with
  | true =>
    refine h.imp_right fun hi => ⟨hi.1, fun y hy => ?_⟩
    have hne : y ≠ c.name := by
      rintro rfl
      rw [hi.2 _ hy] at hc
      cases hc
    rw [lookup_decision_of_ne hne]
    exact hi.2 y hy
  | false =>
    obtain ⟨hown, hnone | ⟨y, hy, hunknown | hfalse⟩ | hon⟩ := h
    · exact ⟨hown, .inl hnone⟩
    · exact ⟨hown, .inr (.inl ⟨y, hy, .inl hunknown⟩)⟩
    · by_cases hne : y = c.name
      · subst hne
        cases b with
        | true => exact ⟨hown, .inr (.inr (hcircle rfl rfl hy))⟩
        | false => exact ⟨hown, .inr (.inl ⟨c.name, hy, .inr List.lookup_cons_self⟩)⟩
      · refine ⟨hown, .inr (.inl ⟨y, hy, .inr ?_⟩)⟩
        rw [lookup_decision_of_ne hne]
        exact hfalse
    · exact ⟨hown, .inr (.inr hon)⟩

theorem Search.through_skipped {u : Bool} {x : String} (hc : c ∈ known)
    (h : Search ctx env known (TransGen (Importer known) c.name) ((c.name, false) :: ds) u ds₁)
    (hu : u = true ∨ OwnSkips ctx env c) (hne : x ≠ c.name) (hn : ds.lookup x = none)
    (hs : ds₁.lookup x = some false) :
    ∃ k ∈ known, OwnSkips ctx env k ∧ ReflTransGen (Importer known) c.name k.name ∧
      TransGen (Importer known) k.name x := by
  rw [← lookup_decision_of_ne hne false ds] at hn
  rcases hu with hu | hown
  · obtain ⟨k, hk, hown, hreach, hpath⟩ := h.through hu x hn hs
    exact ⟨k, hk, hown, hreach.to_reflTransGen, hpath⟩
  · exact ⟨c, hc, hown, .refl, h.reached x hn (hs ▸ Option.some_ne_none false)⟩

/-- The search among the importers of a class, which has counted as not skipped meanwhile, and the
decision on the class. -/
theorem Search.conclude {u : Bool} (hc : c ∈ known) (hnew : ds.lookup c.name = none)
    (h : Search ctx env known (TransGen (Importer known) c.name) ((c.name, false) :: ds) u ds₁)
    (hr : Reason ctx env known ds₁ c b) (hu : b = true → u = true ∨ OwnSkips ctx env c) :
    Search ctx env known (ReflTransGen (Importer known) c.name) ds b ((c.name, b) :: ds₁) := by
  have hbefore {x : String} (hne : x ≠ c.name) :
      ((c.name, false) :: ds).lookup x = ds.lookup x := lookup_decision_of_ne hne _ _
  have hafter {x : String} (hne : x ≠ c.name) :
      ((c.name, b) :: ds₁).lookup x = ds₁.lookup x := lookup_decision_of_ne hne _ _
  have hguard : ds₁.lookup c.name = some false := h.keeps _ _ List.lookup_cons_self
  have hrejected (hrej : ∀ x, ds.lookup x = some true → Rejected ctx env known x) (x : String)
      (hx : ds₁.lookup x = some true) : Rejected ctx env known x := by
    refine h.rejected (fun y hy => hrej y ?_) x hx
    have hne : y ≠ c.name := by
      rintro rfl
      cases hy.symm.trans List.lookup_cons_self
    exact hbefore hne ▸ hy
  refine ⟨⟨fun x b' hb => ?_, fun x b' hn hb => ?_, fun hrej x hx => ?_⟩, fun x hn hs => ?_,
    fun hb x hn hs => ?_⟩
  · have hne : x ≠ c.name := fun he => Option.some_ne_none b' (hb.symm.trans (he ▸ hnew))
    rw [hafter hne]
    exact h.keeps x b' (hbefore hne ▸ hb)
  · by_cases hne : x = c.name
    · subst hne
      obtain rfl := Option.some.inj (List.lookup_cons_self.symm.trans hb)
      exact ⟨c, hc, rfl, hr.decided hguard fun hf ht => absurd (hf.symm.trans ht) nofun⟩
    · rw [hafter hne] at hb
      obtain ⟨d, hd, rfl, hreason⟩ := h.reason x b' (hbefore hne ▸ hn) hb
      refine ⟨d, hd, rfl, hreason.decided hguard fun hf ht himports => ?_⟩
      obtain ⟨k, hk, hown, hreach, hpath⟩ := h.through_skipped hc (hu ht) hne hn (hf ▸ hb)
      exact ⟨k, hk, hown, .head' ⟨d, hd, rfl, himports⟩ hreach, hpath⟩
  · by_cases hne : x = c.name
    · subst hne
      obtain rfl := Option.some.inj (List.lookup_cons_self.symm.trans hx)
      rcases hr with hown | ⟨hi, hall⟩
      · exact .own hc hown
      · exact .importers hc hi fun y hy => hrejected hrej y (hall y hy)
    · exact hrejected hrej x (hafter hne ▸ hx)
  · by_cases hne : x = c.name
    · exact hne ▸ .refl
    · exact (h.reached x (hbefore hne ▸ hn) (hafter hne ▸ hs)).to_reflTransGen
  · have hne : x ≠ c.name := by
      rintro rfl
      rw [List.lookup_cons_self, hb] at hs
      cases hs
    exact h.through_skipped hc (hu hb) hne hn (hafter hne ▸ hs)

/-! ## The search -/

/-- The answer of looking through importers, in terms of what has been decided then. -/
def Answers (known : List ConfigurationClass) (names : List String) (ds : List (String × Bool)) :
    Bool → Prop
  | true => ∀ y ∈ names, ds.lookup y = some true
  | false => ∃ y ∈ names, known.find? (·.name == y) = none ∨ ds.lookup y = some false

/-- What asking whether a class is skipped has made of the state. -/
structure Asked (ctx : Context) (env : Environment) (known : List ConfigurationClass)
    (c : ConfigurationClass) (s : LoadState) (answer : Bool) (s' : LoadState) : Prop where
  search : Search ctx env known (ReflTransGen (Importer known) c.name)
    s.decisions answer s'.decisions
  decided : s'.decisions.lookup c.name = some answer
  report : s'.report = s.report

/-- The number of known classes that have not been decided on. -/
def undecided (known : List ConfigurationClass) (ds : List (String × Bool)) : Nat :=
  known.countP fun k => (ds.lookup k.name).isNone

theorem undecided_anti (h : ∀ x b, ds.lookup x = some b → ds₁.lookup x = some b) :
    undecided known ds₁ ≤ undecided known ds := by
  refine List.countP_mono_left fun k _ hk => ?_
  rw [Option.isNone_iff_eq_none] at *
  exact Option.eq_none_iff_forall_ne_some.2 fun b hb =>
    Option.some_ne_none b ((h _ b hb).symm.trans hk)

theorem undecided_cons_lt (hc : c ∈ known) (hnew : ds.lookup c.name = none) :
    undecided known ((c.name, b) :: ds) < undecided known ds := by
  refine countP_lt_countP hc (fun k _ hk => ?_) ?_ (Option.isNone_iff_eq_none.2 hnew)
  · by_cases hne : k.name = c.name
    · rw [hne, List.lookup_cons_self] at hk
      cases hk
    · rwa [lookup_decision_of_ne hne] at hk
  · rw [List.lookup_cons_self]
    rfl

/-- Asking fails because the conditions of some class fail, unless more classes are undecided than
may be asked about one from the other. -/
def Fails (ctx : Context) (env : Environment) (known : List ConfigurationClass) (bound : Nat)
    (s : LoadState) (e : Error) (_ : LoadState) : Prop :=
  undecided known s.decisions < bound →
    ∃ k ∈ known, ctx.skips env (.ofClass k.decl) (some .register) = .error e

/-- Looking through importers of a class, from what comes of asking about each of them. -/
theorem leads_importers {ask : ConfigurationClass → Load Bool} (hc : c ∈ known)
    {bound : Nat} (hask : ∀ k ∈ known, ∀ s,
      Leads (ask k) s (Asked ctx env known k s) (Fails ctx env known bound s))
    {names : List String} (hnames : names ⊆ c.importedBy) (s : LoadState) :
    Leads (allSkipped (fun importer =>
        match known.find? (·.name == importer) with
        | some k => ask k
        | none => pure false) names) s
      (fun u s' => Search ctx env known (TransGen (Importer known) c.name) s.decisions u
        s'.decisions ∧ Answers known names s'.decisions u ∧ s'.report = s.report)
      (Fails ctx env known bound s) := by
  induction names generalizing s with
  | nil => exact ⟨.refl _, fun _ hy => absurd hy List.not_mem_nil, rfl⟩
  | cons y rest ih =>
    unfold allSkipped
    rw [leads_bind]
    have hy : Importer known c.name y := ⟨c, hc, rfl, hnames List.mem_cons_self⟩
    split
    next k hk =>
      have hname := List.find?_some hk
      obtain rfl : k.name = y := eq_of_beq hname
      refine (hask k (List.mem_of_find?_eq_some hk) s).imp fun b s' hd => ?_
      obtain ⟨hsearch, hdecided, hreport⟩ := hd
      replace hsearch := hsearch.mono fun x hx => TransGen.head' hy hx
      cases b with
      | false => exact ⟨hsearch, ⟨k.name, List.mem_cons_self, .inr hdecided⟩, hreport⟩
      | true =>
        refine (ih (List.subset_of_cons_subset hnames) s').mono (fun u s'' hd => ?_)
          fun _ _ hf hlt => hf (Nat.lt_of_le_of_lt (undecided_anti hsearch.keeps) hlt)
        obtain ⟨hrest, hanswer, hreport'⟩ := hd
        refine ⟨hsearch.trans hrest, ?_, hreport'.trans hreport⟩
        cases u with
        | true =>
          intro z hz
          rcases List.mem_cons.1 hz with rfl | hz
          · exact hrest.keeps _ _ hdecided
          · exact hanswer z hz
        | false =>
          obtain ⟨z, hz, hunskipped⟩ := hanswer
          exact ⟨z, List.mem_cons_of_mem _ hz, hunskipped⟩
    next hk => exact ⟨.refl _, ⟨y, List.mem_cons_self, .inl hk⟩, rfl⟩

theorem leads_search (bound : Nat) (hc : c ∈ known) (s : LoadState) :
    Leads (skips ctx env known bound c) s (Asked ctx env known c s)
      (Fails ctx env known bound s) := by
  induction bound generalizing c s with
  | zero => exact fun hlt => absurd hlt (Nat.not_lt_zero _)
  | succ bound ih =>
    unfold skips
    rw [leads_bind, leads_get]
    split
    next b hb => exact ⟨.refl _, hb, rfl⟩
    next hnew =>
      rw [leads_bind, leads_noteDecision]
      extract_lets note conclude
      have hconclude (u : Bool) (s' : LoadState)
          (hsearch : Search ctx env known (TransGen (Importer known) c.name)
            ((c.name, false) :: s.decisions) u s'.decisions)
          (hanswer : c.importedBy = [] ∧ u = false ∨
            c.importedBy ≠ [] ∧ Answers known c.importedBy s'.decisions u)
          (hreport : s'.report = s.report) :
          Leads (conclude u) s' (Asked ctx env known c s) (Fails ctx env known (bound + 1) s) := by
        have hnoted (b : Bool) (hr : Reason ctx env known s'.decisions c b)
            (hu : b = true → u = true ∨ OwnSkips ctx env c) :
            Leads (note b) s' (Asked ctx env known c s) (Fails ctx env known (bound + 1) s) := by
          exact ⟨.conclude hc hnew hsearch hr hu, List.lookup_cons_self, hreport⟩
        unfold conclude
        split
        next hu =>
          subst hu
          rcases hanswer with ⟨-, hu⟩ | ⟨hi, hall⟩
          · cases hu
          · exact hnoted true (.inr ⟨hi, hall⟩) fun _ => .inl rfl
        next hu =>
          rw [Bool.not_eq_true] at hu
          subst hu
          rw [leads_bind, leads_ofExcept]
          refine ⟨fun skipped hs => hnoted skipped ?_ fun ht => .inr (hs.trans (congrArg _ ht)),
            fun e he _ => ⟨c, hc, he⟩⟩
          cases skipped with
          | true => exact .inl hs
          | false =>
            refine ⟨fun hown => ?_, hanswer.imp And.left fun hi => .inl hi.2⟩
            cases hown.symm.trans hs
      split
      next hi =>
        rw [leads_bind]
        refine (leads_importers hc (fun k hk s' => ih hk s') (List.Subset.refl _) _).mono
          (fun u s' hd => ?_) fun _ _ hf hlt => hf ?_
        · obtain ⟨hsearch, hanswer, hreport⟩ := hd
          exact hconclude u s' hsearch (.inr ⟨ConfigurationClass.isImported_iff.1 hi, hanswer⟩)
            hreport
        · exact Nat.lt_of_lt_of_le (undecided_cons_lt hc hnew) (Nat.le_of_lt_succ hlt)
      next hi =>
        rw [pure_bind]
        have hnone : c.importedBy = [] := by
          rwa [ConfigurationClass.isImported_iff, not_not] at hi
        exact hconclude false _ (.refl _) (.inl ⟨hnone, rfl⟩) rfl

/-! ## Loading a batch -/

/-- No decision has been made, and no class has been skipped. -/
def Steady (s s' : LoadState) : Prop :=
  s'.decisions = s.decisions ∧ s'.report.skippedClasses = s.report.skippedClasses

/-- How far the classes of a batch have been looked at, of which some are left. -/
structure Underway (ctx : Context) (env : Environment) (known batch rest : List ConfigurationClass)
    (s : LoadState) : Prop where
  decides : Decides ctx env known [] s.decisions
  skipped : ∀ x ∈ s.report.skippedClasses, s.decisions.lookup x = some true
  decided : ∀ c ∈ batch, c ∈ rest ∨ ∃ b, s.decisions.lookup c.name = some b ∧
    (b = true → c.name ∈ s.report.skippedClasses)

theorem Underway.steady {batch rest : List ConfigurationClass} {s s' : LoadState}
    (h : Underway ctx env known batch rest s) (hs : Steady s s') :
    Underway ctx env known batch rest s' :=
  ⟨hs.1 ▸ h.decides, hs.1 ▸ hs.2 ▸ h.skipped, hs.1 ▸ hs.2 ▸ h.decided⟩

/-- A class of the batch has been decided on. -/
theorem Underway.asked {batch rest : List ConfigurationClass} {s s' : LoadState}
    (h : Underway ctx env known batch (c :: rest) s) (ha : Asked ctx env known c s b s') :
    Underway ctx env known batch rest
      { s' with
        report.skippedClasses := s'.report.skippedClasses ++ if b then [c.name] else [] } where
  decides := h.decides.trans ha.search.toDecides
  skipped x hx := by
    rcases List.mem_append.1 hx with hx | hx
    · exact ha.search.keeps x true (h.skipped x (ha.report ▸ hx))
    · cases b with
      | true => exact List.mem_singleton.1 hx ▸ ha.decided
      | false => cases hx
  decided d hd := by
    rcases h.decided d hd with hd | ⟨b', hb, hskipped⟩
    · rcases List.mem_cons.1 hd with rfl | hd
      · refine .inr ⟨b, ha.decided, fun hb => List.mem_append_right _ ?_⟩
        rw [if_pos hb]
        exact List.mem_singleton_self _
      · exact .inl hd
    · exact .inr ⟨b', ha.search.keeps _ _ hb, fun ht =>
        List.mem_append_left _ (ha.report ▸ hskipped ht)⟩

theorem underway_loadClass {batch rest : List ConfigurationClass} {s : LoadState} (hc : c ∈ known)
    (h : Underway ctx env known batch (c :: rest) s) :
    Leads (loadClass ctx env known c) s (fun _ s' => Underway ctx env known batch rest s')
      fun _ _ => True := by
  refine leads_loadClass ((leads_search _ hc s).mono (fun b s' ha => ⟨?_, ?_⟩) fun _ _ _ => trivial)
  · rintro rfl
    exact (h.asked ha).steady ⟨rfl, rfl⟩
  · rintro rfl s'' hb -
    exact (h.asked ha).steady ⟨hb.decisions, hb.skipped.trans (List.append_nil _).symm⟩

end Load

namespace World

open Load

variable {ctx : Context} {known batch : List ConfigurationClass} {w w' : World}
  {report : LoadReport}

theorem decides_of_load (hb : batch ⊆ known) (h : w.load ctx batch known = (.ok report, w')) :
    ∃ ds, Decides ctx w.environment known [] ds ∧
      (∀ x ∈ report.skippedClasses, ds.lookup x = some true) ∧
      ∀ c ∈ batch, ∃ b, ds.lookup c.name = some b ∧
        (b = true → c.name ∈ report.skippedClasses) := by
  have hl : Leads (batch.forM (loadClass ctx w.environment known)) { registry := w.registry }
      (fun _ s => Underway ctx w.environment known batch [] s) fun _ _ => True :=
    Leads.forM (Underway ctx w.environment known batch)
      ⟨.refl _, nofun, fun _ hc => .inl hc⟩ fun c rest s hs hu =>
        underway_loadClass (hb (hs.subset List.mem_cons_self)) hu
  obtain ⟨s, hunderway, rfl, -⟩ := exists_of_load hl h
  exact ⟨s.decisions, hunderway.decides, hunderway.skipped, fun c hc =>
    (hunderway.decided c hc).resolve_left List.not_mem_nil⟩

section Consistency

variable (hn : (known.map (·.name)).Nodup) (hb : batch.Perm known)
  (h : w.load ctx batch known = (.ok report, w'))

include hn hb h

/-- What is skipped and what the importers are agree, but for circles. -/
theorem skipped_of_load {c : ConfigurationClass} (hc : c ∈ known) :
    (OwnSkips ctx w.environment c → c.name ∈ report.skippedClasses) ∧
    (c.name ∈ report.skippedClasses →
      OwnSkips ctx w.environment c ∨ Unsupported report.skippedClasses c) ∧
    (Unsupported report.skippedClasses c →
      c.name ∈ report.skippedClasses ∨ OnSkippedCircle ctx w.environment known c.name) := by
  obtain ⟨ds, hds, hskipped, hdecided⟩ := decides_of_load hb.subset h
  have hmem (d : ConfigurationClass) (hd : d ∈ known) (hl : ds.lookup d.name = some true) :
      d.name ∈ report.skippedClasses := by
    obtain ⟨b, hb', hin⟩ := hdecided d (hb.mem_iff.2 hd)
    exact hin (Option.some.inj (hb'.symm.trans hl))
  have hreason (b : Bool) (hl : ds.lookup c.name = some b) :
      Reason ctx w.environment known ds c b := by
    obtain ⟨d, hd, hname, hr⟩ := hds.reason c.name b rfl hl
    exact List.inj_on_of_nodup_map hn hd hc hname ▸ hr
  obtain ⟨b, hl, hin⟩ := hdecided c (hb.mem_iff.2 hc)
  refine ⟨fun hown => ?_, fun hc' => ?_, fun hall => ?_⟩
  · cases b with
    | true => exact hin rfl
    | false => exact absurd hown (hreason false hl).1
  · refine (hreason true (hskipped c.name hc')).imp_right fun hi => ⟨hi.1, fun y hy => ?_⟩
    obtain ⟨d, hd, rfl, -⟩ := hds.reason y true rfl (hi.2 y hy)
    exact hmem d hd (hi.2 _ hy)
  · cases b with
    | true => exact .inl (hin rfl)
    | false =>
      obtain ⟨-, hnone | ⟨y, hy, hunskipped⟩ | hon⟩ := hreason false hl
      · exact absurd hnone hall.1
      · have hy' := hskipped y (hall.2 y hy)
        obtain ⟨d, hd, rfl, -⟩ := hds.reason y true rfl hy'
        rcases hunskipped with hunknown | hfalse
        · exact absurd (beq_self_eq_true d.name) (List.find?_eq_none.1 hunknown d hd)
        · cases hy'.symm.trans hfalse
      · exact .inr hon

/-- Where no circle is in reach, the classes that are skipped are those that there is a reason for,
whatever the order of the batch. -/
theorem skipped_iff_rejected {x : String}
    (hcircle : ∀ y, ReflTransGen (Importer known) x y →
      ¬ OnSkippedCircle ctx w.environment known y) :
    x ∈ report.skippedClasses ↔ Rejected ctx w.environment known x := by
  constructor
  · intro hx
    obtain ⟨ds, hds, hskipped, -⟩ := decides_of_load hb.subset h
    exact hds.rejected nofun x (hskipped x hx)
  · intro hx
    induction hx with
    | own hc hown => exact (skipped_of_load hn hb h hc).1 hown
    | @importers c hc hi _ ih =>
      have hall : Unsupported report.skippedClasses c :=
        ⟨hi, fun y hy => ih y hy fun z hz => hcircle z (.head ⟨c, hc, rfl, hy⟩ hz)⟩
      exact ((skipped_of_load hn hb h hc).2.2 hall).resolve_right (hcircle c.name .refl)

end Consistency

/-- The classes that walks have stored are skipped in loading if their own conditions say so, and
else only if they are imported and all their importers are skipped. If all are, the class is
skipped, unless it lies on a circle of importers with a class that its own conditions skip. Where no
such circle is in reach, the order of the batch does not matter. -/
theorem skipping_of_load {t : WalkState} (ht : Walk.Reached ctx t)
    (hb : batch.Perm t.classes) (h : w.load ctx batch t.classes = (.ok report, w')) :
    (∀ c ∈ t.classes,
      (OwnSkips ctx w.environment c → c.name ∈ report.skippedClasses) ∧
      (c.name ∈ report.skippedClasses →
        OwnSkips ctx w.environment c ∨ Unsupported report.skippedClasses c) ∧
      (Unsupported report.skippedClasses c →
        c.name ∈ report.skippedClasses ∨
          OnSkippedCircle ctx w.environment t.classes c.name)) ∧
    ∀ batch' report' w'', batch'.Perm t.classes →
      w.load ctx batch' t.classes = (.ok report', w'') → ∀ x,
        (∀ y, ReflTransGen (Importer t.classes) x y →
          ¬ OnSkippedCircle ctx w.environment t.classes y) →
        (x ∈ report.skippedClasses ↔ x ∈ report'.skippedClasses) := by
  have hn : (t.classes.map (·.name)).Nodup := (Walk.sound_of_reached ht).nodup
  refine ⟨fun c hc => skipped_of_load hn hb h hc, fun batch' report' w'' hb' h' x hcircle => ?_⟩
  rw [skipped_iff_rejected hn hb h hcircle, skipped_iff_rejected hn hb' h' hcircle]

/-- A class that imports two others, one of which imports it in turn by a deferred selector. The
conditions of the class itself skip it, and so do those of the root that imports it. -/
def roundabout : Descriptor :=
  { classes :=
      [{ name := "Root",
          marks :=
            { declared :=
                [.naming AnnotationType.configuration [],
                  .naming AnnotationType.conditional ["Never"],
                  .naming AnnotationType.importing ["First"]] } },
        { name := "First",
          marks :=
            { declared :=
                [.naming AnnotationType.configuration [],
                  .naming AnnotationType.conditional ["Never"],
                  .naming AnnotationType.importing ["Other", "Second"]] } },
        { name := "Other", marks := { declared := [.naming AnnotationType.configuration []] } },
        { name := "Second",
          marks :=
            { declared :=
                [.naming AnnotationType.configuration [],
                  .naming AnnotationType.importing ["LaterFirst"]] } }]
    plugins :=
      [.condition "Never" (some false) none none (some .register) none false,
        .deferredSelector "LaterFirst" ["First"] none none false] }

theorem load_roundabout : ∃ ctx w t report w' c,
    Context.ofDescriptor roundabout "." { workingDirectory := [], files := [] } Table.empty =
      .ok (ctx, w) ∧
    t = (({ world := w } : WalkState).parse ctx [("root", "Root")]).2 ∧
    (({ world := w } : WalkState).parse ctx [("root", "Root")]).1 = .ok () ∧
    t.world.load ctx t.classes t.classes = (.ok report, w') ∧ c ∈ t.classes ∧
    Unsupported report.skippedClasses c ∧ c.name ∉ report.skippedClasses := by
  have h : Context.ofDescriptor roundabout "." { workingDirectory := [], files := [] } Table.empty =
    .ok (_, _) := rfl
  obtain ⟨ctx, w, t, h, ht, hok, hskipped, hc⟩ : ∃ ctx w t,
      Context.ofDescriptor roundabout "." { workingDirectory := [], files := [] } Table.empty =
        .ok (ctx, w) ∧
      t = (({ world := w } : WalkState).parse ctx [("root", "Root")]).2 ∧
      (({ world := w } : WalkState).parse ctx [("root", "Root")]).1 = .ok () ∧
      (t.world.load ctx t.classes t.classes).1.toOption.map (·.skippedClasses) =
        some ["Other", "First", "Root"] ∧
      (t.stored? "Second").map (·.importedBy) = some ["First"] :=
    ⟨_, _, _, h, rfl, by decide +kernel, by decide +kernel, by decide +kernel⟩
  obtain ⟨c, hc, himporters⟩ := Option.map_eq_some_iff.1 hc
  obtain ⟨hmem, hname⟩ := WalkState.mem_of_stored? hc
  rcases hl : t.world.load ctx t.classes t.classes with ⟨_ | report, w'⟩
  · rw [hl] at hskipped
    cases hskipped
  · rw [hl] at hskipped
    have hreport : report.skippedClasses = ["Other", "First", "Root"] := Option.some.inj hskipped
    refine ⟨ctx, w, t, report, w', c, h, ht, hok, hl, hmem, ?_, ?_⟩
    · unfold Unsupported
      rw [hreport, himporters]
      decide
    · rw [hreport, hname]
      decide

/-- The only importer of a class is skipped, and the class is not. -/
theorem skipping_roundabout : ∃ ctx w t report w',
    Context.ofDescriptor roundabout "." { workingDirectory := [], files := [] } Table.empty =
      .ok (ctx, w) ∧
    ({ world := w } : WalkState).parse ctx [("root", "Root")] = (.ok (), t) ∧
    t.world.load ctx t.classes t.classes = (.ok report, w') ∧
    ¬ ∀ c ∈ t.classes, c.name ∈ report.skippedClasses ↔
      OwnSkips ctx t.world.environment c ∨ Unsupported report.skippedClasses c := by
  obtain ⟨ctx, w, t, report, w', c, h, ht, hok, hl, hc, hall, hnot⟩ := load_roundabout
  refine ⟨ctx, w, t, report, w', h, Prod.ext hok ht.symm, hl, fun hiff => ?_⟩
  exact hnot ((hiff c hc).2 (.inr hall))

theorem skipping_of_load_roundabout : ∃ ctx w t report w',
    Context.ofDescriptor roundabout "." { workingDirectory := [], files := [] } Table.empty =
      .ok (ctx, w) ∧
    ({ world := w } : WalkState).parse ctx [("root", "Root")] = (.ok (), t) ∧
    t.world.load ctx t.classes t.classes = (.ok report, w') ∧
    ∃ c ∈ t.classes, OnSkippedCircle ctx t.world.environment t.classes c.name := by
  obtain ⟨ctx, w, t, report, w', c, h, ht, hok, hl, hc, hall, hnot⟩ := load_roundabout
  have hreached : Walk.Reached ctx t := ht ▸ .parse _ (.new w)
  have hskipping := (skipping_of_load hreached (List.Perm.refl _) hl).1 c hc
  exact ⟨ctx, w, t, report, w', h, Prod.ext hok ht.symm, hl, c, hc,
    (hskipping.2.2 hall).resolve_left hnot⟩

end World

end Wiring
