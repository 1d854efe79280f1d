import Wiring.Proofs.BeanMethods
import Wiring.Proofs.Walk.Explicit
import Wiring.Proofs.Walk.Superclasses

/-!
# Inherited bean methods

The bean methods of a superclass are gathered for the class on whose behalf it is gone through. That
class is stored with them, unless it was entered again while it was being gone through: what has
been gathered for it within is stored at the end of that entry, and lost at the end of the first
one.
-/

namespace Wiring

open ConfigurationClass (SameWork)

/-- Does the class have the bean methods that a source declares? -/
def ConfigurationClass.hasMethodsOf (c : ConfigurationClass) (source : ClassDecl) : Bool :=
  source.beanMethods.all fun m => c.beanMethods.contains m

theorem ConfigurationClass.hasMethodsOf_iff {c : ConfigurationClass} {source : ClassDecl} :
    c.hasMethodsOf source = true ↔ source.beanMethods ⊆ c.beanMethods := by
  simp [hasMethodsOf, List.subset_def]

namespace Walk

/-! ## A superclass, and the class on whose behalf it is gone through -/

/-- A class that is being entered is stored with the bean methods of a superclass that has been gone
through on its behalf. -/
def lostSight (above : ClassDecl) (owner : String) : Sight := fun underway s =>
  underway.any (·.name == owner) && s.superclasses.contains (above.name, owner) &&
    (s.stored? owner).any (·.hasMethodsOf above)

/-- If the superclass has been gone through on behalf of the class, the class is stored with its
bean methods. -/
def Gathers (above : ClassDecl) (owner : String) (s : WalkState) : Prop :=
  (above.name, owner) ∈ s.superclasses → ∃ k, s.stored? owner = some k ∧ k.hasMethodsOf above = true

theorem Gathers.update {above : ClassDecl} {owner name : String} {s : WalkState}
    {f : ConfigurationClass → ConfigurationClass} (h : Gathers above owner s)
    (hname : ∀ k, (f k).name = k.name)
    (hf : ∀ k : ConfigurationClass, (f k).beanMethods = k.beanMethods) :
    Gathers above owner (s.update name f) := by
  intro hm
  obtain ⟨k, hk, hmethods⟩ := h hm
  rw [WalkState.stored?_update hname, hk]
  split
  · refine ⟨f k, rfl, ?_⟩
    rw [ConfigurationClass.hasMethodsOf_iff, hf]
    exact ConfigurationClass.hasMethodsOf_iff.1 hmethods
  · exact ⟨k, rfl, hmethods⟩

/-- What entering classes makes of the superclass while the class is not being entered. -/
def gatheringFrame (above : ClassDecl) (owner : String) : Frame where
  Ready _ := True
  Kept s t := Gathers above owner s → Gathers above owner t
  trans h h' hs := h' (h hs)
  ready _ _ := trivial
  alike hc hs h hm := by
    unfold WalkState.stored?
    rw [hc]
    exact h (hs ▸ hm)
  registrars _ _ _ h := h.update (fun _ => rfl) fun _ => rfl

/-- What entering classes makes of the superclass while the class is being entered: it is not gone
through on behalf of the class within another entry. -/
def enteredFrame (above : ClassDecl) (owner : String) : Frame where
  Ready _ := True
  Kept s t := (above.name, owner) ∈ t.superclasses → (above.name, owner) ∈ s.superclasses
  trans h h' hm := h (h' hm)
  ready _ _ := trivial
  alike _ hs hm := hs ▸ hm
  registrars _ _ _ hm := hm

variable {ctx : Context} {above : ClassDecl} {owner : String} {visit : Visit → Walk Unit}

/-- A handler goes through the class in hand while the owner is not being entered. -/
def GatheringUp (above : ClassDecl) (owner : String) (visit : Visit → Walk Unit) : Prop :=
  ∀ (source : ClassDecl) (h : Held), h.inHand.name ≠ owner →
    Leads (visit (.ascend source)) h
      (fun _ h' => (Gathers above owner h.state → Gathers above owner h'.state) ∧
        h'.inHand.decl = h.inHand.decl) fun _ _ => True

/-- A handler goes through the class in hand while the owner is being entered. If that class is the
owner, it has the bean methods of the superclasses that are gone through on its behalf. -/
def EnteredUp (above : ClassDecl) (owner : String) (visit : Visit → Walk Unit) : Prop :=
  ∀ (source : ClassDecl) (h : Held),
    Leads (visit (.ascend source)) h
      (fun _ h' => h'.inHand.decl = h.inHand.decl ∧ h.inHand.beanMethods ⊆ h'.inHand.beanMethods ∧
        source.beanMethods ⊆ h'.inHand.beanMethods ∧
        ((above.name, owner) ∈ h'.state.superclasses → (above.name, owner) ∈ h.state.superclasses ∨
          h.inHand.name = owner ∧ h'.inHand.hasMethodsOf above = true)) fun _ _ => True

section Steps

variable (hc : ctx.reader.catalogue.WellNamed) {source : ClassDecl} {h : Held}

include hc

theorem leads_ascend_gathering (hv : (gatheringFrame above owner).Keeps ctx visit)
    (hup : GatheringUp above owner visit) (hne : h.inHand.name ≠ owner) :
    Leads (ascend ctx visit source) h
      (fun _ h' => (Gathers above owner h.state → Gathers above owner h'.state) ∧
        h'.inHand.decl = h.inHand.decl) fun _ _ => True := by
  have hby : ((gatheringFrame above owner).invariant ctx h).ByAscend visit source _ :=
    Frame.byAscend hc hv trivial
  refine Invariant.leads_ascend
    (fun h' => (Gathers above owner h.state → Gathers above owner h'.state) ∧
    h'.inHand.decl = h.inHand.decl) _ hby (.refl h) (fun h' _ hg _ => ⟨hg.1, hg.2.1⟩)
    (fun h' hg _ => hg) (fun _ _ _ _ _ _ => trivial) fun h' name next hg hn hread => ?_
  have hinhand : h'.inHand.name = h.inHand.name := congrArg ClassDecl.name hg.2
  refine (hup next _ (hinhand ▸ hne)).mono
    (fun _ h'' hk => ⟨fun hs => hk.1 fun hm => hg.1 hs ?_, hk.2.trans hg.2⟩) fun _ _ _ => trivial
  -- the superclass that is noted is not gone through on behalf of the owner
  rcases List.mem_cons.1 hm with heq | hm
  · exact absurd (congrArg Prod.snd heq).symm (hinhand ▸ hne)
  · exact hm

theorem leads_ascend_entered (habove : ctx.reader.read? above.name = some above)
    (hv : (enteredFrame above owner).Keeps ctx visit) (hup : EnteredUp above owner visit) :
    Leads (ascend ctx visit source) h
      (fun _ h' => h'.inHand.decl = h.inHand.decl ∧ h.inHand.beanMethods ⊆ h'.inHand.beanMethods ∧
        source.beanMethods ⊆ h'.inHand.beanMethods ∧
        ((above.name, owner) ∈ h'.state.superclasses → (above.name, owner) ∈ h.state.superclasses ∨
          h.inHand.name = owner ∧ h'.inHand.hasMethodsOf above = true)) fun _ _ => True := by
  have hby : ((enteredFrame above owner).invariant ctx h).ByAscend visit source _ :=
    Frame.byAscend hc hv trivial
  refine Invariant.leads_ascend (fun h' => h'.inHand.decl = h.inHand.decl ∧
    h.inHand.beanMethods ⊆ h'.inHand.beanMethods ∧ source.beanMethods ⊆ h'.inHand.beanMethods ∧
    ((above.name, owner) ∈ h'.state.superclasses → (above.name, owner) ∈ h.state.superclasses))
    _ hby (.refl h) (fun h' inherited hg _ => ?_) (fun h' hg _ => ?_) (fun _ _ _ _ _ _ => trivial)
    fun h' name next hg hn hread => ?_
  · refine ⟨hg.2.1, fun m hm => ?_, fun m hm => ?_, hg.1⟩
    · exact List.mem_append_left _ (List.mem_append_left _ (hg.2.2 ▸ hm))
    · exact List.mem_append_left _ (List.mem_append_right _ ((perm_beanMethods _ _).mem_iff.2 hm))
  · exact ⟨hg.1, hg.2.1, hg.2.2.1, fun hm => .inl (hg.2.2.2 hm)⟩
  · obtain ⟨hdecl, hmethods, hown, hclaimed⟩ := hg
    have hinhand : h'.inHand.name = h.inHand.name := congrArg ClassDecl.name hdecl
    refine (hup next _).mono (fun _ h'' hk => ?_) fun _ _ _ => trivial
    obtain ⟨hdecl', hmethods', hnext, hclaimed'⟩ := hk
    refine ⟨hdecl'.trans hdecl, List.Subset.trans hmethods hmethods',
      List.Subset.trans hown hmethods', fun hm => ?_⟩
    rcases hclaimed' hm with hm | ⟨ho, hhas⟩
    · rcases List.mem_cons.1 hm with heq | hm
      · -- the superclass is the next one, and its bean methods are gathered now
        obtain ⟨rfl, rfl⟩ := Prod.mk.inj heq
        have hsame : above = next :=
          Option.some.inj (habove.symm.trans (Reader.read_eq_ok.1 hread))
        exact .inr ⟨hinhand.symm, ConfigurationClass.hasMethodsOf_iff.2 (hsame ▸ hnext)⟩
      · exact .inl (hclaimed hm)
    · exact .inr ⟨hinhand.symm.trans ho, hhas⟩

end Steps

/-! ## Entering classes under watch -/

section Watched

variable {n : Nat} {underway : List ConfigurationClass} {c : ConfigurationClass} {s : WalkState}

/-- A piece of work that is not stopped leaves behind what is done within it, and what is looked for
is not in sight. -/
theorem leads_visitUntil {sight : Sight} {v : Visit} {h : Held} {done : Held → Prop}
    (hl : Leads (perform ctx (visitUntil ctx sight n (v.within h.inHand underway)) v) h
      (fun _ h' => sight underway h'.state = false → done h') fun _ _ => True) :
    Leads (visitUntil ctx sight (n + 1) underway v) h (fun _ => done) fun _ _ => True := by
  unfold Leads
  rw [run_visitUntil_succ]
  show Leads _ h (fun _ => done) fun _ _ => True
  rw [leads_bind]
  refine hl.mono (fun _ h' hd => ?_) fun _ _ _ => trivial
  rw [leads_lookOut]
  split
  · trivial
  next hs => exact hd (Bool.not_eq_true _ ▸ hs)

/-- The owner, or a class within it, is entered again. If it is the owner that is stored, with the
bean methods of a superclass that has been gone through on its behalf within, this is looked for. -/
theorem leads_enter_entered (hin : ∃ d ∈ underway, d.name = owner)
    (hup : EnteredUp above owner visit) :
    Leads (enter ctx visit) ⟨c, s⟩
      (fun _ h' => lostSight above owner underway h'.state = false →
        (above.name, owner) ∈ h'.state.superclasses → (above.name, owner) ∈ s.superclasses)
      fun _ _ => True := by
  refine Invariant.leads_enter (fun _ _ => trivial) (fun _ _ => id) (fun _ _ _ _ _ => id)
    (fun _ _ _ _ _ => id) fun s' hs => ?_
  have hbefore (hm : (above.name, owner) ∈ s'.superclasses) :
      (above.name, owner) ∈ s.superclasses := by
    rcases hs with ⟨-, rfl⟩ | ⟨-, -, rfl⟩
    · exact hm
    · exact (WalkState.mem_superclasses_discard.1 hm).1
  refine (hup c.decl ⟨c, s'⟩).mono (fun _ h' hk hno hm => ?_) fun _ _ _ => trivial
  obtain ⟨hdecl, -, -, hclaimed⟩ := hk
  rcases hclaimed hm with hm | ⟨ho, hhas⟩
  · exact hbefore hm
  · -- the class in hand is the owner, and has just been stored
    have hname : h'.inHand.name = owner := (congrArg ClassDecl.name hdecl).trans ho
    have hstored : (h'.state.store h'.inHand).stored? owner = some h'.inHand := by
      rw [WalkState.stored?_store, if_pos hname.symm]
    have hmem : (above.name, owner) ∈ (h'.state.store h'.inHand).superclasses := hm
    have hany : (underway.any (·.name == owner)) = true :=
      List.any_eq_true.2 (hin.imp fun d hd => ⟨hd.1, beq_iff_eq.2 hd.2⟩)
    unfold lostSight at hno
    rw [hany, hstored] at hno
    simp [hhas, hmem] at hno

theorem leads_enter_gathering (hup : GatheringUp above owner visit) (hne : c.name ≠ owner) :
    Leads (enter ctx visit) ⟨c, s⟩
      (fun _ h' => Gathers above owner s → Gathers above owner h'.state) fun _ _ => True := by
  refine Invariant.leads_enter (fun _ _ => trivial) (fun _ => id)
    (fun _ _ _ _ hs => hs.update (fun _ => rfl) fun _ => rfl) (fun _ _ _ _ => id) fun s' hs => ?_
  refine (hup c.decl ⟨c, s'⟩ hne).mono (fun _ h' hk hg => ?_) fun _ _ _ => trivial
  have hname : h'.inHand.name = c.name := congrArg ClassDecl.name hk.2
  have hbegun : Gathers above owner s' := by
    rcases hs with ⟨-, rfl⟩ | ⟨-, -, rfl⟩
    · exact hg
    · intro hm
      rw [WalkState.stored?_discard_of_ne (Ne.symm hne)]
      exact hg (WalkState.mem_superclasses_discard.1 hm).1
  intro hm
  rw [WalkState.stored?_store, if_neg (hname ▸ Ne.symm hne)]
  exact hk.1 hbegun hm

/-- The owner is entered. What is gone through on its behalf is gone through from its entry on, and
stored with it at the end. -/
theorem leads_enter_owner (hup : EnteredUp above owner visit) (ho : c.name = owner) :
    Leads (enter ctx visit) ⟨c, s⟩
      (fun _ h' => Gathers above owner s → Gathers above owner h'.state) fun _ _ => True := by
  refine Invariant.leads_enter (fun _ _ => trivial) (fun _ => id)
    (fun _ _ _ _ hs => hs.update (fun _ => rfl) fun _ => rfl) (fun _ _ _ _ => id) fun s' hs => ?_
  refine (hup c.decl ⟨c, s'⟩).mono (fun _ h' hk hg => ?_) fun _ _ _ => trivial
  obtain ⟨hdecl, -, -, hclaimed⟩ := hk
  have hname : h'.inHand.name = owner := (congrArg ClassDecl.name hdecl).trans ho
  have hnone : (above.name, owner) ∉ s'.superclasses := by
    rcases hs with ⟨hn, rfl⟩ | ⟨-, -, rfl⟩
    · intro hm
      obtain ⟨k, hk, -⟩ := hg hm
      rw [← ho, hn] at hk
      cases hk
    · exact fun hm => (WalkState.mem_superclasses_discard.1 hm).2 ho.symm
  intro hm
  rcases hclaimed hm with hm | ⟨-, hhas⟩
  · exact absurd hm hnone
  · refine ⟨h'.inHand, ?_, hhas⟩
    rw [WalkState.stored?_store, if_pos hname.symm]

variable (hc : ctx.reader.catalogue.WellNamed) (habove : ctx.reader.read? above.name = some above)

include hc habove

theorem entered_visitUntil (n : Nat) (hin : ∃ d ∈ underway, d.name = owner) :
    (enteredFrame above owner).Keeps ctx (visitUntil ctx (lostSight above owner) n underway) ∧
      EnteredUp above owner (visitUntil ctx (lostSight above owner) n underway) := by
  induction n generalizing underway with
  | zero => exact ⟨⟨fun _ _ _ => trivial, fun _ _ _ _ => trivial⟩, fun _ _ => trivial⟩
  | succ n ih =>
    refine ⟨⟨fun {c s} _ _ _ => leads_visitUntil ?_, fun {h} source names guarded _ =>
      leads_visitUntil ?_⟩, fun source h => leads_visitUntil ?_⟩
    · obtain ⟨d, hd, ho⟩ := hin
      exact leads_enter_entered ⟨d, hd, ho⟩ (ih ⟨d, List.mem_cons_of_mem _ hd, ho⟩).2
    · exact (Frame.leads_visitImports hc (ih hin).1 trivial names guarded).mono
        (fun _ _ hg _ => hg) fun _ _ _ => trivial
    · exact (leads_ascend_entered hc habove (ih hin).1 (ih hin).2).mono
        (fun _ _ hg _ => hg) fun _ _ _ => trivial

theorem gathering_visitUntil (n : Nat) (hnone : ∀ d ∈ underway, d.name ≠ owner) :
    (gatheringFrame above owner).Keeps ctx (visitUntil ctx (lostSight above owner) n underway) ∧
      GatheringUp above owner (visitUntil ctx (lostSight above owner) n underway) := by
  induction n generalizing underway with
  | zero => exact ⟨⟨fun _ _ _ => trivial, fun _ _ _ _ => trivial⟩, fun _ _ _ => trivial⟩
  | succ n ih =>
    refine ⟨⟨fun {c s} _ _ _ => leads_visitUntil ?_, fun {h} source names guarded _ =>
      leads_visitUntil ?_⟩, fun source h hne => leads_visitUntil ?_⟩
    · by_cases ho : c.name = owner
      · have hentered : ∃ d ∈ c :: underway, d.name = owner := ⟨c, List.mem_cons_self, ho⟩
        exact (leads_enter_owner (entered_visitUntil hc habove n hentered).2 ho).mono
          (fun _ _ hg _ => hg) fun _ _ _ => trivial
      · have hnone' : ∀ d ∈ c :: underway, d.name ≠ owner := List.forall_mem_cons.2 ⟨ho, hnone⟩
        exact (leads_enter_gathering (ih hnone').2 ho).mono (fun _ _ hg _ => hg)
          fun _ _ _ => trivial
    · exact (Frame.leads_visitImports hc (ih hnone).1 trivial names guarded).mono
        (fun _ _ hg _ => hg) fun _ _ _ => trivial
    · exact (leads_ascend_gathering hc (ih hnone).1 (ih hnone).2 hne).mono
        (fun _ _ hg _ => hg) fun _ _ _ => trivial

end Watched

end Walk

namespace WalkState

variable {ctx : Context} {world : World} {t : WalkState} {roots : List (String × String)}

/-- A superclass that has been gone through has its bean methods in the class on whose behalf it
was, unless they are lost on the way. -/
theorem gathers_of_parse (hc : ctx.Declared)
    (h : ({ world } : WalkState).parse ctx roots = (.ok (), t)) {above : ClassDecl} {owner : String}
    (habove : ctx.reader.read? above.name = some above) :
    Walk.Gathers above owner t ∨
      ({ world } : WalkState).Sights ctx (Walk.lostSight above owner) roots := by
  have htracks : Walk.Tracks (fun _ => True)
      (Walk.fromRootsUntil ctx (Walk.lostSight above owner) roots)
      (Walk.fromRoots ctx roots) ⟨default, { world }⟩ :=
    Walk.tracks_fromRootsBy (Walk.tracks_visitUntil_any _ _) (fun _ _ _ _ => trivial) roots
  rcases (htracks.runWith h).2 with hsame | ⟨hstopped, -⟩
  · left
    have hnone : ∀ d ∈ ([] : List ConfigurationClass), d.name ≠ owner := nofun
    have hwatched := (Walk.gathering_visitUntil hc.wellNamed habove (Walk.depthBound ctx) hnone).1
    exact Walk.Frame.kept_of_runWith hc.wellNamed hwatched trivial hsame nofun
  · exact .inr hstopped

/-- The bean methods of every superclass of a stored class are those of the class on whose behalf
the superclass was gone through, which is stored, unless they are lost on the way. -/
theorem parse_inherits (hc : ctx.Declared)
    (h : ({ world } : WalkState).parse ctx roots = (.ok (), t)) :
    ∀ c ∈ t.classes, ∀ above, Relation.TransGen ctx.reader.Extends c.decl above →
      ∃ owner, (above.name, owner) ∈ t.superclasses ∧
        ((∃ k ∈ t.classes, k.name = owner ∧ above.beanMethods ⊆ k.beanMethods) ∨
          ({ world } : WalkState).Sights ctx (Walk.lostSight above owner) roots) := by
  intro c hmem above ha
  obtain ⟨owner, howner⟩ :=
    mem_superclassNames.1 (Walk.mem_superclassNames_of_parse hc.wellNamed h hmem ha)
  have hread : ctx.reader.read? above.name = some above := by
    obtain ⟨b, -, name, -, -, hread⟩ := Relation.TransGen.tail'_iff.1 ha
    exact Reader.read?_self hc.wellNamed hread
  refine ⟨owner, howner, (gathers_of_parse hc h hread).imp_left fun hg => ?_⟩
  obtain ⟨k, hk, hmethods⟩ := hg howner
  obtain ⟨hk, hname⟩ := mem_of_stored? hk
  exact ⟨k, hk, hname, ConfigurationClass.hasMethodsOf_iff.1 hmethods⟩

/-- A class is found again by a scan that it leads to. Its superclass is gone through on behalf of
the inner entry. -/
def foundWithin : Descriptor :=
  { classes :=
      [{ name := "p.Found",
          superclass? := some "Base",
          marks :=
            { declared :=
                [.naming AnnotationType.configuration [],
                  .naming AnnotationType.importing ["Finder"]] } },
        { name := "Finder", marks := { declared := [.naming AnnotationType.componentScan ["p"]] } },
        { name := "Base",
          methods :=
            [{ name := "shared", marks := { declared := [.naming AnnotationType.bean []] } }] }] }

/-- The superclass of a stored class declares a bean method that no stored class has. -/
theorem parse_inherits_lost : ∃ ctx w t,
    Context.ofDescriptor foundWithin "." { workingDirectory := [], files := [] } Table.empty =
      .ok (ctx, w) ∧
    ({ world := w } : WalkState).parse ctx [("root", "p.Found")] = (.ok (), t) ∧
    ∃ c ∈ t.classes, ∃ above, Relation.TransGen ctx.reader.Extends c.decl above ∧
      ∃ m ∈ above.beanMethods, ∀ k ∈ t.classes, m ∉ k.beanMethods := by
  have h : Context.ofDescriptor foundWithin "." { workingDirectory := [], files := [] }
      Table.empty = .ok (_, _) := rfl
  obtain ⟨ctx, w, t, h, hparse, hfound, hbase, hfoundational, hlost⟩ : ∃ ctx w t,
      Context.ofDescriptor foundWithin "." { workingDirectory := [], files := [] } Table.empty =
        .ok (ctx, w) ∧
      ({ world := w } : WalkState).parse ctx [("root", "p.Found")] = (.ok (), t) ∧
      (t.stored? "p.Found").map (·.decl.superclass?) = some (some "Base") ∧
      (ctx.reader.read? "Base").map (·.beanMethods.map (·.name)) = some ["shared"] ∧
      ctx.reader.isFoundational "Base" = false ∧
      t.classes.all (fun k => k.beanMethods.isEmpty) = true :=
    ⟨_, _, _, h, Prod.ext (by decide +kernel) rfl, by decide +kernel, by decide +kernel,
      by decide +kernel, by decide +kernel⟩
  obtain ⟨c, hc, hsuper⟩ := Option.map_eq_some_iff.1 hfound
  obtain ⟨above, hread, hmethods⟩ := Option.map_eq_some_iff.1 hbase
  refine ⟨ctx, w, t, h, hparse, c, (mem_of_stored? hc).1, above,
    .single ⟨"Base", hsuper, hfoundational, hread⟩, ?_⟩
  obtain ⟨m, hm⟩ := List.exists_mem_of_ne_nil above.beanMethods fun he => by
    rw [he] at hmethods
    cases hmethods
  refine ⟨m, hm, fun k hk hmem => ?_⟩
  have hnone : k.beanMethods = [] := List.isEmpty_iff.1 (List.all_eq_true.1 hlost k hk)
  rw [hnone] at hmem
  cases hmem

/-- Two classes have a superclass and its superclass in common. -/
def siblings : Descriptor :=
  { classes :=
      [{ name := "Root",
          marks :=
            { declared :=
                [.naming AnnotationType.configuration [],
                  .naming AnnotationType.importing ["First", "Second"]] } },
        { name := "First", superclass? := some "Base" },
        { name := "Second", superclass? := some "Base" },
        { name := "Base", superclass? := some "Top" },
        { name := "Top",
          methods :=
            [{ name := "shared", marks := { declared := [.naming AnnotationType.bean []] } }] }] }

theorem parse_inherits_siblings : ∃ ctx w t,
    Context.ofDescriptor siblings "." { workingDirectory := [], files := [] } Table.empty =
      .ok (ctx, w) ∧
    ctx.Declared ∧ ({ world := w } : WalkState).parse ctx [("root", "Root")] = (.ok (), t) ∧
    t.superclasses = [("Top", "First"), ("Base", "First")] ∧
    ∀ c ∈ t.classes, ∀ above, Relation.TransGen ctx.reader.Extends c.decl above →
      ∃ owner, (above.name, owner) ∈ t.superclasses ∧
        ((∃ k ∈ t.classes, k.name = owner ∧ above.beanMethods ⊆ k.beanMethods) ∨
          ({ world := w } : WalkState).Sights ctx (Walk.lostSight above owner)
            [("root", "Root")]) := by
  have h : Context.ofDescriptor siblings "." { workingDirectory := [], files := [] } Table.empty =
    .ok (_, _) := rfl
  have hc := Context.declared_of_ofDescriptor h
  refine ⟨_, _, _, h, hc, Prod.ext ?ends rfl, ?_, parse_inherits hc (Prod.ext ?ends rfl)⟩
  case ends => decide +kernel
  · decide +kernel

end WalkState

end Wiring
