import Mathlib.Logic.Relation
import Wiring.Proofs.Walk.Frame
import Wiring.Proofs.Walk.Stored

/-!
# Superclasses gone through

A superclass is gone through on behalf of the first class that comes to it. A class that is
registered again takes out the superclasses gone through on its behalf, so that what other classes
have relied on is gone for a while. Going through the class anew comes to each of them again, if no
other class gets there first. Whoever comes to a superclass goes on from it, as far as the next one
has not been gone through. So in the end every class has all of its superclasses gone through.
-/

namespace Wiring

namespace Reader

variable {r : Reader} {c d : ClassDecl} {name : String}

/-- The superclass that a known class names, unless it is foundational. -/
def above? (r : Reader) (name : String) : Option String :=
  (r.read? name).bind fun c => c.superclass?.filter fun n => !r.isFoundational n

/-- The second class is the superclass of the first one, and not foundational. -/
def Extends (r : Reader) (c d : ClassDecl) : Prop :=
  ∃ name, c.superclass? = some name ∧ r.isFoundational name = false ∧ r.read? name = some d

theorem above?_of_read? (h : r.read? c.name = some c) :
    r.above? c.name = c.superclass?.filter fun n => !r.isFoundational n := by
  unfold above?
  rw [h]
  rfl

theorem Extends.above? (h : r.Extends c d) (hr : r.catalogue.WellNamed)
    (hc : r.read? c.name = some c) : r.above? c.name = some d.name := by
  obtain ⟨name, hs, hf, hd⟩ := h
  rw [above?_of_read? hc, hs, name_of_read? hr hd]
  simp [hf]

end Reader

namespace WalkState

variable {s : WalkState} {name other owner : String}

/-- The superclasses gone through. -/
def superclassNames (s : WalkState) : List String := s.superclasses.map (·.1)

theorem knowsSuperclass_iff : s.knowsSuperclass name = true ↔ name ∈ s.superclassNames := by
  unfold knowsSuperclass superclassNames
  rw [Option.isSome_iff_ne_none, ne_eq, List.lookup_eq_none_iff, List.mem_map]
  simp

theorem mem_superclassNames : name ∈ s.superclassNames ↔
    ∃ owner, (name, owner) ∈ s.superclasses := by
  simp [superclassNames]

theorem mem_superclasses_discard :
    (name, owner) ∈ (s.discard other).superclasses ↔
      (name, owner) ∈ s.superclasses ∧ owner ≠ other := by
  simp [discard]

end WalkState

open ConfigurationClass (SameWork)

namespace Walk

theorem nextSuperclass?_eq_some {ctx : Context} {s : WalkState} {source : ClassDecl} {name : String}
    (hs : ctx.reader.read? source.name = some source) :
    nextSuperclass? ctx s source = some name ↔
      ctx.reader.above? source.name = some name ∧ name ∉ s.superclassNames := by
  rw [Reader.above?_of_read? hs, ← WalkState.knowsSuperclass_iff]
  unfold nextSuperclass?
  simp only [Option.filter_eq_some_iff, Bool.and_eq_true, Bool.not_eq_true', Bool.not_eq_true]
  exact and_assoc.symm

/-- What is above a class has been gone through, or is being gone through. -/
def Covered (r : Reader) (s : WalkState) (name : String) : Prop :=
  ∀ above, r.above? name = some above → above ∈ s.superclassNames

/-- The class of a name is gone through on behalf of its owner, and so are all between them. -/
inductive Climbs (r : Reader) (s : WalkState) (owner : String) : String → Prop
  | first {name : String} : r.above? owner = some name → (name, owner) ∈ s.superclasses →
      Climbs r s owner name
  | next {name above : String} : Climbs r s owner name → r.above? name = some above →
      (above, owner) ∈ s.superclasses → Climbs r s owner above

/-- Each superclass is gone through once, on behalf of a class that it is above of, and the stored
classes are stored as they are read. -/
structure Surveyed (r : Reader) (s : WalkState) : Prop where
  nodup : s.superclassNames.Nodup
  climbs : ∀ name owner, (name, owner) ∈ s.superclasses → Climbs r s owner name
  read : ∀ k ∈ s.classes, r.read? k.name = some k.decl

/-- What has been gone through stays so, and new classes and superclasses are gone on from. A
superclass may come to be gone through on behalf of another class, which goes on from it as well. -/
structure Climbed (r : Reader) (s t : WalkState) : Prop where
  surveyed : Surveyed r s → Surveyed r t
  known : s.superclassNames ⊆ t.superclassNames
  covers : ∀ name ∈ t.superclassNames, name ∉ s.superclassNames → Covered r t name
  stores : ∀ name ∈ t.storedNames, name ∉ s.storedNames → Covered r t name
  keeps : ∀ name owner, (name, owner) ∈ s.superclasses →
    (name, owner) ∈ t.superclasses ∨ Covered r t name

variable {ctx : Context} {r : Reader} {s t u : WalkState} {name owner : String}
  {c d : ConfigurationClass} {source : ClassDecl}

theorem Covered.mono (h : Covered r s name) (hk : s.superclassNames ⊆ t.superclassNames) :
    Covered r t name :=
  fun above ha => hk (h above ha)

theorem Climbs.mem (h : Climbs r s owner name) : (name, owner) ∈ s.superclasses := by
  cases h with
  | first _ h => exact h
  | next _ _ h => exact h

theorem Climbs.mono (h : Climbs r s owner name)
    (hs : ∀ name, (name, owner) ∈ s.superclasses → (name, owner) ∈ t.superclasses) :
    Climbs r t owner name := by
  induction h with
  | first ha hm => exact .first ha (hs _ hm)
  | next _ ha hm ih => exact .next ih ha (hs _ hm)

namespace Surveyed

theorem of_eq (h : Surveyed r s) (hs : t.superclasses = s.superclasses)
    (hread : ∀ k ∈ t.classes, r.read? k.name = some k.decl) : Surveyed r t where
  nodup := by
    unfold WalkState.superclassNames
    rw [hs]
    exact h.nodup
  climbs name owner hm := (h.climbs name owner (hs ▸ hm)).mono fun _ => hs ▸ id
  read := hread

theorem owner_eq (h : Surveyed r s) {owner' : String} (hm : (name, owner) ∈ s.superclasses)
    (hm' : (name, owner') ∈ s.superclasses) : owner = owner' :=
  congrArg Prod.snd (List.inj_on_of_nodup_map h.nodup hm hm' rfl)

theorem discard (h : Surveyed r s) (other : String) : Surveyed r (s.discard other) where
  nodup := h.nodup.sublist (List.filter_sublist.map _)
  climbs name owner hm := by
    obtain ⟨hm, hne⟩ := WalkState.mem_superclasses_discard.1 hm
    exact (h.climbs name owner hm).mono fun _ hm => WalkState.mem_superclasses_discard.2 ⟨hm, hne⟩
  read k hk := h.read k (List.mem_of_mem_eraseP hk)

theorem note (h : Surveyed r s) {above : String} (hnew : above ∉ s.superclassNames)
    (ha : r.above? source.name = some above)
    (hsource : source.name = owner ∨ Climbs r s owner source.name) :
    Surveyed r (s.noteSuperclass above owner) where
  nodup := List.nodup_cons.2 ⟨hnew, h.nodup⟩
  climbs name owner' hm := by
    have hmono {o n : String} (hc : Climbs r s o n) : Climbs r (s.noteSuperclass above owner) o n :=
      hc.mono fun _ hm => List.mem_cons_of_mem _ hm
    rcases List.mem_cons.1 hm with heq | hm
    · cases heq
      rcases hsource with rfl | hsource
      · exact .first ha List.mem_cons_self
      · exact .next (hmono hsource) ha List.mem_cons_self
    · exact hmono (h.climbs name owner' hm)
  read := h.read

end Surveyed

namespace Climbed

theorem trans (h : Climbed r s t) (h' : Climbed r t u) : Climbed r s u where
  surveyed hs := h'.surveyed (h.surveyed hs)
  known := List.Subset.trans h.known h'.known
  covers name hu hs := by
    by_cases ht : name ∈ t.superclassNames
    · exact (h.covers name ht hs).mono h'.known
    · exact h'.covers name hu ht
  stores name hu hs := by
    by_cases ht : name ∈ t.storedNames
    · exact (h.stores name ht hs).mono h'.known
    · exact h'.stores name hu ht
  keeps name owner hs := by
    rcases h.keeps name owner hs with ht | hc
    · exact h'.keeps name owner ht
    · exact .inr (hc.mono h'.known)

theorem of_eq (hs : t.superclasses = s.superclasses) (hn : t.storedNames = s.storedNames)
    (hread : Surveyed r s → ∀ k ∈ t.classes, r.read? k.name = some k.decl) : Climbed r s t where
  surveyed h := h.of_eq hs (hread h)
  known := by
    unfold WalkState.superclassNames
    rw [hs]
    exact List.Subset.refl _
  covers name ht hns := absurd (by unfold WalkState.superclassNames at ht; rwa [hs] at ht) hns
  stores name ht hns := absurd (hn ▸ ht) hns
  keeps name owner hm := .inl (hs ▸ hm)

theorem update {f : ConfigurationClass → ConfigurationClass} (hf : ∀ k, (f k).decl = k.decl) :
    Climbed r s (s.update name f) := by
  have hname (k : ConfigurationClass) : (f k).name = k.name := congrArg ClassDecl.name (hf k)
  refine of_eq rfl (WalkState.storedNames_update hname) fun h k hk => ?_
  rcases WalkState.mem_classes_update hk with hk | ⟨j, hj, -, rfl⟩
  · exact h.read k hk
  · rw [hname, hf]
    exact h.read j hj

theorem store (h : Climbed r s t) (hd : r.read? d.name = some d.decl)
    (hcovered : Covered r t d.name) : Climbed r s (t.store d) where
  surveyed hs := by
    refine (h.surveyed hs).of_eq rfl fun k hk => ?_
    rcases WalkState.mem_classes_store hk with hk | rfl
    · exact (h.surveyed hs).read k hk
    · exact hd
  known := h.known
  covers := h.covers
  stores name ht hns := by
    rcases WalkState.mem_storedNames_store.1 ht with ht | rfl
    · exact h.stores name ht hns
    · exact hcovered
  keeps := h.keeps

/-- A class has been gone through anew: its superclasses, which were taken out with it, are gone
through again. -/
theorem of_discard (hs : Surveyed r s) (h : Climbed r (s.discard owner) t)
    (hcovered : Covered r t owner) : Climbed r s t := by
  have hback (name : String) (hc : Climbs r s owner name) :
      name ∈ t.superclassNames ∧ Covered r t name := by
    have hgone {name : String} (hm : (name, owner) ∈ s.superclasses) :
        name ∉ (s.discard owner).superclassNames := by
      intro hn
      obtain ⟨owner', hm'⟩ := WalkState.mem_superclassNames.1 hn
      obtain ⟨hm', hne⟩ := WalkState.mem_superclasses_discard.1 hm'
      exact hne (hs.owner_eq hm' hm)
    induction hc with
    | first ha hm =>
      have hn := hcovered _ ha
      exact ⟨hn, h.covers _ hn (hgone hm)⟩
    | next _ ha hm ih =>
      have hn := ih.2 _ ha
      exact ⟨hn, h.covers _ hn (hgone hm)⟩
  -- a superclass was gone through on behalf of the class, or is so still
  have hkept {name owner' : String} (hm : (name, owner') ∈ s.superclasses) :
      Climbs r s owner name ∨ (name, owner') ∈ (s.discard owner).superclasses := by
    by_cases ho : owner' = owner
    · exact .inl (ho ▸ hs.climbs name owner' hm)
    · exact .inr (WalkState.mem_superclasses_discard.2 ⟨hm, ho⟩)
  refine ⟨fun _ => h.surveyed (hs.discard owner), fun name hn => ?_, fun name hn hns => ?_,
    fun name hn hns => ?_, fun name owner' hm => ?_⟩
  · obtain ⟨owner', hm⟩ := WalkState.mem_superclassNames.1 hn
    rcases hkept hm with hc | hm
    · exact (hback name hc).1
    · exact h.known (WalkState.mem_superclassNames.2 ⟨owner', hm⟩)
  · refine h.covers name hn fun hd => hns ?_
    obtain ⟨owner', hm⟩ := WalkState.mem_superclassNames.1 hd
    exact WalkState.mem_superclassNames.2 ⟨owner', (WalkState.mem_superclasses_discard.1 hm).1⟩
  · exact h.stores name hn fun hd => hns (WalkState.sublist_storedNames_discard.subset hd)
  · rcases hkept hm with hc | hm
    · exact .inr (hback name hc).2
    · exact h.keeps name owner' hm

end Climbed

/-! ## Every superclass is gone through -/

/-- What entering classes makes of the superclasses. -/
def climbingFrame (r : Reader) : Frame where
  Ready := Surveyed r
  Kept := Climbed r
  trans := .trans
  ready h := h.surveyed
  alike hc hs := .of_eq hs (congrArg (List.map _) hc) fun h => hc ▸ h.read
  registrars _ _ _ := .update fun _ => rfl

section Steps

variable {visit : Visit → Walk Unit} (hc : ctx.reader.catalogue.WellNamed)
  (hv : (climbingFrame ctx.reader).Keeps ctx visit)

/-- A handler goes through the class in hand from a source on that the class has come to. -/
def Climbing (ctx : Context) (visit : Visit → Walk Unit) : Prop :=
  ∀ (source : ClassDecl) (h : Held), ctx.reader.read? source.name = some source →
    Surveyed ctx.reader h.state →
    source.name = h.inHand.name ∨ Climbs ctx.reader h.state h.inHand.name source.name →
    Leads (visit (.ascend source)) h
      (fun _ h' => Climbed ctx.reader h.state h'.state ∧ h'.inHand.decl = h.inHand.decl ∧
        Covered ctx.reader h'.state source.name) fun _ _ => True

include hc hv

theorem leads_ascend_climbing (hup : Climbing ctx visit) {h : Held}
    (hsource : ctx.reader.read? source.name = some source) (hs : Surveyed ctx.reader h.state)
    (hcome : source.name = h.inHand.name ∨ Climbs ctx.reader h.state h.inHand.name source.name) :
    Leads (ascend ctx visit source) h
      (fun _ h' => Climbed ctx.reader h.state h'.state ∧ h'.inHand.decl = h.inHand.decl ∧
        Covered ctx.reader h'.state source.name) fun _ _ => True := by
  have hby : ((climbingFrame ctx.reader).invariant ctx h).ByAscend visit source _ :=
    Frame.byAscend hc hv hs
  refine Invariant.leads_ascend
    (fun h' => Climbed ctx.reader h.state h'.state ∧ h'.inHand.decl = h.inHand.decl) _ hby (.refl h)
    (fun h' _ hg _ => ⟨hg.1, hg.2.1⟩) (fun h' hg hn => ?_) (fun _ _ _ _ _ _ => trivial)
    fun h' name above hg hn hread => ?_
  · refine ⟨hg.1, hg.2, fun above ha => ?_⟩
    by_contra hnew
    have hnext := (nextSuperclass?_eq_some hsource).2 ⟨ha, hnew⟩
    rw [hn] at hnext
    cases hnext
  · obtain ⟨ha, hnew⟩ := (nextSuperclass?_eq_some hsource).1 hn
    have hname : above.name = name := Reader.name_of_read? hc (Reader.read_eq_ok.1 hread)
    have hinhand : h'.inHand.name = h.inHand.name := congrArg ClassDecl.name hg.2
    have hs' : Surveyed ctx.reader h'.state := hg.1.surveyed hs
    -- the class in hand has still come to the source, for nothing above it has been gone through
    have hcome' : source.name = h'.inHand.name ∨
        Climbs ctx.reader h'.state h'.inHand.name source.name := by
      rw [hinhand]
      refine hcome.imp_right fun hcome => ?_
      rcases hg.1.keeps _ _ hcome.mem with hm | hcovered
      · exact hs'.climbs _ _ hm
      · exact absurd (hcovered name ha) hnew
    have hs'' := hs'.note hnew ha hcome'
    refine (hup above _ (Reader.read?_self hc (Reader.read_eq_ok.1 hread)) hs''
      (.inr ?_)).mono (fun _ h'' hk => ?_) fun _ _ _ => trivial
    · rw [hname]
      exact hs''.climbs _ _ List.mem_cons_self
    · obtain ⟨hk, hdecl, hcovered⟩ := hk
      refine ⟨hg.1.trans ⟨fun _ => hk.surveyed hs'', ?_, fun n hn hnew' => ?_, hk.stores, ?_⟩,
        hdecl.trans hg.2, ?_⟩
      · exact fun n hn => hk.known (List.mem_cons_of_mem _ hn)
      · by_cases hne : n = name
        · rw [hne, ← hname]
          exact hcovered
        · exact hk.covers n hn fun hm => (List.mem_cons.1 hm).elim hne hnew'
      · exact fun n owner hm => hk.keeps n owner (List.mem_cons_of_mem _ hm)
      · intro n hn
        obtain rfl := Option.some.inj (ha.symm.trans hn)
        exact hk.known List.mem_cons_self

omit hv hc in
theorem leads_enter_climbing (hup : Climbing ctx visit)
    (hread : ctx.reader.read? c.name = some c.decl) (hs : Surveyed ctx.reader s) :
    Leads (enter ctx visit) ⟨c, s⟩ (fun _ h' => Climbed ctx.reader s h'.state) fun _ _ => True := by
  have hself : Climbed ctx.reader s s := (climbingFrame ctx.reader).alike rfl rfl
  refine Invariant.leads_enter (fun _ _ => trivial) (fun _ => hself)
    (fun _ _ _ _ => .update fun _ => rfl)
    (fun _ _ _ _ => hself) fun s' hs' => ?_
  have hsurveyed : Surveyed ctx.reader s' := by
    rcases hs' with ⟨-, rfl⟩ | ⟨-, -, rfl⟩
    · exact hs
    · exact hs.discard _
  refine (hup c.decl ⟨c, s'⟩ hread hsurveyed (.inl rfl)).mono (fun _ h' hk => ?_)
    fun _ _ _ => trivial
  obtain ⟨hk, hdecl, hcovered⟩ := hk
  have hname : h'.inHand.name = c.name := congrArg ClassDecl.name hdecl
  have hclimbed : Climbed ctx.reader s h'.state := by
    rcases hs' with ⟨-, rfl⟩ | ⟨-, -, rfl⟩
    · exact hk
    · exact .of_discard hs hk hcovered
  exact hclimbed.store (by rw [hname, hdecl]; exact hread) (hname ▸ hcovered)

end Steps

theorem climbing_visit (hc : ctx.reader.catalogue.WellNamed) (n : Nat) :
    (climbingFrame ctx.reader).Keeps ctx (visit ctx n) ∧ Climbing ctx (visit ctx n) := by
  induction n with
  | zero => exact ⟨⟨fun _ _ _ => trivial, fun _ _ _ _ => trivial⟩, fun _ _ _ _ _ => trivial⟩
  | succ n ih =>
    obtain ⟨hv, hup⟩ := ih
    refine ⟨⟨fun hread _ hs => ?_, fun source names guarded hs => ?_⟩,
      fun source h hsource hs hcome => ?_⟩
    · exact leads_enter_climbing hup hread hs
    · exact Frame.leads_visitImports hc hv hs names guarded
    · exact leads_ascend_climbing hc hv hup hsource hs hcome

/-- A walk from a new state goes through all superclasses of the classes that it stores. -/
theorem climbed_of_parse {world : World} {roots : List (String × String)}
    (hc : ctx.reader.catalogue.WellNamed)
    (h : ({ world } : WalkState).parse ctx roots = (.ok (), t)) :
    Climbed ctx.reader { world } t ∧ Surveyed ctx.reader t := by
  have hs : Surveyed ctx.reader { world } := ⟨.nil, nofun, nofun⟩
  have hclimbed : Climbed ctx.reader { world } t :=
    Frame.kept_of_runWith hc (climbing_visit hc (depthBound ctx)).1 hs h
  exact ⟨hclimbed, hclimbed.surveyed hs⟩

theorem mem_superclassNames_of_parse {world : World} {roots : List (String × String)}
    (hc : ctx.reader.catalogue.WellNamed)
    (h : ({ world } : WalkState).parse ctx roots = (.ok (), t))
    {above : ClassDecl} (hd : d ∈ t.classes)
    (ha : Relation.TransGen ctx.reader.Extends d.decl above) : above.name ∈ t.superclassNames := by
  obtain ⟨hclimbed, hs⟩ := climbed_of_parse hc h
  have hnext {c above : ClassDecl} (hcovered : Covered ctx.reader t c.name)
      (hread : ctx.reader.read? c.name = some c) (ha : ctx.reader.Extends c above) :
      above.name ∈ t.superclassNames ∧ ctx.reader.read? above.name = some above := by
    refine ⟨hcovered _ (ha.above? hc hread), ?_⟩
    obtain ⟨name, -, -, hread'⟩ := ha
    exact Reader.read?_self hc hread'
  suffices above.name ∈ t.superclassNames ∧ ctx.reader.read? above.name = some above from this.1
  induction ha with
  | single ha =>
    exact hnext (hclimbed.stores _ (List.mem_map_of_mem hd) List.not_mem_nil) (hs.read d hd) ha
  | tail _ ha ih => exact hnext (hclimbed.covers _ ih.1 List.not_mem_nil) ih.2 ha

end Walk

end Wiring
