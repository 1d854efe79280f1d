import Wiring.Proofs.Declared
import Wiring.Proofs.Walk.Roots
import Wiring.Proofs.Walk.Stored

/-!
# Walks that find something new

Whatever a walk enters is stored in the end, unless its conditions say otherwise, and then nothing
has happened. So a walk from roots that are not stored either stores a class that was not stored
before, or leaves everything as it was. All that it stores are known classes.
-/

namespace Wiring

namespace Walk

variable {ctx : Context} {s t u : WalkState}

/-- What was stored is so still, and everything stored is known if it was so before. -/
structure Enlarged (ctx : Context) (s t : WalkState) : Prop where
  stored : s.storedNames ⊆ t.storedNames
  known : s.storedNames ⊆ ctx.reader.classNames → t.storedNames ⊆ ctx.reader.classNames

namespace Enlarged

theorem refl (s : WalkState) : Enlarged ctx s s := ⟨List.Subset.refl _, id⟩

theorem trans (h : Enlarged ctx s t) (h' : Enlarged ctx t u) : Enlarged ctx s u :=
  ⟨List.Subset.trans h.stored h'.stored, fun hs => h'.known (h.known hs)⟩

theorem of_storedNames_eq (h : t.storedNames = s.storedNames) : Enlarged ctx s t :=
  ⟨h ▸ List.Subset.refl _, fun hs => h ▸ hs⟩

theorem store {s₀ : WalkState} {d : ConfigurationClass} (h : Enlarged ctx s₀ t)
    (hsub : s₀.storedNames ⊆ s.storedNames)
    (hstored : ∀ name ∈ s.storedNames, name ≠ d.name → name ∈ s₀.storedNames)
    (hd : d.name ∈ ctx.reader.classNames) : Enlarged ctx s (t.store d) where
  stored name hn := by
    rw [WalkState.mem_storedNames_store]
    by_cases hne : name = d.name
    · exact .inr hne
    · exact .inl (h.stored (hstored name hn hne))
  known hs name hn := by
    rcases WalkState.mem_storedNames_store.1 hn with hn | rfl
    · exact h.known (List.Subset.trans hsub hs) hn
    · exact hd

end Enlarged

/-- The contract of a walk that enters known classes. Entering a class stores it or changes nothing;
no matter what failures leave behind. -/
def growth (ctx : Context) : Contract where
  Ready _ v h :=
    match v with
    | .enter | .ascend _ => h.inHand.name ∈ ctx.reader.classNames
    | .imports .. => True
  Kept s t := Enlarged ctx s t
  Entered c s t := Enlarged ctx s t ∧ (t = s ∨ c.name ∈ t.storedNames)
  Scanned s _ t := Enlarged ctx s t
  Broken _ _ _ := True

/-! ## Every step keeps to the contract -/

theorem growth_generalLaws : (growth ctx).GeneralLaws ctx where
  refl s := .refl s
  trans h h' := h.trans h'
  broken_trans _ _ := trivial
  refused _ := trivial
  unparsed _ := trivial
  during _ _ := trivial
  exhausted _ := trivial

theorem growth_enterLaws : (growth ctx).EnterLaws ctx where
  skipped _ _ := ⟨.refl _, .inl rfl⟩
  merged {n c s k} _ hk _ _ := by
    have hnames := s.storedNames_mergeImporters c.name c
    refine ⟨.of_storedNames_eq hnames, .inr ?_⟩
    rw [hnames]
    exact WalkState.mem_storedNames_of_stored? hk
  ignored _ _ _ _ := ⟨.refl _, .inl rfl⟩
  enters hr _ := hr
  entered {n c s t d} hr _ hk hcd := by
    have hname : c.name ∈ ctx.reader.classNames := hr
    refine ⟨hk.store (List.Subset.refl _) (fun _ hn _ => hn) (hcd.name_eq ▸ hname), .inr ?_⟩
    exact WalkState.mem_storedNames_store.2 (.inr hcd.name_eq.symm)
  reenters hr _ _ := hr
  reentered {n c s k t d} hr _ _ hk hcd := by
    have hname : c.name ∈ ctx.reader.classNames := hr
    refine ⟨hk.store WalkState.sublist_storedNames_discard.subset
      (fun _ hn hne => WalkState.mem_storedNames_discard hn (hcd.name_eq ▸ hne))
      (hcd.name_eq ▸ hname), .inr ?_⟩
    exact WalkState.mem_storedNames_store.2 (.inr hcd.name_eq.symm)
  reenter_broken _ := trivial
  entered_imported h := h.1

theorem growth_ascendLaws (hc : ctx.Declared) : (growth ctx).AscendLaws ctx where
  reported _ := .of_storedNames_eq rfl
  member {n source c s t m} _ _ hm _ := by
    obtain ⟨name, hread⟩ := read?_of_mem_members hm
    exact hc.name_mem hread
  through_member _ _ _ hu := ⟨hu.stored, hu.known⟩
  through_member_broken _ _ _ _ := trivial
  sources _ _ := .of_storedNames_eq rfl
  ascend_imports _ _ _ := trivial
  noted _ _ := .of_storedNames_eq rfl
  ascends {n source c s d t name above} hr _ hcd _ _ := by
    have hname : c.name ∈ ctx.reader.classNames := hr
    rw [← hcd.name_eq] at hname
    exact hname

theorem growth_scanLaws (hc : ctx.Declared) : (growth ctx).ScanLaws ctx where
  scan_begun _ _ _ _ := .of_storedNames_eq rfl
  scan_refused _ := trivial
  scan_passed hs _ _ := hs.trans (.of_storedNames_eq rfl)
  scan_enters _ _ _ _ _ hd := hc.name_mem (Reader.read_eq_ok.1 hd)
  scan_entered hs _ _ _ hu := hs.trans ⟨hu.1.stored, hu.1.known⟩
  scan_broken _ _ _ := trivial
  scan_done hs := hs

theorem growth_importLaws (hc : ctx.Declared) : (growth ctx).ImportLaws ctx where
  through_imports _ _ hk := ⟨hk.stored, hk.known⟩
  through_imports_broken _ _ _ := trivial
  recorded _ _ := .of_storedNames_eq rfl
  imports_enter _ _ _ _ hd := hc.name_mem (Reader.read_eq_ok.1 hd)
  imports_more _ _ _ _ _ _ := trivial
  waits _ := .of_storedNames_eq rfl
  registrars _ _ := .of_storedNames_eq (WalkState.storedNames_update fun _ => rfl)

theorem growth_lawful (hc : ctx.Declared) : (growth ctx).Lawful ctx where
  toGeneralLaws := growth_generalLaws
  toEnterLaws := growth_enterLaws
  toAscendLaws := growth_ascendLaws hc
  toScanLaws := growth_scanLaws hc
  toImportLaws := growth_importLaws hc

/-! ## Whole walks -/

/-- What a walk has made of the state: nothing, or a class is stored that was not. -/
structure Found (ctx : Context) (s t : WalkState) : Prop where
  enlarged : Enlarged ctx s t
  fresh : t = s ∨ ∃ name ∈ t.storedNames, name ∉ s.storedNames

theorem Found.grow (h : Found ctx s t) (hg : Enlarged ctx t u) (hu : t = s → u = s) :
    Found ctx s u := by
  refine ⟨h.enlarged.trans hg, ?_⟩
  rcases h.fresh with rfl | ⟨name, hn, hs⟩
  · exact .inl (hu rfl)
  · exact .inr ⟨name, hg.stored hn, hs⟩

/-- Where nothing waits there is nothing to settle. -/
theorem run_settle_of_idle {h : Held} (hw : h.state.deferred = {}) :
    (settle ctx).run.run h = (.ok (), h) := by
  have hbegin : h.state.deferred.begin.1 = [] := by
    rw [hw]
    exact List.mergeSort_nil
  have hstate : { h.state with deferred := .finish } = h.state := by
    rw [← show h.state.deferred = .finish from hw]
  have hrun : (settlementBy ctx (visit ctx (depthBound ctx))).run.run h =
      (.ok (), ⟨h.inHand, { h.state with deferred := ⟨none⟩ }⟩) := by
    show (visitDeferred ctx _ false h.state.deferred.begin.1).run.run _ = _
    rw [hbegin]
    rfl
  show (settleBy ctx (visit ctx (depthBound ctx))).run.run h = _
  rw [run_settleBy, hrun]
  exact congrArg (fun state => (Except.ok (), { h with state })) hstate

/-- Settling keeps what was found, and in the end nothing waits. -/
theorem leads_settle_found (hc : ctx.Declared) (hw : s.deferred = {}) {h : Held}
    (hf : Found ctx s h.state) :
    Leads (settle ctx) h (fun _ h' => Found ctx s h'.state ∧ h'.state.deferred = {})
      fun _ _ => True := by
  by_cases hs : h.state = s
  · have hidle : h.state.deferred = {} := hs ▸ hw
    unfold Leads
    rw [run_settle_of_idle hidle]
    exact ⟨hf, hidle⟩
  · refine (Contract.leads_settle (growth_lawful hc).steps ((growth_lawful hc).visit _)
      fun _ _ _ _ _ _ => trivial).mono
      (fun _ h' hd => ?_) fun _ _ _ => trivial
    obtain ⟨t, ht, hst⟩ := hd
    rw [hst]
    exact ⟨hf.grow ⟨ht.stored, ht.known⟩ fun he => absurd he hs, rfl⟩

/-- A walk from roots that are not stored, while nothing waits, stores known classes in addition to
those that are stored, at least one, or has no effect. -/
theorem found_of_parse (hc : ctx.Declared) {roots : List (String × String)}
    (hroots : ∀ root ∈ roots, root.2 ∉ s.storedNames) (hw : s.deferred = {})
    (h : s.parse ctx roots = (.ok (), t)) : Found ctx s t ∧ t.deferred = {} := by
  have henter (root : String × String) (rest : List (String × String)) (h : Held)
      (hr : root :: rest <:+ roots) (hf : Found ctx s h.state) :
      Leads (enterRoot ctx root.1 root.2) h (fun _ h' => Found ctx s h'.state)
        fun _ _ => True := by
    refine (Contract.leads_enterRoot (growth_lawful hc).steps ((growth_lawful hc).visit _)
      fun decl hd =>
      hc.name_mem (Reader.read_eq_ok.1 hd)).mono (fun _ h' hd => ?_) fun _ _ _ => trivial
    obtain ⟨-, decl, hd, henlarged, hentered⟩ := hd
    rcases hentered with he | hn
    · rw [he]
      exact hf
    · refine ⟨hf.enlarged.trans henlarged, .inr ⟨_, hn, ?_⟩⟩
      have hname : decl.name = root.2 :=
        Reader.name_of_read? hc.wellNamed (Reader.read_eq_ok.1 hd)
      show decl.name ∉ _
      rw [hname]
      exact hroots root (hr.subset List.mem_cons_self)
  have hwalk : Leads (fromRoots ctx roots) ⟨default, s⟩
      (fun _ h' => Found ctx s h'.state ∧ h'.state.deferred = {}) fun _ _ => True := by
    unfold fromRoots
    rw [leads_bind]
    refine (Leads.forM (fun _ h' => Found ctx s h'.state) ⟨.refl s, .inl rfl⟩ henter).mono
      (fun _ h' hf => leads_settle_found hc hw hf) fun _ _ _ => trivial
  exact (WalkState.parse_of_leads (fun t => Found ctx s t ∧ t.deferred = {}) (fun _ _ => True)
    hwalk).1 t h

end Walk

end Wiring
