import Wiring.Proofs.Walk.Roots
import Wiring.Proofs.Walk.Stored

/-!
# What is under way after a walk

While a walk goes on, classes are being gone through, and deferred imports wait or are being
settled. Every piece of work leaves both as it found them, whether it comes to its end or fails, so
that nothing is under way after a walk. A deferred import that is met while others are being settled
never waits: when settling is done with, nothing is lost.
-/

namespace Wiring

theorem DeferredQueue.size_of_isSettling {q : DeferredQueue} (h : q.isSettling = true) :
    q.size = 0 := by
  unfold isSettling at h
  unfold size
  rw [Option.isNone_iff_eq_none.1 h]
  rfl

theorem DeferredQueue.isSettling_handle (q : DeferredQueue) (d : DeferredImport) :
    (q.handle d).2.isSettling = q.isSettling := by
  cases q with
  | mk pending? => cases pending? <;> rfl

namespace Walk

/-! ## What all work leaves as it was -/

/-- The same classes are being gone through, and deferred imports wait or are being settled as
before. -/
structure Balanced (s t : WalkState) : Prop where
  stack : t.imports.stack = s.imports.stack
  settling : t.deferred.isSettling = s.deferred.isSettling

namespace Balanced

variable {s t u : WalkState}

@[refl] theorem refl (s : WalkState) : Balanced s s := ⟨rfl, rfl⟩

theorem trans (h : Balanced s t) (h' : Balanced t u) : Balanced s u :=
  ⟨h'.stack.trans h.stack, h'.settling.trans h.settling⟩

theorem alike (hi : t.imports = s.imports) (hd : t.deferred = s.deferred) : Balanced s t := by
  constructor
  · rw [hi]
  · rw [hd]

theorem within {s' t' : WalkState} (h : Balanced s' t)
    (hs : s'.imports = s.imports ∧ s'.deferred = s.deferred)
    (ht : t'.imports = t.imports ∧ t'.deferred = t.deferred) : Balanced s t' :=
  (alike hs.1 hs.2).trans (h.trans (alike ht.1 ht.2))

theorem through {name : String} (h : Balanced (s.withImports (·.push name)) t) :
    Balanced s (t.withImports (·.pop)) where
  stack := by
    show t.imports.stack.drop 1 = s.imports.stack
    rw [h.stack]
    rfl
  settling := h.settling

theorem handle (s : WalkState) (d : DeferredImport) :
    Balanced s { s with deferred := (s.deferred.handle d).2 } :=
  ⟨rfl, s.deferred.isSettling_handle d⟩

end Balanced

/-- The contract of balanced work, also of work that fails. -/
def balance : Contract where
  Ready _ _ _ := True
  Kept := Balanced
  Entered _ := Balanced
  Scanned s _ := Balanced s
  Broken s _ := Balanced s

variable {ctx : Context}

theorem balance_generalLaws : balance.GeneralLaws ctx where
  refl := .refl
  trans := .trans
  broken_trans := .trans
  refused _ := .refl _
  unparsed _ := .refl _
  during _ h := h
  exhausted _ := .refl _

theorem balance_enterLaws : balance.EnterLaws ctx where
  skipped _ _ := .refl _
  merged _ _ _ _ := .alike rfl rfl
  ignored _ _ _ _ := .refl _
  enters _ _ := trivial
  entered _ _ h _ := h.within ⟨rfl, rfl⟩ ⟨rfl, rfl⟩
  reenters _ _ _ := trivial
  reentered _ _ _ h _ := h.within ⟨rfl, rfl⟩ ⟨rfl, rfl⟩
  reenter_broken h := h.within ⟨rfl, rfl⟩ ⟨rfl, rfl⟩
  entered_imported h := h

theorem balance_ascendLaws : balance.AscendLaws ctx where
  reported _ := .alike rfl rfl
  member _ _ _ _ := trivial
  through_member _ _ _ h := h.through
  through_member_broken _ _ _ h := h.through
  sources _ _ := .alike rfl rfl
  ascend_imports _ _ _ := trivial
  noted _ _ := .alike rfl rfl
  ascends _ _ _ _ _ := trivial

theorem balance_scanLaws : balance.ScanLaws ctx where
  scan_begun _ _ _ _ := .alike rfl rfl
  scan_refused _ := .alike rfl rfl
  scan_passed h _ _ := h.trans (.alike rfl rfl)
  scan_enters _ _ _ _ _ _ := trivial
  scan_entered h _ _ _ h' := h.trans (h'.within ⟨rfl, rfl⟩ ⟨rfl, rfl⟩)
  scan_broken h _ h' := h.trans (h'.within ⟨rfl, rfl⟩ ⟨rfl, rfl⟩)
  scan_done h := h

theorem balance_importLaws : balance.ImportLaws ctx where
  through_imports _ _ h := h.through
  through_imports_broken _ _ h := h.through
  recorded _ _ := ⟨rfl, rfl⟩
  imports_enter _ _ _ _ _ := trivial
  imports_more _ _ _ _ _ _ := trivial
  waits d := .handle _ d
  registrars _ _ := .alike rfl rfl

theorem balance_lawful (ctx : Context) : balance.Lawful ctx where
  toGeneralLaws := balance_generalLaws
  toEnterLaws := balance_enterLaws
  toAscendLaws := balance_ascendLaws
  toScanLaws := balance_scanLaws
  toImportLaws := balance_importLaws

/-! ## Whole walks -/

/-- No class is being gone through, and no deferred imports are being settled. -/
structure Quiet (s : WalkState) : Prop where
  stack : s.imports.stack = []
  waits : s.deferred.isSettling = false

theorem Balanced.quiet {s t : WalkState} (h : Balanced s t) (hs : Quiet s) : Quiet t :=
  ⟨h.stack.trans hs.stack, h.settling.trans hs.waits⟩

theorem leads_enterRootsBy_balanced (ctx : Context) (roots : List (String × String)) (h : Held) :
    Leads (enterRootsBy ctx (visit ctx (depthBound ctx)) roots) h
      (fun _ h' => Balanced h.state h'.state) fun _ h' => Balanced h.state h'.state := by
  refine Leads.forM (fun _ (h' : Held) => Balanced h.state h'.state) (.refl _) ?_
  intro root rest h' _ hk
  show Leads (enterRoot ctx root.1 root.2) h' _ _
  refine (Contract.leads_enterRoot (balance_lawful ctx).steps ((balance_lawful ctx).visit _)
    fun _ _ => trivial).mono ?_ ?_
  · rintro - t ⟨-, decl, -, ht⟩
    exact hk.trans ht
  · intro e t ht
    exact hk.trans ht

/-- Deferred imports are being settled up to the end of it, so none that is met then waits. -/
theorem balanced_of_settlement {u v : Held} {outcome : Except Error Unit}
    (h : (settlementBy ctx (visit ctx (depthBound ctx))).run.run u = (outcome, v)) :
    Balanced { u.state with deferred := ⟨none⟩ } v.state := by
  have hsettle := Contract.leads_settlement (h := u) (balance_lawful ctx).steps
    ((balance_lawful ctx).visit _) fun _ _ _ _ _ _ => trivial
  unfold Leads at hsettle
  rw [h] at hsettle
  cases outcome with
  | ok => exact hsettle
  | error e => exact hsettle

/-- A state that a sequence of walks comes to, whether they succeed or fail. Between two of them
everything may change but which classes are being gone through, and the deferred imports. -/
inductive Called (ctx : Context) : WalkState → Prop
  | new (world : World) : Called ctx { world }
  | parse {s : WalkState} (roots : List (String × String)) (h : Called ctx s) :
    Called ctx (s.parse ctx roots).2
  | between {s t : WalkState} (h : Called ctx s) (hi : t.imports.stack = s.imports.stack)
    (hd : t.deferred = s.deferred) : Called ctx t

theorem quiet_of_parse (ctx : Context) {s : WalkState} (hs : Quiet s)
    (roots : List (String × String)) : Quiet (s.parse ctx roots).2 := by
  have hroots := leads_enterRootsBy_balanced ctx roots ⟨default, s⟩
  unfold Leads at hroots
  rcases hp : s.parse ctx roots with ⟨outcome, t⟩
  rcases parse_eq_iff.1 hp with ⟨e, u, hrun, -, rfl⟩ | ⟨u, v, hrun, hsettled, rfl⟩
  · rw [hrun] at hroots
    exact hroots.quiet hs
  · rw [hrun] at hroots
    have hend := balanced_of_settlement hsettled
    exact ⟨hend.stack.trans (hroots.quiet hs).stack, rfl⟩

theorem quiet_of_called {s : WalkState} (h : Called ctx s) : Quiet s := by
  induction h with
  | new world => exact ⟨rfl, rfl⟩
  | parse roots _ ih => exact quiet_of_parse ctx ih roots
  | between _ hi hd ih =>
    constructor
    · rw [hi]
      exact ih.stack
    · rw [hd]
      exact ih.waits

/-- However often walks are made, and whether they succeed or fail: after each of them no class is
being gone through, and no deferred imports are being settled. After one that succeeds none wait
either. All that waited was gone through from the end of the roots on, and up to the end of that
none could wait again. -/
theorem quiescent_of_called {s : WalkState} (h : Called ctx s) (roots : List (String × String)) :
    (s.parse ctx roots).2.imports.stack = [] ∧
      (s.parse ctx roots).2.deferred.isSettling = false ∧
      ((s.parse ctx roots).1 = .ok () → (s.parse ctx roots).2.deferred.size = 0 ∧ ∃ u v,
        (enterRootsBy ctx (visit ctx (depthBound ctx)) roots).run.run ⟨default, s⟩ = (.ok (), u) ∧
        (settlementBy ctx (visit ctx (depthBound ctx))).run.run u = (.ok (), v) ∧
        v.state.deferred.isSettling = true ∧ v.state.deferred.size = 0 ∧
        (s.parse ctx roots).2 = { v.state with deferred := .finish }) := by
  have hquiet := quiet_of_parse ctx (quiet_of_called h) roots
  refine ⟨hquiet.stack, hquiet.waits, ?_⟩
  rcases hp : s.parse ctx roots with ⟨outcome, t⟩
  rintro rfl
  rcases parse_eq_iff.1 hp with ⟨e, u, -, he, -⟩ | ⟨u, v, hrun, hsettled, rfl⟩
  · cases he
  · have hsettling : v.state.deferred.isSettling = true :=
      (balanced_of_settlement hsettled).settling
    exact ⟨rfl, u, v, hrun, hsettled, hsettling, DeferredQueue.size_of_isSettling hsettling, rfl⟩

/-- A class that imports one with a deferred import and an unknown one, and a deferred import that
leads to another one. -/
def relays : Descriptor :=
  { classes :=
      [{ name := "Torn",
          marks := { declared := [.naming AnnotationType.importing ["Early", "Unknown"]] } },
        { name := "Early", marks := { declared := [.naming AnnotationType.importing ["Late"]] } },
        { name := "App" },
        { name := "Next", marks := { declared := [.naming AnnotationType.importing ["Later"]] } },
        { name := "Log" }]
    plugins :=
      [.deferredSelector "Late" ["Next"] none none false,
        .deferredSelector "Later" ["Log"] none none false] }

/-- A walk that fails while a deferred import waits, and one that succeeds after it, in which
another deferred import is only met while the first one is being settled. -/
theorem quiescent_of_called_relays : ∃ ctx w s,
    Context.ofDescriptor relays "." { workingDirectory := [], files := [] } Table.empty =
      .ok (ctx, w) ∧
    s = (({ world := w } : WalkState).parse ctx [("torn", "Torn")]).2 ∧
    (({ world := w } : WalkState).parse ctx [("torn", "Torn")]).1 ≠ .ok () ∧
    s.deferred.size = 1 ∧
    (s.parse ctx [("app", "App")]).1 = .ok () ∧
    (s.parse ctx [("app", "App")]).2.storedNames = ["Early", "App", "Log", "Next"] ∧
    Called ctx s ∧
    (s.parse ctx [("app", "App")]).2.imports.stack = [] ∧
      (s.parse ctx [("app", "App")]).2.deferred.isSettling = false ∧
      ((s.parse ctx [("app", "App")]).1 = .ok () →
        (s.parse ctx [("app", "App")]).2.deferred.size = 0 ∧ ∃ u v,
          (enterRootsBy ctx (visit ctx (depthBound ctx)) [("app", "App")]).run.run ⟨default, s⟩ =
            (.ok (), u) ∧
          (settlementBy ctx (visit ctx (depthBound ctx))).run.run u = (.ok (), v) ∧
          v.state.deferred.isSettling = true ∧ v.state.deferred.size = 0 ∧
          (s.parse ctx [("app", "App")]).2 = { v.state with deferred := .finish }) := by
  have h : Context.ofDescriptor relays "." { workingDirectory := [], files := [] } Table.empty =
    .ok (_, _) := rfl
  refine ⟨_, _, _, h, rfl, ?_, ?_, ?_, ?_, .parse _ (.new _),
    quiescent_of_called (.parse _ (.new _)) [("app", "App")]⟩
  · decide +kernel
  · decide +kernel
  · decide +kernel
  · decide +kernel

end Walk

end Wiring
