import Wiring.Proofs.Walk.Roots

/-!
# What a walk makes of the registry and the problems

Only a few steps of a walk have to do with the registry or with the problems found: scans register
components and mark those that are configuration classes, and circular imports are reported. So a
relation between states that has to do with nothing else relates the state before a walk to the one
after it as soon as it does so for these steps, whether the walk comes to its end or fails.
-/

namespace Wiring

namespace Walk

/-- What is made of the registry and the problems of a state. -/
structure Outward (ctx : Context) where
  Kept : WalkState → WalkState → Prop
  trans {s t u} : Kept s t → Kept t u → Kept s u
  alike {s t} : t.registry = s.registry → t.diagnostics = s.diagnostics → Kept s t
  reported (s : WalkState) (p : Problem) : Kept s (s.report p)
  marked {s name isCandidate r} :
    s.registry.markCandidate ctx.reader name = (isCandidate, r) → Kept s (s.withRegistry r)
  registered {s found outcome r} :
    Scan.register s.registry found = (outcome, r) → Kept s (s.withRegistry r)

namespace Outward

variable {ctx : Context} (O : Outward ctx)

theorem refl (s : WalkState) : O.Kept s s := O.alike rfl rfl

/-- What all pieces of work make of the registry and the problems, also those that fail. -/
def contract : Contract where
  Ready _ _ _ := True
  Kept := O.Kept
  Entered _ := O.Kept
  Scanned s _ := O.Kept s
  Broken s _ := O.Kept s

theorem within {s s' t t' : WalkState} (h : O.Kept s' t)
    (hs : s'.registry = s.registry ∧ s'.diagnostics = s.diagnostics)
    (ht : t'.registry = t.registry ∧ t'.diagnostics = t.diagnostics) : O.Kept s t' :=
  O.trans (O.alike hs.1 hs.2) (O.trans h (O.alike ht.1 ht.2))

theorem generalLaws : O.contract.GeneralLaws ctx where
  refl := O.refl
  trans := O.trans
  broken_trans := O.trans
  refused _ := O.refl _
  unparsed _ := O.refl _
  during _ h := h
  exhausted _ := O.refl _

theorem enterLaws : O.contract.EnterLaws ctx where
  skipped _ _ := O.refl _
  merged _ _ _ _ := O.alike rfl rfl
  ignored _ _ _ _ := O.refl _
  enters _ _ := trivial
  entered _ _ h _ := O.within h ⟨rfl, rfl⟩ ⟨rfl, rfl⟩
  reenters _ _ _ := trivial
  reentered _ _ _ h _ := O.within h ⟨rfl, rfl⟩ ⟨rfl, rfl⟩
  reenter_broken h := O.within h ⟨rfl, rfl⟩ ⟨rfl, rfl⟩
  entered_imported h := h

theorem ascendLaws : O.contract.AscendLaws ctx where
  reported _ := O.reported _ _
  member _ _ _ _ := trivial
  through_member _ _ _ h := O.within h ⟨rfl, rfl⟩ ⟨rfl, rfl⟩
  through_member_broken _ _ _ h := O.within h ⟨rfl, rfl⟩ ⟨rfl, rfl⟩
  sources _ _ := O.alike rfl rfl
  ascend_imports _ _ _ := trivial
  noted _ _ := O.alike rfl rfl
  ascends _ _ _ _ _ := trivial

theorem scanLaws : O.contract.ScanLaws ctx where
  scan_begun _ _ _ hr := O.registered hr
  scan_refused hr := O.registered hr
  scan_passed h hm _ := O.trans h (O.marked hm)
  scan_enters _ _ _ _ _ _ := trivial
  scan_entered h hm _ _ h' := O.trans h (O.trans (O.marked hm) h')
  scan_broken h hm h' := O.trans h (O.trans (O.marked hm) h')
  scan_done h := h

theorem importLaws : O.contract.ImportLaws ctx where
  through_imports _ _ h := O.within h ⟨rfl, rfl⟩ ⟨rfl, rfl⟩
  through_imports_broken _ _ h := O.within h ⟨rfl, rfl⟩ ⟨rfl, rfl⟩
  recorded _ _ := O.alike rfl rfl
  imports_enter _ _ _ _ _ := trivial
  imports_more _ _ _ _ _ _ := trivial
  waits _ := O.alike rfl rfl
  registrars _ _ := O.alike rfl rfl

theorem lawful : O.contract.Lawful ctx where
  toGeneralLaws := O.generalLaws
  toEnterLaws := O.enterLaws
  toAscendLaws := O.ascendLaws
  toScanLaws := O.scanLaws
  toImportLaws := O.importLaws

/-- What a whole walk makes of the registry and the problems, also if it fails. -/
theorem parse (s : WalkState) (roots : List (String × String)) :
    O.Kept s (s.parse ctx roots).2 := by
  have hwalk := Contract.leads_fromRoots O.lawful.steps (O.lawful.visit _) roots (h := ⟨default, s⟩)
    (fun _ t => O.Kept s t) (O.refl s)
    (fun _ _ _ _ _ _ ht _ => ⟨trivial, fun _ hu => O.trans ht hu⟩) fun _ _ _ _ _ _ _ _ => trivial
  have hparse := WalkState.parse_of_leads (fun t => O.Kept s t) (fun _ t => O.Kept s t)
    (hwalk.mono (fun _ h' hd => ?_) fun e h' hb => ?_)
  · rcases hp : s.parse ctx roots with ⟨_ | _, t⟩
    · exact hparse.2 _ t hp
    · exact hparse.1 t hp
  · obtain ⟨t, u, ht, hu, hst⟩ := hd
    rw [hst]
    exact O.trans ht (O.within hu ⟨rfl, rfl⟩ ⟨rfl, rfl⟩)
  · rcases hb with ⟨_, t, ht, hu⟩ | ⟨t, u, ht, hu, hst⟩
    · exact O.trans ht hu
    · rw [hst]
      exact O.trans ht (O.within hu ⟨rfl, rfl⟩ ⟨rfl, rfl⟩)

end Outward

end Walk

end Wiring
