import Wiring.Proofs.Walk.Outward

/-!
# The problems that a walk reports

A walk adds to the problems that have been found and takes none of them back, whether it comes to
its end or fails. It enforces none of them.
-/

namespace Wiring

namespace Diagnostics

/-- Problems may have come in behind the others; none has been enforced. -/
structure Extends (d e : Diagnostics) : Prop where
  problems : d.problems <+: e.problems
  enforced : e.enforced = d.enforced

namespace Extends

variable {d e f : Diagnostics}

@[refl] theorem refl (d : Diagnostics) : d.Extends d := ⟨List.prefix_refl _, rfl⟩

theorem trans (h : d.Extends e) (h' : e.Extends f) : d.Extends f :=
  ⟨h.problems.trans h'.problems, h'.enforced.trans h.enforced⟩

theorem report (d : Diagnostics) (p : Problem) : d.Extends (d.report p) :=
  ⟨List.prefix_append _ _, rfl⟩

theorem reportAll (d : Diagnostics) (ps : List Problem) : d.Extends (d.reportAll ps) :=
  ⟨List.prefix_append _ _, rfl⟩

end Extends

end Diagnostics

namespace Walk

/-- No problem that was found before is taken back. -/
def noticing (ctx : Context) : Outward ctx where
  Kept s t := s.diagnostics.Extends t.diagnostics
  trans hs ht := hs.trans ht
  alike _ hd := hd ▸ .refl _
  reported s p := .report s.diagnostics p
  marked _ := .refl _
  registered _ := .refl _

theorem extends_of_parse (ctx : Context) (s : WalkState) (roots : List (String × String)) :
    s.diagnostics.Extends (s.parse ctx roots).2.diagnostics :=
  (noticing ctx).parse s roots

end Walk

end Wiring
