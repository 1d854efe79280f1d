import Wiring.Proofs.ImportLog
import Wiring.Proofs.Walk.Imports
import Wiring.Proofs.Walk.Stored

/-!
# Circles of imports

Where classes only import, a walk reports a circular import exactly if imports lead in a circle.
What is reported is always a circle: the chain of a problem is a path of imports from a root. The
other way round, as long as nothing has been reported the last importers of the classes being gone
through lead down the stack, so that the first import of one of them is found to be chained, and a
class that has been stored leads to no circle.
-/

open Relation (ReflTransGen TransGen)

namespace Wiring

variable (ctx : Context) (roots : List (String × String))

/-- A problem that shows a circle: its chain is a path of imports from a root that goes through its
class, and the last class of the chain imports that class. -/
structure ShowsCircle (p : Problem) : Prop where
  kind : p.kind = .circularImport
  path : p.chain.IsChain ctx.Imports
  root : ∃ root ∈ roots, p.chain.head? = some root.2
  mem : p.className ∈ p.chain
  closes : ∃ last, p.chain.getLast? = some last ∧ ctx.Imports last p.className

variable {ctx roots}

theorem ShowsCircle.importPath {p : Problem} (h : ShowsCircle ctx roots p) :
    ctx.ImportPath roots p.chain.reverse := by
  obtain ⟨root, hr, hhead⟩ := h.root
  exact ⟨List.isChain_reverse.2 h.path, root, hr, by rw [List.getLast?_reverse, hhead]⟩

theorem ShowsCircle.circle {p : Problem} (h : ShowsCircle ctx roots p) :
    ctx.Reaches roots p.className ∧ TransGen ctx.Imports p.className p.className := by
  have hpath := h.importPath
  have hmem := List.mem_reverse.2 h.mem
  obtain ⟨last, hlast, hcloses⟩ := h.closes
  rw [← List.head?_reverse] at hlast
  obtain ⟨rest, hrest⟩ := List.head?_eq_some_iff.1 hlast
  rw [hrest] at hpath hmem
  exact ⟨hpath.reaches_of_mem hmem, .tail' (hpath.reflTransGen hmem) hcloses⟩

/-- What is reported about a class that is being gone through shows a circle. -/
theorem showsCircle_circularImport {name : String} {stack : List String}
    (hp : ctx.ImportPath roots (name :: stack)) (hm : name ∈ stack) :
    ShowsCircle ctx roots (.circularImport name stack.reverse) := by
  cases stack with
  | nil => cases hm
  | cons importer stack =>
    obtain ⟨hchain, root, hr, hlast⟩ := hp.tail
    constructor
    · rfl
    · exact List.isChain_reverse.2 hchain
    · exact ⟨root, hr, by rw [← hlast]; exact List.head?_reverse⟩
    · exact List.mem_reverse.2 hm
    · exact ⟨importer, List.getLast?_reverse, hp.1.rel⟩

namespace Walk

/-! ## While nothing has been reported -/

/-- What holds of the stored classes while nothing has been reported: none of them is being gone
through, and imports lead from them to an end. -/
structure Ended (ctx : Context) (s : WalkState) : Prop where
  nodup : s.storedNames.Nodup
  apart : ∀ name ∈ s.imports.stack, name ∉ s.storedNames
  acc : ∀ name ∈ s.storedNames, Acc (fun b a => ctx.Imports a b) name

/-- While nothing has been reported, the last importers lead down the stack. -/
structure Clear (ctx : Context) (s : WalkState) : Prop extends Ended ctx s where
  links : s.imports.stack.IsChain s.imports.Follows

/-- A class that is about to be entered while nothing has been reported: the last importers lead
from it down the stack, or back to it. -/
structure Approach (ctx : Context) (name : String) (s : WalkState) : Prop extends Ended ctx s where
  links : name ∉ s.imports.stack → (name :: s.imports.stack).IsChain s.imports.Follows
  circle : name ∈ s.imports.stack → s.imports.isChained name = true

/-- What is asked of walking through imports to tell circles. -/
def circleContract (ctx : Context) (roots : List (String × String)) : ImportContract where
  Ready c s := ctx.reader.read? c.name = some c.decl ∧
    ctx.ImportPath roots (c.name :: s.imports.stack) ∧
    (∀ p ∈ s.diagnostics.problems, ShowsCircle ctx roots p) ∧
    (s.diagnostics.problems = [] → Approach ctx c.name s)
  Entered c s t := (∀ p ∈ t.diagnostics.problems, ShowsCircle ctx roots p) ∧
    (t.diagnostics.problems = [] → s.diagnostics.problems = [] ∧ Clear ctx t ∧
      Acc (fun b a => ctx.Imports a b) c.name)
  Going c s rest t := (∀ p ∈ t.diagnostics.problems, ShowsCircle ctx roots p) ∧
    (t.diagnostics.problems = [] → s.diagnostics.problems = [] ∧ Clear ctx t ∧
      ∀ name ∈ ctx.importsOf c.name, name ∈ rest ∨ Acc (fun b a => ctx.Imports a b) name)
  Broken _ t := ∀ p ∈ t.diagnostics.problems, ShowsCircle ctx roots p

/-! ### Recording an import -/

theorem follows_record_self (l : ImportLog) (importing imported : String) :
    (l.record importing imported).Follows imported importing := by
  unfold ImportLog.Follows ImportLog.lastImporter? ImportLog.record
  rw [ImportLog.importersOf, Table.get?_insert, if_pos rfl]
  exact List.getLast?_concat

theorem follows_record_of_ne {l : ImportLog} {importing imported a b : String} (hne : a ≠ imported)
    (h : l.Follows a b) : (l.record importing imported).Follows a b := by
  unfold ImportLog.Follows ImportLog.lastImporter? ImportLog.record at *
  rw [ImportLog.importersOf, Table.get?_insert, if_neg hne]
  exact h

theorem reflTransGen_record {l : ImportLog} {importing imported a : String} {below : List String}
    (hl : (a :: below).IsChain l.Follows) (hm : imported ∈ a :: below) :
    ReflTransGen (l.record importing imported).Follows a imported := by
  induction below generalizing a with
  | nil => rw [List.mem_singleton.1 hm]
  | cons b below ih =>
    by_cases ha : a = imported
    · rw [ha]
    · have hb := (List.mem_cons.1 hm).resolve_left (Ne.symm ha)
      exact .head (follows_record_of_ne ha hl.rel) (ih hl.tail hb)

/-- After an import has been recorded, its class may be entered: where it is being gone through, the
last importers lead down the stack to it. -/
theorem Clear.approach {s : WalkState} {importing : String} {below : List String} (h : Clear ctx s)
    (hs : s.imports.stack = importing :: below) (imported : String) :
    Approach ctx imported (s.withImports (·.record importing imported)) where
  nodup := h.nodup
  apart := h.apart
  acc := h.acc
  links hn := by
    have hn : imported ∉ s.imports.stack := hn
    have hlinks : s.imports.stack.IsChain (s.imports.record importing imported).Follows :=
      h.links.imp_of_mem_imp fun a b ha _ hab => follows_record_of_ne (fun he => hn (he ▸ ha)) hab
    show (imported :: s.imports.stack).IsChain (s.imports.record importing imported).Follows
    rw [hs] at hlinks ⊢
    exact .cons_cons (follows_record_self _ _ _) hlinks
  circle hm := by
    have hm : imported ∈ s.imports.stack := hm
    refine ImportLog.isChained_iff.2 ⟨List.elem_eq_true_of_mem hm, ?_⟩
    refine .head' (follows_record_self _ _ _) ?_
    have hlinks := h.links
    rw [hs] at hlinks hm
    exact reflTransGen_record hlinks hm

/-! ### Every step keeps to the contract -/

/-- A class that is found not to be chained is not being gone through. -/
theorem Approach.clear {name : String} {s : WalkState} (h : Approach ctx name s)
    (hc : s.imports.isChained name = false) :
    name ∉ s.imports.stack ∧ (name :: s.imports.stack).IsChain s.imports.Follows := by
  have hn : name ∉ s.imports.stack := fun hm => by
    rw [h.circle hm] at hc
    cases hc
  exact ⟨hn, h.links hn⟩

theorem Approach.clear_of_stored {name : String} {s : WalkState} (h : Approach ctx name s)
    (hs : name ∈ s.storedNames) : Clear ctx s where
  toEnded := h.toEnded
  links := (h.links fun hm => h.apart name hm hs).tail

theorem acc_of_imports {name : String}
    (h : ∀ b ∈ ctx.importsOf name, Acc (fun b a => ctx.Imports a b) b) :
    Acc (fun b a => ctx.Imports a b) name :=
  .intro name fun b hb => h b hb

theorem not_circle_of_acc {name : String} (h : Acc (fun b a => ctx.Imports a b) name) :
    ¬ TransGen ctx.Imports name name := by
  have hirrefl : ∀ a, Acc (TransGen fun b a => ctx.Imports a b) a →
      ¬ TransGen (fun b a => ctx.Imports a b) a a := by
    intro a ha
    induction ha with
    | intro a _ ih => exact fun haa => ih a haa haa
  exact fun hc => hirrefl name h.transGen (Relation.transGen_swap.2 hc)

theorem acc_of_reflTransGen {a b : String} (h : Acc (fun b a => ctx.Imports a b) a)
    (hab : ReflTransGen ctx.Imports a b) : Acc (fun b a => ctx.Imports a b) b := by
  induction hab with
  | refl => exact h
  | tail _ hbc ih => exact ih.inv hbc

theorem Ended.begun {c : ConfigurationClass} {s s₀ : WalkState} (h : Ended ctx s)
    (hb : Begun c s s₀) : Ended ctx s₀ := by
  have hnames := hb.storedNames_eq h.nodup
  constructor
  · rw [hnames]
    exact h.nodup.filter _
  · intro name hn hs
    rw [hb.imports_eq] at hn
    rw [hnames] at hs
    exact h.apart name hn (List.mem_filter.1 hs).1
  · intro name hs
    rw [hnames] at hs
    exact h.acc name (List.mem_filter.1 hs).1

/-- Storing a class that has come to an end and is not being gone through. -/
theorem Ended.store {t : WalkState} {c : ConfigurationClass} (h : Ended ctx t)
    (hn : c.name ∉ t.storedNames) (hc : c.name ∉ t.imports.stack)
    (ha : Acc (fun b a => ctx.Imports a b) c.name) : Ended ctx (t.store c) := by
  have hnames := WalkState.storedNames_store hn
  constructor
  · exact WalkState.nodup_store h.nodup
  · intro name hname hs
    rw [hnames, List.mem_append, List.mem_singleton] at hs
    rcases hs with hs | rfl
    · exact h.apart name hname hs
    · exact hc hname
  · intro name hs
    rw [hnames, List.mem_append, List.mem_singleton] at hs
    rcases hs with hs | rfl
    · exact h.acc name hs
    · exact ha

theorem Ended.merged {s : WalkState} {c : ConfigurationClass} (h : Ended ctx s) (name : String) :
    Ended ctx (s.update name (·.mergeImporters c)) := by
  have hnames := s.storedNames_mergeImporters name c
  exact ⟨hnames ▸ h.nodup, fun a ha => hnames ▸ h.apart a ha, fun a ha => h.acc a (hnames ▸ ha)⟩

section Laws

variable {c : ConfigurationClass} {s s₀ t : WalkState}

theorem not_mem_stack_of_acc (hpath : ctx.ImportPath roots (c.name :: s.imports.stack))
    (ha : Acc (fun b a => ctx.Imports a b) c.name) : c.name ∉ s.imports.stack :=
  fun hm => not_circle_of_acc ha (hpath.transGen hm)

theorem Begun.showsCircle (hb : Begun c s s₀)
    (h : ∀ p ∈ s.diagnostics.problems, ShowsCircle ctx roots p) :
    ∀ p ∈ s₀.diagnostics.problems, ShowsCircle ctx roots p := by
  rw [hb.diagnostics_eq]
  exact h

theorem Approach.stored (h : Approach ctx c.name s) (hb : Begun c s s₀)
    (hn : c.name ∉ s.imports.stack) (ha : Acc (fun b a => ctx.Imports a b) c.name) :
    Clear ctx (s₀.store (c.gathered ctx)) := by
  constructor
  · exact (h.toEnded.begun hb).store (hb.not_mem_storedNames h.nodup) (hb.imports_eq ▸ hn) ha
  · show s₀.imports.stack.IsChain s₀.imports.Follows
    rw [hb.imports_eq]
    exact (h.links hn).tail

theorem Approach.pushed (h : Approach ctx c.name s) (hb : Begun c s s₀)
    (hch : s.imports.isChained c.name = false) :
    Clear ctx (s₀.withImports (·.push c.name)) := by
  have he := h.toEnded.begun hb
  refine ⟨⟨he.nodup, fun name hn => ?_, he.acc⟩, ?_⟩
  · rcases List.mem_cons.1 hn with rfl | hn
    · exact hb.not_mem_storedNames h.nodup
    · exact he.apart name hn
  · show (c.name :: s₀.imports.stack).IsChain s₀.imports.Follows
    rw [hb.imports_eq]
    exact (h.clear hch).2

/-- A class whose imports have come to an end is popped and stored. -/
theorem Clear.popped (h : Clear ctx t) (hst : t.imports.stack = c.name :: s.imports.stack)
    (hn : c.name ∉ s.imports.stack) (ha : Acc (fun b a => ctx.Imports a b) c.name) :
    Clear ctx ((t.withImports (·.pop)).store (c.gathered ctx)) := by
  have hpop : (t.withImports (·.pop)).imports.stack = s.imports.stack := by
    show t.imports.stack.drop 1 = s.imports.stack
    rw [hst]
    rfl
  have hstored : c.name ∉ t.storedNames := h.apart _ (hst ▸ List.mem_cons_self)
  have hsub : s.imports.stack ⊆ t.imports.stack := by
    rw [hst]
    exact List.subset_cons_self _ _
  have he : Ended ctx (t.withImports (·.pop)) :=
    ⟨h.nodup, fun name hm => h.apart name (hsub (hpop ▸ hm)), h.acc⟩
  refine ⟨he.store hstored (hpop ▸ hn) ha, ?_⟩
  have hlinks := h.links
  rw [hst] at hlinks
  show (t.withImports (·.pop)).imports.stack.IsChain t.imports.Follows
  rw [hpop]
  exact hlinks.tail

variable (hr : (circleContract ctx roots).Ready c s)

include hr

theorem imports_of_ready {name : String} (hn : name ∈ collectImports ctx.reader c.decl) :
    ctx.Imports c.name name := by
  rw [Context.Imports, Context.importsOf_eq hr.1]
  exact hn

theorem showsCircle_chained (hb : Begun c s s₀) (hch : s₀.imports.isChained c.name = true) :
    ∀ p ∈ (s₀.report (.circularImport c.name s₀.imports.chain)).diagnostics.problems,
      ShowsCircle ctx roots p := by
  rw [hb.imports_eq, ImportLog.isChained_iff] at hch
  intro p hp
  rcases List.mem_append.1 hp with hp | hp
  · exact hb.showsCircle hr.2.2.1 p hp
  · rw [List.mem_singleton.1 hp, hb.imports_eq]
    exact showsCircle_circularImport hr.2.1 (List.mem_of_elem_eq_true hch.1)

end Laws

/-- Walking through imports keeps to the contract where classes only import. -/
theorem circleContract_lawful (hc : ctx.Declared) (ho : ctx.OnlyImports roots) :
    (circleContract ctx roots).Lawful ctx where
  plain hr := ho.plain _ _ hr.2.1.reaches hr.1
  importable {c s name} hr hn := by
    have hi := imports_of_ready hr hn
    exact ⟨ho.noPlugin _ _ hr.2.1.reaches hi, ho.known _ _ hr.2.1.reaches hi⟩
  merged {c s k} hr hk _ _ := by
    refine ⟨hr.2.2.1, fun hp => ?_⟩
    have ha := hr.2.2.2 hp
    have hs := WalkState.mem_storedNames_of_stored? hk
    refine ⟨hp, ⟨ha.toEnded.merged _, (ha.clear_of_stored hs).links⟩, ha.acc _ hs⟩
  ignored {c s k} hr hk _ _ := by
    refine ⟨hr.2.2.1, fun hp => ?_⟩
    have ha := hr.2.2.2 hp
    have hs := WalkState.mem_storedNames_of_stored? hk
    exact ⟨hp, ha.clear_of_stored hs, ha.acc _ hs⟩
  leaf {c s s₀} hr hb hl := by
    refine ⟨hb.showsCircle hr.2.2.1, fun hp => ?_⟩
    have hp : s.diagnostics.problems = [] := hb.diagnostics_eq ▸ hp
    have hacc : Acc (fun b a => ctx.Imports a b) c.name := by
      refine acc_of_imports fun b hi => ?_
      rw [Context.importsOf_eq hr.1, hl] at hi
      cases hi
    exact ⟨hp, (hr.2.2.2 hp).stored hb (not_mem_stack_of_acc hr.2.1 hacc) hacc, hacc⟩
  chained {c s s₀} hr hb hch :=
    ⟨showsCircle_chained hr hb hch,
      fun hp => absurd hp (List.append_ne_nil_of_right_ne_nil _ nofun)⟩
  deep {c s s₀} hr hb _ _ := hb.showsCircle hr.2.2.1
  begun {c s s₀} hr hb hch := by
    refine ⟨hb.showsCircle hr.2.2.1, fun hp => ?_⟩
    have hp₀ : s₀.diagnostics.problems = [] := hp
    have ha := hr.2.2.2 (hb.diagnostics_eq ▸ hp₀)
    refine ⟨hp₀, ha.pushed hb (hb.imports_eq ▸ hch), fun name hn => ?_⟩
    rw [Context.importsOf_eq hr.1] at hn
    exact .inl hn
  next {c s s₀ name rest t decl} hr hb hg hst hn hd := by
    have hname := Reader.name_of_read? hc.wellNamed hd
    refine ⟨?_, ?_, hg.1, fun hp => ?_⟩
    · show ctx.reader.read? decl.name = some decl
      rw [hname, hd]
    · show ctx.ImportPath roots (decl.name :: t.imports.stack)
      rw [hname, hst, hb.imports_eq]
      exact hr.2.1.cons (imports_of_ready hr hn)
    · show Approach ctx decl.name _
      rw [hname]
      exact (hg.2 hp).2.1.approach hst name
  nexted {c s s₀ name rest t decl u} hr hb hg hst hn hd hu := by
    refine ⟨hu.1, fun hp => ?_⟩
    obtain ⟨hpt, hclear, hacc⟩ := hu.2 hp
    obtain ⟨hp₀, -, hleft⟩ := hg.2 hpt
    refine ⟨hp₀, hclear, fun x hx => ?_⟩
    rcases hleft x hx with hx | hx
    · rcases List.mem_cons.1 hx with rfl | hx
      · have hname : decl.name = x := Reader.name_of_read? hc.wellNamed hd
        exact .inr (hname ▸ hacc)
      · exact .inl hx
    · exact .inr hx
  done {c s s₀ t} hr hb hg hst := by
    refine ⟨hg.1, fun hp => ?_⟩
    obtain ⟨hp₀, hclear, hleft⟩ := hg.2 hp
    have hacc : Acc (fun b a => ctx.Imports a b) c.name :=
      acc_of_imports fun b hi => (hleft b hi).resolve_left List.not_mem_nil
    rw [hb.imports_eq] at hst
    exact ⟨hb.diagnostics_eq ▸ hp₀, hclear.popped hst (not_mem_stack_of_acc hr.2.1 hacc) hacc, hacc⟩
  popped hb := hb
  during _ hb := hb
  exhausted {c s t} hr ht := by
    rcases ht with rfl | hb
    · exact hr.2.2.1
    · exact hb.showsCircle hr.2.2.1

/-! ## Whole walks -/

/-- What holds between roots: whatever has been reported shows a circle, and as long as nothing has
been reported imports lead from the roots that have been entered to an end. -/
def Toured (ctx : Context) (roots rest : List (String × String)) (s : WalkState) : Prop :=
  (∀ p ∈ s.diagnostics.problems, ShowsCircle ctx roots p) ∧
    (s.diagnostics.problems = [] → Clear ctx s ∧
      ∀ root ∈ roots, root ∈ rest ∨ Acc (fun b a => ctx.Imports a b) root.2)

theorem toured_new (ctx : Context) (roots : List (String × String)) (world : World) :
    Toured ctx roots roots { world } :=
  ⟨nofun, fun _ => ⟨⟨⟨.nil, nofun, nofun⟩, .nil⟩, fun _ hr => .inl hr⟩⟩

theorem Toured.ready {rest : List (String × String)} {s : WalkState} {beanName className : String}
    {decl : ClassDecl} (h : Toured ctx roots ((beanName, className) :: rest) s)
    (hc : ctx.Declared) (hr : (beanName, className) ∈ roots) (hs : s.imports.stack = [])
    (hd : ctx.reader.read? className = some decl) :
    (circleContract ctx roots).Ready (.explicit decl beanName) s := by
  have hname : decl.name = className := Reader.name_of_read? hc.wellNamed hd
  refine ⟨?_, ?_, h.1, fun hp => ?_⟩
  · show ctx.reader.read? decl.name = some decl
    rw [hname, hd]
  · show ctx.ImportPath roots (decl.name :: s.imports.stack)
    rw [hname, hs]
    exact .ofRoot hr
  · refine ⟨(h.2 hp).1.toEnded, fun _ => ?_, fun hm => ?_⟩
    · rw [hs]
      exact .singleton _
    · rw [hs] at hm
      cases hm

theorem Toured.entered {rest : List (String × String)} {s t : WalkState}
    {beanName className : String} {decl : ClassDecl}
    (h : Toured ctx roots ((beanName, className) :: rest) s) (hc : ctx.Declared)
    (hd : ctx.reader.read? className = some decl)
    (ht : (circleContract ctx roots).Entered (.explicit decl beanName) s t) :
    Toured ctx roots rest t := by
  refine ⟨ht.1, fun hp => ?_⟩
  obtain ⟨hps, hclear, hacc⟩ := ht.2 hp
  refine ⟨hclear, fun root hr => ?_⟩
  rcases (h.2 hps).2 root hr with hm | hm
  · rcases List.mem_cons.1 hm with rfl | hm
    · have hname : decl.name = className := Reader.name_of_read? hc.wellNamed hd
      exact .inr (hname ▸ hacc)
    · exact .inl hm
  · exact .inr hm

/-- Where classes only import, a walk that comes to its end has reported a circular import exactly
if the imports reached from the roots lead in a circle. It reports nothing else, and whatever it
reports, also before it fails, shows a circle. -/
theorem parse_reports_circles {d : Descriptor} {directory : String} {files : FileTree}
    {exported : Table String} {w : World}
    (h : Context.ofDescriptor d directory files exported = .ok (ctx, w))
    (ho : ctx.OnlyImports roots) (world : World) :
    ((({ world } : WalkState).parse ctx roots).1 = .ok () →
      ((∃ p ∈ (({ world } : WalkState).parse ctx roots).2.diagnostics.problems,
          p.kind = .circularImport) ↔
        ∃ name, ctx.Reaches roots name ∧ TransGen ctx.Imports name name)) ∧
    ∀ p ∈ (({ world } : WalkState).parse ctx roots).2.diagnostics.problems,
      ShowsCircle ctx roots p := by
  have hc := Context.declared_of_ofDescriptor h
  have hwalk := ImportContract.leads_fromRoots (h := ⟨default, { world }⟩)
    (K := fun _ => circleContract ctx roots) (fun _ => circleContract_lawful hc ho) roots
    (fun _ _ _ hb => hb) (Toured ctx roots) (toured_new ctx roots world) rfl rfl
    fun beanName className rest t hsuf ht hs =>
      ⟨fun _ _ => ht.1, fun decl hd =>
        ⟨ht.ready hc (hsuf.subset List.mem_cons_self) hs hd, fun u hu => ht.entered hc hd hu⟩⟩
  have hparse := WalkState.parse_of_leads (Toured ctx roots [])
    (fun _ t => ∀ p ∈ t.diagnostics.problems, ShowsCircle ctx roots p)
    (hwalk.mono (fun _ _ hd => hd.1) fun _ _ hf => hf)
  rcases hp : ({ world } : WalkState).parse ctx roots with ⟨_ | _, t⟩
  · exact ⟨nofun, hparse.2 _ t hp⟩
  · have ht := hparse.1 t hp
    refine ⟨fun _ => ⟨?_, ?_⟩, ht.1⟩
    · rintro ⟨p, hm, -⟩
      exact ⟨p.className, (ht.1 p hm).circle⟩
    · rintro ⟨name, ⟨root, hr, hi⟩, hcircle⟩
      cases hproblems : t.diagnostics.problems with
      | cons p rest =>
        refine ⟨p, List.mem_cons_self, (ht.1 p ?_).kind⟩
        rw [hproblems]
        exact List.mem_cons_self
      | nil =>
        have hacc := ((ht.2 hproblems).2 root hr).resolve_left List.not_mem_nil
        exact absurd hcircle (not_circle_of_acc (acc_of_reflTransGen hacc hi))

/-- Two classes that import each other, and one that both import. -/
def ring : Descriptor :=
  { classes :=
      [{ name := "Shop",
          marks := { declared := [.naming AnnotationType.importing ["Till", "Log"]] } },
        { name := "Till",
          marks := { declared := [.naming AnnotationType.importing ["Log", "Shop"]] } },
        { name := "Log" }] }

theorem parse_reports_circles_ring : ∃ ctx w,
    Context.ofDescriptor ring "." { workingDirectory := [], files := [] } Table.empty =
      .ok (ctx, w) ∧
    ctx.OnlyImports [("shop", "Shop")] ∧
    (({ world := w } : WalkState).parse ctx [("shop", "Shop")]).1 = .ok () ∧
    ∃ name, ctx.Reaches [("shop", "Shop")] name ∧ TransGen ctx.Imports name name := by
  have h : Context.ofDescriptor ring "." { workingDirectory := [], files := [] } Table.empty =
    .ok (_, _) := rfl
  refine ⟨_, _, h, ?only, ?ends, ((parse_reports_circles h ?only _).1 ?ends).1 ?found⟩
  case only =>
    exact .of_closed ["Shop", "Till", "Log"] (by decide +kernel) (by decide +kernel)
  case ends => decide +kernel
  case found => decide +kernel

end Walk

end Wiring
