import Wiring.Proofs.Candidate
import Wiring.Proofs.Scan
import Wiring.Proofs.Walk.Roots

/-!
# How deep a walk nests

No single number gets smaller with each piece of work of a walk. Imports are pushed up to the import
depth, members are pushed only while they are not being gone through, scans do not push but register
a name, and a superclass is gone through only while it is not known, which entering a root or a
component anew undoes. `need` weighs these against each other, and every piece of work leads to work
that needs less.
-/

namespace Wiring

namespace Walk

variable {ctx : Context}

/-! ## What is left to do -/

/-- The number of known classes. -/
def known (ctx : Context) : Nat := ctx.reader.classNames.length

/-- How many classes may be pushed on top of those being gone through: by imports up to the import
depth, and as members each known class that is not being gone through. -/
def room (ctx : Context) (l : ImportLog) : Nat :=
  (ctx.settings.maxImportDepth - l.depth) +
    ctx.reader.classNames.countP fun name => !l.contains name

/-- The number of known classes that a scan could still register. -/
def fresh (ctx : Context) (r : Registry) : Nat :=
  ctx.reader.classNames.countP fun name =>
    (ctx.reader.read? name).any fun c => decide (Scan.beanName c ∉ r.names)

/-- The number of known classes that have not been gone through as superclasses. -/
def unclimbed (ctx : Context) (s : WalkState) : Nat :=
  ctx.reader.classNames.countP fun name => !s.knowsSuperclass name

/-- What is left for scans and superclasses. A scan that registers a name may make all superclasses
unknown. -/
def potential (ctx : Context) (s : WalkState) : Nat :=
  (known ctx + 1) * fresh ctx s.registry + unclimbed ctx s

/-- What is left for scans and superclasses once a class has been taken out. -/
def potentialAnew (ctx : Context) (s : WalkState) : Nat :=
  (known ctx + 1) * fresh ctx s.registry + known ctx

/-- How deep the steps of a piece of work may nest. -/
def need (ctx : Context) (h : Held) : Visit → Nat
  | .enter =>
    3 * room ctx h.state.imports + 3 +
      2 * if h.inHand.isImported then potential ctx h.state else potentialAnew ctx h.state
  | .ascend _ => 3 * room ctx h.state.imports + 2 + 2 * potential ctx h.state
  | .imports .. => 3 * room ctx h.state.imports + 1 + 2 * potential ctx h.state

/-- The greatest number of classes that are gone through at a time from here on. -/
def ceiling (ctx : Context) (l : ImportLog) : Nat := max l.peak (l.depth + room ctx l)

@[simp] theorem need_enter_imported (decl : ClassDecl) (owner : String) (s : WalkState) :
    need ctx ⟨.imported decl owner, s⟩ .enter =
      3 * room ctx s.imports + 3 + 2 * potential ctx s := rfl

@[simp] theorem need_enter_explicit (decl : ClassDecl) (beanName : String) (s : WalkState) :
    need ctx ⟨.explicit decl beanName, s⟩ .enter =
      3 * room ctx s.imports + 3 + 2 * potentialAnew ctx s := rfl

@[simp] theorem need_ascend (source : ClassDecl) (c : ConfigurationClass) (s : WalkState) :
    need ctx ⟨c, s⟩ (.ascend source) = 3 * room ctx s.imports + 2 + 2 * potential ctx s := rfl

@[simp] theorem need_imports (source : ClassDecl) (names : List String) (guarded : Bool)
    (c : ConfigurationClass) (s : WalkState) :
    need ctx ⟨c, s⟩ (.imports source names guarded) =
      3 * room ctx s.imports + 1 + 2 * potential ctx s := rfl

theorem room_le (ctx : Context) (l : ImportLog) :
    room ctx l ≤ ctx.settings.maxImportDepth + known ctx :=
  Nat.add_le_add (Nat.sub_le _ _) List.countP_le_length

theorem fresh_le_known (r : Registry) : fresh ctx r ≤ known ctx := List.countP_le_length

theorem unclimbed_le_known (s : WalkState) : unclimbed ctx s ≤ known ctx := List.countP_le_length

theorem potential_le_anew (ctx : Context) (s : WalkState) : potential ctx s ≤ potentialAnew ctx s :=
  Nat.add_le_add_left (unclimbed_le_known s) _

theorem room_push_of_depth {l : ImportLog} (name : String)
    (h : l.depth < ctx.settings.maxImportDepth) : room ctx (l.push name) < room ctx l := by
  have hle : (ctx.reader.classNames.countP fun n => !(l.push name).contains n) ≤
      ctx.reader.classNames.countP fun n => !l.contains n := by
    refine List.countP_mono_left fun n _ hn => ?_
    simp only [ImportLog.contains, ImportLog.stack_push, List.contains_cons, Bool.not_or,
      Bool.and_eq_true] at hn ⊢
    exact hn.2
  unfold room
  rw [ImportLog.depth_push]
  omega

theorem room_push_of_known {l : ImportLog} {name : String} (hn : name ∈ ctx.reader.classNames)
    (h : l.contains name = false) : room ctx (l.push name) < room ctx l := by
  have hlt : (ctx.reader.classNames.countP fun n => !(l.push name).contains n) <
      ctx.reader.classNames.countP fun n => !l.contains n := by
    refine countP_lt_countP hn (fun n _ hc => ?_) ?_ (by rw [h]; rfl)
    · simp only [ImportLog.contains, ImportLog.stack_push, List.contains_cons, Bool.not_or,
        Bool.and_eq_true] at hc ⊢
      exact hc.2
    · simp [ImportLog.contains]
  unfold room
  rw [ImportLog.depth_push]
  omega

theorem fresh_anti {r r' : Registry} (h : r.names ⊆ r'.names) : fresh ctx r' ≤ fresh ctx r := by
  refine List.countP_mono_left fun name _ hn => ?_
  rw [Option.any_eq_true] at hn ⊢
  obtain ⟨c, hc, hf⟩ := hn
  rw [decide_eq_true_iff] at hf
  exact ⟨c, hc, decide_eq_true fun hm => hf (h hm)⟩

theorem fresh_congr {r r' : Registry} (h : r'.names = r.names) : fresh ctx r' = fresh ctx r := by
  unfold fresh
  rw [h]

/-- Registering a known class leaves fewer of them. -/
theorem fresh_lt {r r' : Registry} {name : String} {c : ClassDecl} (h : r.names ⊆ r'.names)
    (hn : name ∈ ctx.reader.classNames) (hc : ctx.reader.read? name = some c)
    (hr : Scan.beanName c ∉ r.names) (hr' : Scan.beanName c ∈ r'.names) :
    fresh ctx r' < fresh ctx r := by
  refine countP_lt_countP hn (fun n _ hf => ?_) ?_ ?_
  · rw [Option.any_eq_true] at hf ⊢
    obtain ⟨d, hd, hf⟩ := hf
    rw [decide_eq_true_iff] at hf
    exact ⟨d, hd, decide_eq_true fun hm => hf (h hm)⟩
  · rw [hc, Option.any_some]
    exact decide_eq_false fun hn => hn hr'
  · rw [hc, Option.any_some]
    exact decide_eq_true hr

theorem knowsSuperclass_noteSuperclass (s : WalkState) (name owner n : String) :
    (s.noteSuperclass name owner).knowsSuperclass n = (n == name || s.knowsSuperclass n) := by
  unfold WalkState.knowsSuperclass WalkState.noteSuperclass
  rw [List.lookup_cons]
  cases n == name <;> rfl

theorem unclimbed_noteSuperclass_le (s : WalkState) (name owner : String) :
    unclimbed ctx (s.noteSuperclass name owner) ≤ unclimbed ctx s := by
  refine List.countP_mono_left fun n _ hc => ?_
  rw [knowsSuperclass_noteSuperclass, Bool.not_or, Bool.and_eq_true] at hc
  exact hc.2

theorem unclimbed_noteSuperclass_lt {s : WalkState} {name : String} (owner : String)
    (hn : name ∈ ctx.reader.classNames) (h : s.knowsSuperclass name = false) :
    unclimbed ctx (s.noteSuperclass name owner) < unclimbed ctx s := by
  refine countP_lt_countP hn (fun n _ hc => ?_) ?_ (by rw [h]; rfl)
  · rw [knowsSuperclass_noteSuperclass, Bool.not_or, Bool.and_eq_true] at hc
    exact hc.2
  · rw [knowsSuperclass_noteSuperclass, beq_self_eq_true]
    rfl

/-! ## The contract -/

/-- What work makes of the state: the classes being gone through are the same again, there have
never been more than there was room for, and no definition is taken out. -/
structure Nested (ctx : Context) (s t : WalkState) : Prop where
  stack : t.imports.stack = s.imports.stack
  peak : t.imports.peak ≤ ceiling ctx s.imports
  names : s.registry.names ⊆ t.registry.names

namespace Nested

variable {s t u : WalkState}

theorem refl (s : WalkState) : Nested ctx s s :=
  ⟨rfl, Nat.le_max_left _ _, List.Subset.refl _⟩

theorem of_names (hi : t.imports = s.imports) (hr : t.registry.names = s.registry.names) :
    Nested ctx s t :=
  ⟨by rw [hi], by rw [hi]; exact Nat.le_max_left _ _, by rw [hr]; exact List.Subset.refl _⟩

theorem room_eq (h : Nested ctx s t) : room ctx t.imports = room ctx s.imports := by
  unfold room ImportLog.depth ImportLog.contains
  rw [h.stack]

theorem ceiling_le (h : Nested ctx s t) : ceiling ctx t.imports ≤ ceiling ctx s.imports := by
  have hp := h.peak
  unfold ceiling at hp ⊢
  rw [h.room_eq, ImportLog.depth, ImportLog.depth, h.stack] at *
  omega

theorem trans (h : Nested ctx s t) (h' : Nested ctx t u) : Nested ctx s u :=
  ⟨h'.stack.trans h.stack, Nat.le_trans h'.peak h.ceiling_le, List.Subset.trans h.names h'.names⟩

end Nested

theorem ceiling_push_le {l : ImportLog} {name : String}
    (h : room ctx (l.push name) < room ctx l) :
    ceiling ctx (l.push name) ≤ ceiling ctx l := by
  unfold ceiling
  rw [ImportLog.depth_push]
  have hpeak : (l.push name).peak = max l.peak (l.depth + 1) := rfl
  omega

theorem Nested.through {s t : WalkState} {name : String}
    (hroom : room ctx (s.imports.push name) < room ctx s.imports)
    (h : Nested ctx (s.withImports (·.push name)) t) : Nested ctx s (t.withImports (·.pop)) where
  stack := by
    show t.imports.stack.drop 1 = s.imports.stack
    rw [h.stack]
    rfl
  peak := Nat.le_trans h.peak (ceiling_push_le hroom)
  names := h.names

/-- The contract of a walk that does not nest too deep. A failure has a direct cause, so it is not
due to a bound, and it leaves behind what work that is done would. -/
def nesting (ctx : Context) : Contract where
  Ready n v h := need ctx h v ≤ n ∧
    match v with
    | .enter | .ascend _ => h.inHand.name ∈ ctx.reader.classNames
    | .imports .. => True
  Kept s t := Nested ctx s t ∧ potential ctx t ≤ potential ctx s
  Entered c s t := Nested ctx s t ∧ (c.isImported → potential ctx t ≤ potential ctx s)
  Scanned s names t := Nested ctx s t ∧
    (fresh ctx t.registry < fresh ctx s.registry ∨
      names = [] ∧ potential ctx t ≤ potential ctx s)
  Broken s e t := Nested ctx s t ∧ e.rootCause.isDirect

/-- With a class less to register, even superclasses that are all unknown again leave less to do. -/
theorem potentialAnew_lt {s t : WalkState}
    (h : fresh ctx t.registry < fresh ctx s.registry) : potentialAnew ctx t < potential ctx s := by
  have hmul := Nat.mul_le_mul_left (known ctx + 1) h
  unfold potentialAnew potential
  rw [Nat.mul_succ] at hmul
  omega

theorem potential_le {s t : WalkState} (hr : s.registry.names ⊆ t.registry.names)
    (hu : unclimbed ctx t ≤ unclimbed ctx s) : potential ctx t ≤ potential ctx s :=
  Nat.add_le_add (Nat.mul_le_mul_left _ (fresh_anti hr)) hu

/-! ## Every step keeps to the contract -/

theorem nesting_generalLaws (hc : ctx.Declared) : (nesting ctx).GeneralLaws ctx where
  refl s := ⟨.refl s, Nat.le_refl _⟩
  trans h h' := ⟨h.1.trans h'.1, Nat.le_trans h'.2 h.2⟩
  broken_trans h hb := ⟨h.1.trans hb.1, hb.2⟩
  refused h := by
    have hd := h.isDirect hc
    exact ⟨.refl _, by rw [Error.rootCause_of_isDirect hd]; exact hd⟩
  unparsed _ := ⟨.refl _, rfl⟩
  during message hb := ⟨hb.1, by rw [Error.rootCause_during]; exact hb.2⟩
  exhausted {v h} hr := by
    have hn := hr.1
    cases v <;> simp only [need] at hn <;> omega

theorem nesting_enterLaws : (nesting ctx).EnterLaws ctx where
  skipped _ _ := ⟨.refl _, fun _ => Nat.le_refl _⟩
  merged _ _ _ _ := ⟨.of_names rfl rfl, fun _ => Nat.le_refl _⟩
  ignored _ _ _ _ := ⟨.refl _, fun _ => Nat.le_refl _⟩
  enters {n c s} hr _ := by
    refine ⟨?_, hr.2⟩
    have hn := hr.1
    have hle := potential_le_anew ctx s
    simp only [need] at hn ⊢
    split at hn <;> omega
  entered _ _ hk _ := ⟨⟨hk.1.stack, hk.1.peak, hk.1.names⟩, fun _ => hk.2⟩
  reenters {n c s k} hr _ hi := by
    refine ⟨?_, hr.2⟩
    have hn := hr.1
    have hle := potential_le_anew ctx (s.discard c.name)
    have hanew : potentialAnew ctx (s.discard c.name) = potentialAnew ctx s := rfl
    have hroom : room ctx (s.discard c.name).imports = room ctx s.imports := rfl
    simp only [need, hi, Bool.false_eq_true, if_false] at hn ⊢
    omega
  reentered {n c s k t d} _ _ hi hk _ := by
    refine ⟨⟨hk.1.stack, hk.1.peak, hk.1.names⟩, fun h => ?_⟩
    rw [hi] at h
    cases h
  reenter_broken hb := ⟨⟨hb.1.stack, hb.1.peak, hb.1.names⟩, hb.2⟩
  entered_imported h := ⟨h.1, h.2 rfl⟩

theorem nesting_ascendLaws (hc : ctx.Declared) : (nesting ctx).AscendLaws ctx where
  reported _ := ⟨.of_names rfl rfl, Nat.le_refl _⟩
  member {n source c s t m} hr hk hm ht := by
    have hn := hr.1
    have hname : c.name ∈ ctx.reader.classNames := hr.2
    have hlt := room_push_of_known hname ht
    have heq := hk.1.room_eq
    have hle := hk.2
    have hpot : potential ctx (t.withImports (·.push c.name)) = potential ctx t := rfl
    have hroom : room ctx (t.withImports (·.push c.name)).imports =
        room ctx (t.imports.push c.name) := rfl
    refine ⟨?_, ?_⟩
    · rw [need_ascend] at hn
      rw [need_enter_imported, hpot, hroom]
      omega
    · obtain ⟨name, hread⟩ := read?_of_mem_members hm
      exact hc.name_mem hread
  through_member hr _ ht hu := ⟨hu.1.through (room_push_of_known hr.2 ht), hu.2⟩
  through_member_broken hr _ ht hb := ⟨hb.1.through (room_push_of_known hr.2 ht), hb.2⟩
  sources _ _ := ⟨.of_names rfl rfl, Nat.le_refl _⟩
  ascend_imports {n source c s d t} hr hk _ := by
    refine ⟨?_, trivial⟩
    have hn := hr.1
    have heq := hk.1.room_eq
    have hle := hk.2
    rw [need_ascend] at hn
    rw [need_imports]
    omega
  noted {s source name} owner hn :=
    ⟨.of_names rfl rfl, potential_le (List.Subset.refl _) (unclimbed_noteSuperclass_le _ _ _)⟩
  ascends {n source c s d t name above} hr hk hcd hnext hread := by
    have hn := hr.1
    have heq := hk.1.room_eq
    have hle := hk.2
    obtain ⟨-, hknows⟩ := Option.filter_eq_some_iff.1 hnext
    simp only [Bool.and_eq_true, Bool.not_eq_true'] at hknows
    have hlt : unclimbed ctx (t.noteSuperclass name d.name) < unclimbed ctx t :=
      unclimbed_noteSuperclass_lt d.name (Reader.mem_classNames (Reader.read_eq_ok.1 hread))
        hknows.2
    have hfresh : fresh ctx (t.noteSuperclass name d.name).registry = fresh ctx t.registry := rfl
    have hroom : room ctx (t.noteSuperclass name d.name).imports = room ctx t.imports := rfl
    refine ⟨?_, ?_⟩
    · rw [need_ascend] at hn ⊢
      rw [hroom]
      unfold potential at hle hn ⊢
      rw [hfresh]
      omega
    · have hname : c.name ∈ ctx.reader.classNames := hr.2
      rw [← hcd.name_eq] at hname
      exact hname

/-- A scan that has registered something leaves fewer classes to register. -/
theorem scanned_register {s : WalkState} {env : Environment} {directive : Annotation}
    {source : ClassDecl} {found : List ClassDecl} {names : List String} {r : Registry}
    (hf : Scan.candidates ctx env directive source = .ok found)
    (hreg : Scan.register s.registry found = (.ok names, r)) :
    (nesting ctx).Scanned s names (s.withRegistry r) := by
  obtain ⟨added, hentries, hnames, hadded⟩ := Scan.entries_register hreg
  have hsub := Scan.names_subset_register hreg
  refine ⟨⟨rfl, Nat.le_max_left _ _, hsub⟩, ?_⟩
  cases hnames names rfl
  cases added with
  | nil => exact .inr ⟨rfl, potential_le hsub (Nat.le_refl _)⟩
  | cons e rest =>
    obtain ⟨hnew, c, hc, rfl⟩ := hadded e List.mem_cons_self
    obtain ⟨name, hn, hread⟩ := Scan.read?_of_candidates hf hc
    refine .inl (fresh_lt hsub hn hread hnew ?_)
    show Scan.beanName c ∈ r.entries.map (·.1)
    rw [hentries]
    simp

theorem fresh_lt_of_scanned {s t : WalkState} {name : String} {names : List String}
    (h : (nesting ctx).Scanned s (name :: names) t) :
    fresh ctx t.registry < fresh ctx s.registry :=
  h.2.resolve_right fun hn => nomatch hn.1

theorem nesting_scanLaws (hc : ctx.Declared) : (nesting ctx).ScanLaws ctx where
  scan_begun _ _ hf hreg := scanned_register hf hreg
  scan_refused {s found e r} hreg := by
    have hd := Error.isDirect_of_isOwn (failsDirectly_register s.registry found e (by rw [hreg]))
    refine ⟨⟨rfl, Nat.le_max_left _ _, Scan.names_subset_register hreg⟩, ?_⟩
    rw [Error.rootCause_of_isDirect hd]
    exact hd
  scan_passed {s name names t isCandidate r} hs hm _ := by
    have hnames := Registry.names_markCandidate hm
    refine ⟨hs.1.trans (.of_names rfl hnames), .inl ?_⟩
    exact Nat.lt_of_le_of_lt (Nat.le_of_eq (fresh_congr hnames)) (fresh_lt_of_scanned hs)
  scan_enters {n source c s t name names u r className decl} hr hk hs hm _ hd := by
    have hn := hr.1
    have hnames := Registry.names_markCandidate hm
    have hroom : room ctx (u.withRegistry r).imports = room ctx s.imports :=
      hs.1.room_eq.trans hk.1.room_eq
    have hlt : potentialAnew ctx (u.withRegistry r) < potential ctx t :=
      potentialAnew_lt
        (Nat.lt_of_le_of_lt (Nat.le_of_eq (fresh_congr hnames)) (fresh_lt_of_scanned hs))
    have hle := hk.2
    refine ⟨?_, hc.name_mem (Reader.read_eq_ok.1 hd)⟩
    rw [need_ascend] at hn
    rw [need_enter_explicit]
    omega
  scan_entered {s name names t r className decl u} hs hm _ _ hu := by
    have hnames := Registry.names_markCandidate hm
    have hmarked : Nested ctx t (t.withRegistry r) := .of_names rfl hnames
    refine ⟨(hs.1.trans hmarked).trans hu.1, .inl ?_⟩
    have hlt := fresh_lt_of_scanned hs
    have hle : fresh ctx u.registry ≤ fresh ctx t.registry := fresh_anti (hmarked.trans hu.1).names
    omega
  scan_broken {s name names t isCandidate r e u} hs hm hb := by
    have hmarked : Nested ctx t (t.withRegistry r) :=
      .of_names rfl (Registry.names_markCandidate hm)
    exact ⟨(hs.1.trans hmarked).trans hb.1, hb.2⟩
  scan_done {s t} hs := by
    refine ⟨hs.1, hs.2.elim (fun hlt => ?_) fun h => h.2⟩
    exact Nat.le_trans (potential_le_anew ctx t) (Nat.le_of_lt (potentialAnew_lt hlt))

theorem nesting_importLaws (hc : ctx.Declared) : (nesting ctx).ImportLaws ctx where
  through_imports _ hd hk := ⟨hk.1.through (room_push_of_depth _ hd), hk.2⟩
  through_imports_broken _ hd hb := ⟨hb.1.through (room_push_of_depth _ hd), hb.2⟩
  recorded _ _ := ⟨⟨rfl, Nat.le_max_left _ _, List.Subset.refl _⟩, Nat.le_refl _⟩
  imports_enter {n source names guarded c s t name decl} hr hd hk _ hdecl := by
    have hn := hr.1
    have hlt := room_push_of_depth c.name hd
    have heq : room ctx (t.withImports (·.record source.name name)).imports =
        room ctx (s.imports.push c.name) := hk.1.room_eq
    have hle : potential ctx (t.withImports (·.record source.name name)) ≤ potential ctx s := hk.2
    refine ⟨?_, hc.name_mem (Reader.read_eq_ok.1 hdecl)⟩
    rw [need_imports] at hn
    rw [need_enter_imported]
    omega
  imports_more {n source names guarded c s d t} source' names' hr hd hk _ := by
    have hn := hr.1
    have hlt := room_push_of_depth c.name hd
    have heq : room ctx t.imports = room ctx (s.imports.push c.name) := hk.1.room_eq
    have hle : potential ctx t ≤ potential ctx s := hk.2
    refine ⟨?_, trivial⟩
    rw [need_imports] at hn ⊢
    omega
  waits d := ⟨.of_names rfl rfl, Nat.le_refl _⟩
  registrars _ _ := ⟨.of_names rfl rfl, Nat.le_refl _⟩

theorem nesting_lawful (hc : ctx.Declared) : (nesting ctx).Lawful ctx where
  toGeneralLaws := nesting_generalLaws hc
  toEnterLaws := nesting_enterLaws
  toAscendLaws := nesting_ascendLaws hc
  toScanLaws := nesting_scanLaws hc
  toImportLaws := nesting_importLaws hc

/-! ## Whole walks -/

/-- What is begun while no class is being gone through does not nest deeper than the bound allows.
-/
theorem need_le_depthBound {h : Held} (v : Visit) : need ctx h v ≤ depthBound ctx := by
  have hroom : room ctx h.state.imports ≤ ctx.settings.maxImportDepth + known ctx := room_le _ _
  have hanew : potentialAnew ctx h.state ≤ (known ctx + 1) * known ctx + known ctx :=
    Nat.add_le_add_right (Nat.mul_le_mul_left _ (fresh_le_known _)) _
  have hpot := potential_le_anew ctx h.state
  have hneed : need ctx h v ≤ 3 * (ctx.settings.maxImportDepth + known ctx) + 3 +
      2 * ((known ctx + 1) * known ctx + known ctx) := by
    cases v <;> simp only [need]
    · split <;> omega
    · omega
    · omega
  have hsize : ctx.reader.catalogue.classes.size = known ctx := (List.length_map _).symm
  unfold depthBound
  simp only
  rw [hsize, Nat.mul_add _ _ 4]
  have htwice := Nat.mul_le_mul_right ((known ctx + 2) * (known ctx + 2))
    (show 2 ≤ ctx.settings.maxImportDepth + 3 * (known ctx + 2) by omega)
  rw [Nat.add_mul] at hneed
  have hsquare : (known ctx + 2) * (known ctx + 2) =
      known ctx * known ctx + 4 * known ctx + 4 := by
    rw [Nat.add_mul, Nat.mul_add]
    omega
  omega

/-- No class is being gone through, and there have never been more than there may be. -/
def Resting (ctx : Context) (l : ImportLog) : Prop :=
  l.stack = [] ∧ l.peak ≤ ctx.settings.maxImportDepth + ctx.reader.classNames.length

theorem resting_new (ctx : Context) : Resting ctx {} := ⟨rfl, Nat.zero_le _⟩

theorem Nested.resting {s t : WalkState} (h : Nested ctx s t) (hs : Resting ctx s.imports) :
    Resting ctx t.imports := by
  refine ⟨h.stack.trans hs.1, Nat.le_trans h.peak ?_⟩
  have hroom : room ctx s.imports ≤ ctx.settings.maxImportDepth + ctx.reader.classNames.length :=
    room_le _ _
  have hdepth : s.imports.depth = 0 := List.length_eq_zero_iff.2 hs.1
  have hp := hs.2
  unfold ceiling
  omega

/-- A walk that fails does so with a direct cause, and however it ends nothing is being gone through
any more. -/
theorem resting_of_parse (hc : ctx.Declared) {s : WalkState} (hs : Resting ctx s.imports)
    (roots : List (String × String)) :
    (∀ e, (s.parse ctx roots).1 = .error e → e.rootCause.isDirect = true) ∧
      Resting ctx (s.parse ctx roots).2.imports := by
  have hwalk := Contract.leads_fromRoots (nesting_lawful hc).steps
    ((nesting_lawful hc).visit _) roots (h := ⟨default, s⟩)
    (fun _ t => Resting ctx t.imports) hs
    (fun beanName className rest t decl _ ht hd => by
      refine ⟨⟨need_le_depthBound _, hc.name_mem (Reader.read_eq_ok.1 hd)⟩, fun u hu => ?_⟩
      exact hu.1.resting ht)
    fun t _ source names u c hu _ => ⟨need_le_depthBound _, trivial⟩
  have hparse := WalkState.parse_of_leads (fun t => Resting ctx t.imports)
    (fun e t => e.rootCause.isDirect = true ∧ Resting ctx t.imports)
    (hwalk.mono (fun _ h' hd => ?_) fun e h' hb => ?_)
  · rcases hp : s.parse ctx roots with ⟨_ | _, t⟩
    · obtain ⟨hd, ht⟩ := hparse.2 _ t hp
      exact ⟨by rintro e ⟨⟩; exact hd, ht⟩
    · exact ⟨nofun, hparse.1 t hp⟩
  · obtain ⟨t, u, ht, hu, hst⟩ := hd
    rw [hst]
    exact hu.1.resting (t := u) ht
  · rcases hb with ⟨_, t, ht, hu⟩ | ⟨t, u, ht, hu, hst⟩
    · exact ⟨hu.2, hu.1.resting ht⟩
    · refine ⟨hu.2, ?_⟩
      rw [hst]
      exact hu.1.resting (t := u) ht

/-- In the context of a descriptor a walk comes to an end: no bound on its work is used up, but for
that on the depth of placeholders, whatever circles there are among imports, members, superclasses
and interfaces. The classes being gone through are never more than the import depth and the number
of known classes together, and in the end there are none, also when the walk fails. -/
theorem parse_ends {d : Descriptor} {directory : String} {files : FileTree}
    {exported : Table String} {w : World}
    (h : Context.ofDescriptor d directory files exported = .ok (ctx, w)) {s : WalkState}
    (hs : Resting ctx s.imports) (roots : List (String × String)) :
    (∀ work, Error.rootCauseOf? (s.parse ctx roots).1 = some (.exhausted work) →
      work = "the expansion of placeholders") ∧
    Resting ctx (s.parse ctx roots).2.imports := by
  obtain ⟨hdirect, hrest⟩ := resting_of_parse (Context.declared_of_ofDescriptor h) hs roots
  refine ⟨fun work hw => ?_, hrest⟩
  cases hp : (s.parse ctx roots).1 with
  | ok _ => rw [hp] at hw; cases hw
  | error e =>
    have hd := hdirect e hp
    rw [hp] at hw
    rw [Option.some.inj hw] at hd
    exact eq_of_beq hd

/-- Classes that lead to themselves in every way there is: by imports, a selector, members,
superclasses and interfaces. -/
def circles : Descriptor :=
  { settings := { maxImportDepth := 3 }
    classes :=
      [{ name := "Shop", superclass? := some "Till", interfaces := ["Ledger"],
          memberClasses := ["Till"],
          marks :=
            { declared :=
                [.naming AnnotationType.configuration [],
                  .naming AnnotationType.importing ["Again", "Shop"]] } },
        { name := "Till", superclass? := some "Shop", memberClasses := ["Shop"],
          marks := { declared := [.naming AnnotationType.configuration []] } },
        { name := "Ledger", kind := .interface, interfaces := ["Ledger"] }]
    plugins := [.selector "Again" ["Again"]] }

/-- A walk through circles fails at the import depth, and with nothing being gone through. -/
theorem parse_ends_circles : ∃ ctx w,
    Context.ofDescriptor circles "." { workingDirectory := [], files := [] } Table.empty =
      .ok (ctx, w) ∧
    Resting ctx {} ∧
    Error.rootCauseOf? (({ world := w } : WalkState).parse ctx [("shop", "Shop")]).1 =
      some (.importDepthExceeded "Shop" 3) ∧
    Resting ctx (({ world := w } : WalkState).parse ctx [("shop", "Shop")]).2.imports := by
  have h : Context.ofDescriptor circles "." { workingDirectory := [], files := [] } Table.empty =
    .ok (_, _) := rfl
  exact ⟨_, _, h, resting_new _, by decide +kernel,
    (parse_ends h (resting_new _) [("shop", "Shop")]).2⟩

end Walk

end Wiring
