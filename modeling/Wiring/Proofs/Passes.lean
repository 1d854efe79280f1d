import Mathlib.Logic.Relation
import Wiring.Proofs.Load
import Wiring.Proofs.Walk.Nodes
import Wiring.Resolution

/-!
# The passes of a resolution

A pass walks from its starts, loads what the walk has stored anew, and looks for the starts of the
next pass among the definitions that have come in.
-/

open Relation (ReflTransGen)

namespace Wiring

namespace WalkState

theorem validate_eq (s : WalkState) :
    s.validate.classes = s.classes ∧ s.validate.world = s.world ∧
      s.validate.deferred = s.deferred := by
  unfold validate
  refine List.foldlRecOn (motive := fun (t : WalkState) =>
    t.classes = s.classes ∧ t.world = s.world ∧ t.deferred = s.deferred) _ _ ⟨rfl, rfl, rfl⟩
    fun t ht c _ => ?_
  split
  · exact ht
  · exact ht

end WalkState

namespace Passes

/-! ## Looking for starts -/

section Starts

variable {reader : Reader} {r r' : Registry} {names : List String} {found : List Start}

theorem start?_cases {s? : Option Start} {name : String} (h : start? reader r name = (s?, r')) :
    r.markCandidate? reader name = none ∧ r' = r ∨
      r.markCandidate? reader name = some r' ∧
        s? = (r'.get? name).bind fun d => d.className?.map fun className =>
          { beanName := name, className, precedence := .ofValue? d.order? } := by
  unfold start? at h
  split at h
  next hm => cases h; exact .inl ⟨hm, rfl⟩
  next hm => cases h; exact .inr ⟨hm, rfl⟩

/-- Looking at definitions marks them at most, and finds all that are of configuration classes. -/
theorem starts_spec (h : starts reader r names = (found, r')) :
    r'.names = r.names ∧
      (∀ name, r'.classOf? reader name = r.classOf? reader name) ∧
      ∀ name ∈ names, ∀ c, r.Offers reader name c →
        ∃ s ∈ found, reader.read? s.className = some c := by
  induction names generalizing r found with
  | nil =>
    cases h
    exact ⟨rfl, fun _ => rfl, fun name hn => absurd hn List.not_mem_nil⟩
  | cons n rest ih =>
    unfold starts at h
    rcases hs : start? reader r n with ⟨s?, r₁⟩
    rcases hrest : starts reader r₁ rest with ⟨found', r₂⟩
    rw [hs] at h
    simp only [hrest, Prod.mk.injEq] at h
    obtain ⟨rfl, rfl⟩ := h
    obtain ⟨hnames, hclass, hfound⟩ := ih hrest
    have hmarked : r₁.names = r.names ∧
        ∀ name, r₁.classOf? reader name = r.classOf? reader name := by
      rcases start?_cases hs with ⟨-, rfl⟩ | ⟨hm, -⟩
      · exact ⟨rfl, fun _ => rfl⟩
      · exact ⟨Registry.names_of_markCandidate? hm,
          fun _ => Registry.classOf?_of_markCandidate? hm⟩
    refine ⟨hnames.trans hmarked.1, fun name => (hclass name).trans (hmarked.2 name), ?_⟩
    intro name hn c ho
    have ho₁ := ho.of_classOf?_eq (hmarked.2 name)
    rcases List.mem_cons.1 hn with rfl | hn
    · rcases start?_cases hs with ⟨hm, -⟩ | ⟨hm, rfl⟩
      · obtain ⟨r'', hr''⟩ := ho.exists_markCandidate?
        rw [hm] at hr''
        cases hr''
      · obtain ⟨d, className, hd, -, hc, hread⟩ := Registry.exists_of_classOf? ho₁.class_eq
        refine ⟨⟨name, className, .ofValue? d.order?⟩, ?_, hread⟩
        simp [hd, hc]
    · obtain ⟨s, hm, hread⟩ := hfound name hn c ho₁
      exact ⟨s, List.mem_append_right _ hm, hread⟩

theorem first_spec (h : first reader r = (found, r')) :
    r'.names = r.names ∧
      (∀ name, r'.classOf? reader name = r.classOf? reader name) ∧
      ((∀ name d, r.get? name = some d → d.kind? = none) →
        ∀ name c, r.Offers reader name c → ∃ s ∈ found, reader.read? s.className = some c) := by
  unfold first at h
  simp only at h
  rcases hs : starts reader r
    (r.names.filter fun name => ((r.get? name).bind (·.kind?)).isNone) with ⟨found', r₁⟩
  rw [hs] at h
  simp only [Prod.mk.injEq] at h
  obtain ⟨rfl, rfl⟩ := h
  obtain ⟨hnames, hclass, hfound⟩ := starts_spec hs
  refine ⟨hnames, hclass, fun hunmarked name c ho => ?_⟩
  obtain ⟨d, -, hd, -⟩ := Registry.exists_of_classOf? ho.class_eq
  obtain ⟨s, hm, hread⟩ := hfound name
    (List.mem_filter.2 ⟨ho.mem_names, by rw [hd, Option.bind_some, hunmarked name d hd]; rfl⟩) c ho
  exact ⟨s, Precedence.mem_sort.2 hm, hread⟩

/-- Where there are more definitions than before, a configuration class under a new name starts the
next pass, unless it has been loaded. -/
theorem next_spec {p : Passes} (h : p.next reader r = (found, r')) :
    r'.names = r.names ∧
      (∀ name, r'.classOf? reader name = r.classOf? reader name) ∧
      ∀ name c, r.Offers reader name c → p.names.length < r.names.length → name ∉ p.names →
        (∀ className, reader.read? className = some c → className ∉ p.loaded) →
        ∃ s ∈ found, reader.read? s.className = some c := by
  unfold next at h
  split at h
  next hle =>
    cases h
    exact ⟨rfl, fun _ => rfl, fun _ _ _ hlt => absurd hle (Nat.not_le_of_lt hlt)⟩
  next =>
    rcases hs : starts reader r (r.names.filter (!p.names.contains ·)) with ⟨found', r₁⟩
    rw [hs] at h
    simp only [Prod.mk.injEq] at h
    obtain ⟨rfl, rfl⟩ := h
    obtain ⟨hnames, hclass, hfound⟩ := starts_spec hs
    refine ⟨hnames, hclass, fun name c ho _ hn hl => ?_⟩
    obtain ⟨s, hm, hread⟩ := hfound name
      (List.mem_filter.2 ⟨ho.mem_names, by simpa using hn⟩) c ho
    exact ⟨s, List.mem_filter.2 ⟨hm, by simpa using hl _ hread⟩, hread⟩

end Starts

/-! ## Single passes -/

variable {ctx : Context} {load : Loader}

/-- The roots that a pass walks from. -/
def roots (found : List Start) : List (String × String) :=
  found.map fun s => (s.beanName, s.className)

/-- The classes that have been stored and not loaded. -/
def batch (p : Passes) (walk : WalkState) : List ConfigurationClass :=
  walk.classes.filter fun c => !p.loaded.contains c.name

/-- What a pass that does not fail goes through: the state that its walk leads to, and the report
and the world that loading comes to. -/
structure Passed (ctx : Context) (load : Loader) (p : Passes) (found : List Start) (p' : Passes)
    (found' : List Start) (walk : WalkState) (report : LoadReport) (w : World) : Prop where
  parsed : p.walk.parse ctx (roots found) = (.ok (), walk)
  loads : load walk.world (p.batch walk) walk.classes = (.ok report, w)
  classes_eq : p'.walk.classes = walk.classes
  deferred_eq : p'.walk.deferred = walk.deferred
  batches_eq : p'.batches =
    p.batches ++ [⟨(p.batch walk).map (·.name), walk.classes.map (·.name)⟩]
  loaded_eq : p'.loaded = p.loaded ++ (p.batch walk).map (·.name)
  next_eq : { p with loaded := p'.loaded }.next ctx.reader w.registry = (found', p'.walk.registry)
  names_eq : p'.names = p'.walk.registry.names

theorem passed_of_pass {p p' : Passes} {found found' : List Start}
    (h : pass ctx load p found = (.ok found', p')) :
    ∃ walk report w, Passed ctx load p found p' found' walk report w := by
  unfold pass at h
  rcases hparse : p.walk.parse ctx (roots found) with ⟨_ | _, walk⟩
  all_goals
    unfold roots at hparse
    rw [hparse] at h
    simp only at h
  · cases h
  rcases henforce : walk.validate.enforce ctx.settings.problemPolicy with ⟨_ | _, checked⟩
  all_goals
    rw [henforce] at h
    simp only at h
  · cases h
  have hchecked : checked.classes = walk.classes ∧ checked.world = walk.world ∧
      checked.deferred = walk.deferred := by
    have he : { walk.validate with
        diagnostics := (walk.validate.diagnostics.enforce ctx.settings.problemPolicy).2 } =
        checked := congrArg Prod.snd henforce
    rw [← he]
    exact walk.validate_eq
  rw [hchecked.1, hchecked.2.1] at h
  rcases hload : load walk.world (p.batch walk) walk.classes with ⟨_ | report, w⟩
  all_goals
    unfold batch at hload
    rw [hload] at h
    simp only at h
  · cases h
  cases h
  exact ⟨walk, report, w, hparse, hload, rfl, hchecked.2.2, rfl, rfl, rfl, rfl⟩

/-! ## Runs -/

/-- One pass leads to the next. -/
def Step (ctx : Context) (load : Loader) (a b : Passes × List Start) : Prop :=
  a.2 ≠ [] ∧ pass ctx load a.1 a.2 = (.ok b.2, b.1)

/-- A run that does not fail goes from pass to pass until there is nothing to start from. -/
theorem steps_of_run {bound : Nat} {p p' : Passes} {found : List Start}
    (h : run ctx load bound p found = (.ok (), p')) :
    ReflTransGen (Step ctx load) (p, found) (p', []) := by
  induction bound generalizing p found with
  | zero =>
    cases found with
    | nil => cases h; exact .refl
    | cons s rest => cases h
  | succ bound ih =>
    cases found with
    | nil => cases h; exact .refl
    | cons s rest =>
      unfold run at h
      rcases hpass : pass ctx load p (s :: rest) with ⟨_ | found', p₁⟩
      · rw [hpass] at h
        cases h
      · rw [hpass] at h
        exact .head ⟨List.cons_ne_nil _ _, hpass⟩ (ih h)

/-- What holds between passes: the stored classes are sound, all definitions have been looked at,
and what has been loaded is stored. -/
structure Standing (p : Passes) : Prop where
  sound : Walk.Sound p.walk
  names_eq : p.names = p.walk.registry.names
  loaded : p.loaded ⊆ p.walk.storedNames

section Passed

variable {p p' : Passes} {found found' : List Start} {walk : WalkState} {report : LoadReport}
  {w : World} (h : Passed ctx load p found p' found' walk report w)

include h

theorem Passed.advanced : Walk.Advanced ctx p.walk [] walk ∧
    ∀ s ∈ found, Walk.RootStored ctx walk (s.beanName, s.className) := by
  obtain ⟨-, hadvanced⟩ := Walk.advanced_of_parse ctx p.walk (roots found)
  rw [h.parsed] at hadvanced
  obtain ⟨hwalk, hroots⟩ := hadvanced rfl
  exact ⟨hwalk, fun s hs => hroots _ (List.mem_map_of_mem hs)⟩

theorem Passed.storedNames_eq : p'.walk.storedNames = walk.storedNames :=
  congrArg (List.map _) h.classes_eq

theorem Standing.passed (hp : Standing p) : Standing p' where
  sound := (h.advanced.1.sound hp.sound).of_classes_eq h.classes_eq
  names_eq := h.names_eq
  loaded := by
    rw [h.loaded_eq, h.storedNames_eq]
    refine List.append_subset.2 ⟨List.Subset.trans hp.loaded h.advanced.1.stored, ?_⟩
    exact List.map_subset _ List.filter_sublist.subset

end Passed

end Passes

end Wiring
