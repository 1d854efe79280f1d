import Wiring.Deferred
import Wiring.Proofs.Declared
import Wiring.Scan
import Wiring.SourceMerger

/-!
# Failures of single operations

An operation that a walk is made of fails with a cause of its own: it does not say during which work
it failed, it does not give up, unless placeholders nest too deep, and it has nothing to do with
which classes are stored.
-/

namespace Wiring

namespace Error

/-- A cause that does not wrap another one and is not that of a bound that was used up, but for the
bound on the depth of placeholders. -/
def isDirect : Error → Bool
  | store .. => false
  | exhausted work => work == "the expansion of placeholders"
  | _ => true

/-- What is wrong with a class that imports are to be gone through for, but that is neither in hand
nor stored. -/
def unparsedText : String := "import group returned an entry for a class that was not parsed"

/-- Is this the cause that such a class is neither in hand nor stored? -/
def isUnparsed : Error → Bool
  | invalidConfiguration _ message => message == unparsedText
  | _ => false

/-- A cause that a single operation may come to. -/
def isOwn (e : Error) : Bool := e.isDirect && !e.isUnparsed

theorem isDirect_of_isOwn {e : Error} (h : e.isOwn = true) : e.isDirect = true :=
  (Bool.and_eq_true_iff.1 h).1

theorem isUnparsed_of_isOwn {e : Error} (h : e.isOwn = true) : e.isUnparsed = false := by
  rw [← Bool.not_eq_true']
  exact (Bool.and_eq_true_iff.1 h).2

theorem rootCause_of_isDirect {e : Error} (h : e.isDirect = true) : e.rootCause = e := by
  cases e with
  | store message source => cases h
  | _ => rfl

/-- The root cause of an outcome that is a failure. -/
def rootCauseOf? {α : Type} : Except Error α → Option Error
  | .ok _ => none
  | .error e => some e.rootCause

end Error

/-- An outcome that is a failure only with a direct cause of its own. -/
def FailsDirectly {α : Type} (outcome : Except Error α) : Prop :=
  ∀ e, outcome = .error e → e.isOwn = true

namespace FailsDirectly

variable {α β : Type}

theorem ok (a : α) : FailsDirectly (.ok a) := nofun

theorem error {e : Error} (h : e.isOwn = true) : FailsDirectly (.error e : Except Error α) := by
  rintro e' ⟨⟩
  exact h

theorem bind_of_ok {x : Except Error α} {f : α → Except Error β} (hx : FailsDirectly x)
    (hf : ∀ a, x = .ok a → FailsDirectly (f a)) : FailsDirectly (x >>= f) := by
  cases x with
  | ok a => exact hf a rfl
  | error e => exact error (hx e rfl)

theorem bind {x : Except Error α} {f : α → Except Error β} (hx : FailsDirectly x)
    (hf : ∀ a, FailsDirectly (f a)) : FailsDirectly (x >>= f) :=
  hx.bind_of_ok fun a _ => hf a

theorem map {x : Except Error α} (f : α → β) (hx : FailsDirectly x) : FailsDirectly (x.map f) := by
  cases x with
  | ok a => exact ok _
  | error e => exact error (hx e rfl)

theorem mapM {f : α → Except Error β} (hf : ∀ a, FailsDirectly (f a)) (l : List α) :
    FailsDirectly (l.mapM f) := by
  induction l with
  | nil => rw [List.mapM_nil]; exact ok _
  | cons a l ih =>
    rw [List.mapM_cons]
    exact (hf a).bind fun b => ih.bind fun bs => ok _

theorem foldlM {f : β → α → Except Error β} (hf : ∀ b a, FailsDirectly (f b a)) (l : List α)
    (b : β) : FailsDirectly (l.foldlM f b) := by
  induction l generalizing b with
  | nil => rw [List.foldlM_nil]; exact ok _
  | cons a l ih =>
    rw [List.foldlM_cons]
    exact (hf b a).bind fun b => ih b

theorem filterM {f : α → Except Error Bool} (hf : ∀ a, FailsDirectly (f a)) (l : List α) :
    FailsDirectly (l.filterM f) := by
  have haux (l acc : List α) : FailsDirectly (List.filterAuxM f l acc) := by
    induction l generalizing acc with
    | nil => exact ok _
    | cons a l ih => exact (hf a).bind fun b => by cases b <;> exact ih _
  exact (haux l []).bind fun _ => ok _

end FailsDirectly

/-! ## Texts, resources and property sources -/

theorem failsDirectly_expandRequired (env : Environment) (text : String) :
    FailsDirectly (env.expandRequired text) := by
  unfold Environment.expandRequired Placeholder.expand
  split
  · exact .ok _
  next failure _ =>
    refine .error ?_
    cases failure <;> rfl

theorem failsDirectly_names (s : Selection) (env : Environment) : FailsDirectly (s.names env) := by
  unfold Selection.names
  split
  · exact .mapM (failsDirectly_expandRequired env) _
  · exact .ok _

theorem failsDirectly_fileLoader_read (l : FileLoader) (location path description : String) :
    FailsDirectly (l.read location path description) := by
  unfold FileLoader.read
  split
  · exact .ok _
  · exact .error rfl

theorem failsDirectly_resource_get (l : ResourceLoader) (location : String) :
    FailsDirectly (l.get location) := by
  have hurl (l : FileLoader) : FailsDirectly (l.getUrl location) := by
    unfold FileLoader.getUrl
    split
    · exact .error rfl
    · split
      · split
        · exact .error rfl
        · split
          · exact failsDirectly_fileLoader_read _ _ _ _
          · exact .error rfl
      · split <;> exact .error rfl
  unfold ResourceLoader.get
  split
  · exact .ok _
  · unfold FileLoader.get
    simp only
    split
    · exact failsDirectly_fileLoader_read _ _ _ _
    · split
      · exact hurl _
      · exact failsDirectly_fileLoader_read _ _ _ _
  · exact .error rfl

theorem failsDirectly_text (r : Resource) (encoding? : Option String) :
    FailsDirectly (r.text encoding?) := by
  unfold Resource.text
  extract_lets name utf8
  have hutf8 : FailsDirectly utf8 := by
    unfold utf8
    split
    · exact .ok _
    · exact .error rfl
  clear_value name utf8
  cases name with
  | none => exact hutf8
  | some name =>
    simp only
    split
    · exact hutf8
    · split
      · exact .ok _
      · exact .error rfl

theorem failsDirectly_ofDocument (location : String) (v : Document.Value) :
    FailsDirectly (SourceFactory.ofDocument location v) := by
  unfold SourceFactory.ofDocument
  split
  · exact .ok _
  · exact .ok _
  · exact .error rfl

theorem failsDirectly_properties (location : String) (extension? : Option String) (text : String) :
    FailsDirectly (SourceFactory.properties location extension? text) := by
  unfold SourceFactory.properties
  extract_lets document
  have hdocument (failure : Error) (hf : failure.isOwn = true) (n? : Option Document.Node) :
      FailsDirectly (document failure n?) := by
    unfold document
    split
    · exact failsDirectly_ofDocument _ _
    · exact .error hf
  split
  · split
    · exact .ok _
    · exact hdocument _ rfl _
  · split
    · exact .ok _
    · exact hdocument _ rfl _
  · exact hdocument _ rfl _
  · exact hdocument _ rfl _
  · exact .ok _

theorem failsDirectly_sourceFactory_create (name? : Option String) (r : Resource)
    (encoding? : Option String) : FailsDirectly (SourceFactory.create name? r encoding?) :=
  (failsDirectly_text r encoding?).bind fun _ =>
    (failsDirectly_properties _ _ _).bind fun _ => .ok _

theorem failsDirectly_addBeside (l : SourceList) (offset : Nat) (relative : String)
    (s : PropertySource) : FailsDirectly (l.addBeside offset relative s).1 := by
  unfold SourceList.addBeside
  split
  · exact .error rfl
  · simp only
    split
    · exact .ok _
    next e he =>
      refine .error ?_
      unfold SourceList.indexOf at he
      split at he
      · cases he
      · cases he; rfl

theorem failsDirectly_add (m : SourceMerger) (sources : SourceList) (s : PropertySource) :
    FailsDirectly (m.add sources s).1 := by
  unfold SourceMerger.add
  split
  · exact .ok _
  · cases m.names.getLast? with
    | none => exact .ok _
    | some previous =>
      have hplaced : FailsDirectly (sources.addBefore previous s).1 :=
        failsDirectly_addBeside _ _ _ _
      simp only
      revert hplaced
      rcases sources.addBefore previous s with ⟨e | _, sources'⟩
      · exact fun hplaced => .error (hplaced e rfl)
      · exact fun _ => .ok _

/-! ## Plugins and conditions -/

section Declared

variable {ctx : Context} (hc : ctx.Declared)

include hc

theorem failsDirectly_instantiate (name : String) : FailsDirectly (ctx.instantiate name) := by
  unfold Context.instantiate PluginCatalogue.instantiate
  split
  next p hp =>
    unfold PluginClass.instantiate
    split
    · exact .error rfl
    next i k hk =>
      obtain ⟨plugin, hb⟩ := hc.total name p hp k (p.mem_constructors_of_choose? hk)
        (Context.available.filter k.parameters.contains)
      rw [hb]
      refine (FailsDirectly.ok plugin).bind fun made => ?_
      split
      · exact .ok _
      · exact .error rfl
  · exact .error rfl

theorem failsDirectly_condition (name : String) : FailsDirectly (ctx.condition name) := by
  refine (failsDirectly_instantiate hc name).bind fun plugin => ?_
  cases plugin with
  | condition c => exact .ok _
  | _ => exact .error rfl

theorem failsDirectly_skips (env : Environment) (e : Element) (phase? : Option Phase) :
    FailsDirectly (ctx.skips env e phase?) := by
  unfold Context.skips
  split
  · exact .ok _
  · exact (FailsDirectly.mapM (failsDirectly_condition hc) _).bind fun _ => .ok _

/-! ## Declared property sources -/

theorem failsDirectly_checkFactory (d : SourceDirective) :
    FailsDirectly (SourceMerger.checkFactory ctx d) := by
  unfold SourceMerger.checkFactory
  split
  · exact .ok _
  · refine (failsDirectly_instantiate hc _).bind fun plugin => ?_
    cases plugin with
    | sourceFactory => exact .ok _
    | _ => exact .error rfl

omit hc in
theorem failsDirectly_load (env : Environment) (d : SourceDirective) (location : String) :
    FailsDirectly (SourceMerger.load ctx env d location) :=
  (failsDirectly_expandRequired env location).bind fun location =>
    (failsDirectly_resource_get ctx.resources location).bind fun r =>
      failsDirectly_sourceFactory_create d.name? r d.encoding?

omit hc in
theorem failsDirectly_processLocations (declaring : String) (d : SourceDirective)
    (locations : List String) (m : SourceMerger) (env : Environment) :
    FailsDirectly (SourceMerger.processLocations ctx declaring d m env locations).1 := by
  induction locations generalizing m env with
  | nil => exact .ok _
  | cons location rest ih =>
    unfold SourceMerger.processLocations
    split
    next e he =>
      split
      · exact ih _ _
      · exact .error (failsDirectly_load env d location e he)
    next s _ =>
      split
      · exact .error rfl
      · split
        next e _ _ ha => exact .error (failsDirectly_add m env.sources s e (by rw [ha]))
        next => exact ih _ _

theorem failsDirectly_process (m : SourceMerger) (env : Environment) (declaring : String)
    (d : SourceDirective) : FailsDirectly (SourceMerger.process ctx m env declaring d).1 := by
  unfold SourceMerger.process
  split
  · exact .error rfl
  · split
    next e he => exact .error (failsDirectly_checkFactory hc d e he)
    next => exact failsDirectly_processLocations _ _ _ _ _

/-! ## Scans and deferred imports -/

theorem failsDirectly_candidates (env : Environment) (directive : Annotation)
    (declaring : ClassDecl) : FailsDirectly (Scan.candidates ctx env directive declaring) := by
  have hpatterns (texts : List String) : FailsDirectly (Scan.patterns texts) := by
    refine .mapM (fun text => ?_) texts
    split
    · exact .ok _
    · exact .error rfl
  refine (hpatterns _).bind fun includes => (hpatterns _).bind fun excludes => ?_
  exact .filterM (fun c => (failsDirectly_skips hc env _ none).bind fun _ => .ok _) _

omit hc in
theorem failsDirectly_register (r : Registry) (found : List ClassDecl) :
    FailsDirectly (Scan.register r found).1 := by
  induction found generalizing r with
  | nil => exact .ok _
  | cons c rest ih =>
    unfold Scan.register
    simp only
    split
    · split
      · exact ih _
      · exact .error rfl
    · split
      next e he =>
        refine .error ?_
        unfold Registry.register at he
        split at he
        · cases he; rfl
        · split at he
          · split at he
            · cases he
            · cases he; rfl
          · cases he
      next r' _ => exact (ih r').map _

theorem failsDirectly_ofList (ds : List DeferredImport) :
    FailsDirectly (DeferredGroup.ofList ctx ds) := by
  refine .foldlM (fun groups d => ?_) ds []
  have hstrategy (key : GroupKey) : FailsDirectly (DeferredGroup.strategyOf ctx key) := by
    unfold DeferredGroup.strategyOf
    split
    · exact .ok _
    · refine (failsDirectly_instantiate hc _).bind fun plugin => ?_
      cases plugin with
      | group strategy => exact .ok _
      | _ => exact .error rfl
  unfold DeferredGroup.register
  simp only
  split
  all_goals
    split
    · exact .ok _
    · exact (hstrategy _).bind fun _ => .ok _

omit hc in
theorem failsDirectly_entries (env : Environment) (g : DeferredGroup) :
    FailsDirectly (g.entries env) :=
  (FailsDirectly.mapM (fun _ => (failsDirectly_names _ env).bind fun _ => .ok _) g.members).bind
    fun _ => .ok _

end Declared

end Wiring
