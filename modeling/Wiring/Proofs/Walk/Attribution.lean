import Wiring.Proofs.Interfaces
import Wiring.Proofs.Walk.Superclasses

/-!
# The bean methods of a stored class

A class gathers bean methods in rounds: one for itself, and one for each superclass that is gone
through on its behalf. Every round takes the bean methods of its source and the default ones of the
interfaces that the source leads to. Within a round no interface counts twice, but the rounds do not
know of each other. So a default method is listed as often as there are sources that lead to its
interface.
-/

open Relation (TransGen)

namespace Wiring

open ConfigurationClass (SameWork)

namespace Walk

/-- A round of gathering: the class or superclass that is gone through, and the interfaces that it
leads to. -/
structure Round where
  source : ClassDecl
  interfaces : List ClassDecl

namespace Round

/-- The interfaces of a round are those that its source leads to, each once. -/
structure Complete (r : Reader) (round : Round) : Prop where
  nodup : round.interfaces.Nodup
  mem_iff : ∀ d, d ∈ round.interfaces ↔ TransGen r.Implements round.source d

/-- The bean methods of a round. -/
def methods (r : Reader) (round : Round) : List MethodDecl :=
  beanMethods r round.source ++ round.interfaces.flatMap (defaultMethods r)

theorem exists_of_methodsOfInterfaces {r : Reader} (hr : r.catalogue.WellNamed) {source : ClassDecl}
    {above : List MethodDecl} (h : methodsOfInterfaces r source = .ok above) :
    ∃ round : Round, round.source = source ∧ round.Complete r ∧
      round.methods r = beanMethods r source ++ above := by
  obtain ⟨reached, hn, hiff, habove⟩ := methodsOfInterfaces_eq hr h
  exact ⟨⟨source, reached⟩, rfl, ⟨hn, hiff⟩, habove ▸ rfl⟩

end Round

/-- The rounds of a source and of superclasses above it, one after the other. -/
inductive Rounds (r : Reader) : ClassDecl → List Round → Prop
  | last {round : Round} : round.Complete r → Rounds r round.source [round]
  | next {round : Round} {above : ClassDecl} {rest : List Round} :
    round.Complete r → r.Extends round.source above → Rounds r above rest →
      Rounds r round.source (round :: rest)

/-- The bean methods of a class are those of the rounds that it has been gone through in. -/
def Attributed (r : Reader) (k : ConfigurationClass) : Prop :=
  ∃ rounds, Rounds r k.decl rounds ∧ k.beanMethods = rounds.flatMap (·.methods r)

/-! ## Every stored class -/

theorem attributed_update {r : Reader} {s : WalkState} {name : String}
    {f : ConfigurationClass → ConfigurationClass} (hf : ∀ k, SameWork k (f k))
    (hs : ∀ k ∈ s.classes, Attributed r k) : ∀ k ∈ (s.update name f).classes, Attributed r k := by
  intro k hk
  rcases WalkState.mem_classes_update hk with hk | ⟨j, hj, -, rfl⟩
  · exact hs k hk
  · obtain ⟨rounds, hrounds, hmethods⟩ := hs j hj
    exact ⟨rounds, (hf j).1 ▸ hrounds, (hf j).2.trans hmethods⟩

/-- What entering classes makes of stored classes that are attributed. -/
def attributionFrame (r : Reader) : Frame where
  Ready _ := True
  Kept s t := (∀ k ∈ s.classes, Attributed r k) → ∀ k ∈ t.classes, Attributed r k
  trans h h' hs := h' (h hs)
  ready _ _ := trivial
  alike hc _ hs := hc ▸ hs
  registrars _ _ _ := attributed_update fun _ => ⟨rfl, rfl⟩

variable {ctx : Context}

section Steps

variable {visit : Visit → Walk Unit} {source : ClassDecl} {h : Held}

/-- A handler goes through the class in hand from a source on. The class takes over the bean methods
of the rounds of the source and of superclasses above it. -/
def Attributing (ctx : Context) (visit : Visit → Walk Unit) : Prop :=
  ∀ (source : ClassDecl) (h : Held),
    Leads (visit (.ascend source)) h
      (fun _ h' => (attributionFrame ctx.reader).Kept h.state h'.state ∧
        h'.inHand.decl = h.inHand.decl ∧ ∃ rounds, Rounds ctx.reader source rounds ∧
          h'.inHand.beanMethods = h.inHand.beanMethods ++ rounds.flatMap (·.methods ctx.reader))
      fun _ _ => True

theorem leads_ascend_attributing (hc : ctx.reader.catalogue.WellNamed)
    (hv : (attributionFrame ctx.reader).Keeps ctx visit) (hup : Attributing ctx visit) :
    Leads (ascend ctx visit source) h
      (fun _ h' => (attributionFrame ctx.reader).Kept h.state h'.state ∧
        h'.inHand.decl = h.inHand.decl ∧ ∃ rounds, Rounds ctx.reader source rounds ∧
          h'.inHand.beanMethods = h.inHand.beanMethods ++ rounds.flatMap (·.methods ctx.reader))
      fun _ _ => True := by
  have hby : ((attributionFrame ctx.reader).invariant ctx h).ByAscend visit source _ :=
    Frame.byAscend hc hv trivial
  refine Invariant.leads_ascend
    (fun h' => (attributionFrame ctx.reader).Kept h.state h'.state ∧
      h'.inHand.decl = h.inHand.decl ∧ ∃ round : Round, round.source = source ∧
        round.Complete ctx.reader ∧
        h'.inHand.beanMethods = h.inHand.beanMethods ++ round.methods ctx.reader) _ hby (.refl h)
    (fun h' above hg habove => ?_) (fun h' hg _ => ?_) (fun _ _ _ _ _ _ => trivial)
    fun h' name next hg hn hread => ?_
  · obtain ⟨round, hs, hcomplete, hmethods⟩ := Round.exists_of_methodsOfInterfaces hc habove
    refine ⟨hg.1, hg.2.1, round, hs, hcomplete, ?_⟩
    rw [hmethods, ← hg.2.2, List.append_assoc]
  · obtain ⟨hkept, hdecl, round, hs, hcomplete, hmethods⟩ := hg
    exact ⟨hkept, hdecl, [round], hs ▸ .last hcomplete, by simpa using hmethods⟩
  · obtain ⟨hkept, hdecl, round, rfl, hcomplete, hmethods⟩ := hg
    have hextends : ctx.reader.Extends round.source next := by
      obtain ⟨hsuper, hf⟩ := Option.filter_eq_some_iff.1 hn
      rw [Bool.and_eq_true, Bool.not_eq_true', Bool.not_eq_true'] at hf
      exact ⟨name, hsuper, hf.1, Reader.read_eq_ok.1 hread⟩
    -- the rounds of the superclass come behind that of the source
    refine (hup next _).mono (fun _ h'' hk => ?_) fun _ _ _ => trivial
    obtain ⟨hkept', hdecl', rounds, hrounds, hmethods'⟩ := hk
    refine ⟨fun hs => hkept' (hkept hs), hdecl'.trans hdecl, round :: rounds,
      .next hcomplete hextends hrounds, ?_⟩
    rw [hmethods', hmethods, List.flatMap_cons, List.append_assoc]

/-- A class that is entered with no bean methods is stored with those that it gathers. -/
theorem leads_enter_attributing (hup : Attributing ctx visit) {c : ConfigurationClass}
    {s : WalkState} (hnew : c.beanMethods = []) :
    Leads (enter ctx visit) ⟨c, s⟩
      (fun _ h' => (attributionFrame ctx.reader).Kept s h'.state) fun _ _ => True := by
  refine Invariant.leads_enter (fun _ _ => trivial) (fun _ hs => hs)
    (fun _ _ _ _ => attributed_update fun _ => ⟨rfl, rfl⟩) (fun _ _ _ _ hs => hs) fun s' hs' => ?_
  refine (hup c.decl ⟨c, s'⟩).mono (fun _ h' hk hs k hmem => ?_) fun _ _ _ => trivial
  obtain ⟨hkept, hdecl, rounds, hrounds, hmethods⟩ := hk
  have hbegun : ∀ k ∈ s'.classes, Attributed ctx.reader k := by
    rcases hs' with ⟨-, rfl⟩ | ⟨-, -, rfl⟩
    · exact hs
    · exact fun k hk => hs k (List.mem_of_mem_eraseP hk)
  rcases WalkState.mem_classes_store hmem with hmem | rfl
  · exact hkept hbegun k hmem
  · rw [hnew, List.nil_append] at hmethods
    exact ⟨rounds, hdecl ▸ hrounds, hmethods⟩

end Steps

theorem attributing_visit (hc : ctx.reader.catalogue.WellNamed) (n : Nat) :
    (attributionFrame ctx.reader).Keeps ctx (visit ctx n) ∧ Attributing ctx (visit ctx n) := by
  induction n with
  | zero => exact ⟨⟨fun _ _ _ => trivial, fun _ _ _ _ => trivial⟩, fun _ _ => trivial⟩
  | succ n ih =>
    obtain ⟨hv, hup⟩ := ih
    refine ⟨⟨fun _ hnew _ => ?_, fun source names guarded _ => ?_⟩, fun source h => ?_⟩
    · exact leads_enter_attributing hup hnew
    · exact Frame.leads_visitImports hc hv trivial names guarded
    · exact leads_ascend_attributing hc hv hup

/-- The bean methods of a class that is stored by a whole walk are those of its rounds. -/
theorem attributed_of_parse {world : World} {t : WalkState} {roots : List (String × String)}
    (hc : ctx.reader.catalogue.WellNamed)
    (h : ({ world } : WalkState).parse ctx roots = (.ok (), t)) :
    ∀ k ∈ t.classes, Attributed ctx.reader k := by
  have hkept : (attributionFrame ctx.reader).Kept { world } t :=
    Frame.kept_of_runWith hc (attributing_visit hc (depthBound ctx)).1 trivial h
  exact hkept fun k hk => absurd hk List.not_mem_nil

/-! ## How often a method is listed -/

section Counting

variable {r : Reader} (hr : r.catalogue.WellNamed)

include hr

theorem Round.Complete.read? {round : Round} (h : round.Complete r) :
    ∀ d ∈ round.interfaces, r.read? d.name = some d := by
  intro d hd
  obtain ⟨c, -, name, -, -, hread⟩ := Relation.TransGen.tail'_iff.1 ((h.mem_iff d).1 hd)
  exact Reader.read?_self hr hread

variable (howns : r.catalogue.OwnsMethods) {i : ClassDecl} {m : MethodDecl}
  (hi : r.read? i.name = some i) (hn : (i.beanMethods.map (·.name)).Nodup) (hm : m ∈ i.beanMethods)

include howns hi hn hm

theorem Round.Complete.count {round : Round} (h : round.Complete r)
    (hread : r.read? round.source.name = some round.source) :
    ((round.methods r).map (·.identity)).count m.identity =
      (if round.source = i then 1 else 0) +
        if i ∈ round.interfaces ∧ m.isAbstract = false then 1 else 0 := by
  unfold Round.methods
  rw [List.map_append, List.count_append, count_beanMethods howns hi hn hm hread,
    count_flatMap_defaultMethods howns hi hn hm h.nodup (h.read? hr)]

/-- A bean method is listed as often as there are rounds that list it. -/
theorem Rounds.count {source : ClassDecl} {rounds : List Round} (h : Rounds r source rounds)
    (hread : r.read? source.name = some source) :
    ((rounds.flatMap (·.methods r)).map (·.identity)).count m.identity =
      rounds.countP (fun round => round.source = i) +
        rounds.countP fun round => i ∈ round.interfaces ∧ m.isAbstract = false := by
  induction h with
  | @last round hc =>
    have hround := hc.count hr howns hi hn hm hread
    simpa [List.countP_cons] using hround
  | @next round above rest hc hnext _ ih =>
    obtain ⟨name, -, -, habove⟩ := hnext
    have hround := hc.count hr howns hi hn hm hread
    have hrest := ih (Reader.read?_self hr habove)
    rw [List.flatMap_cons, List.map_append, List.count_append, hround, hrest]
    simp only [List.countP_cons, decide_eq_true_eq]
    omega

end Counting

end Walk

namespace WalkState

variable {ctx : Context} {world : World} {t : WalkState} {roots : List (String × String)}

/-- The bean methods of a stored class are those of the rounds that it has been gone through in, its
own and those of superclasses. A bean method of an interface is listed once for each round that
leads to the interface, however many ways lead there. -/
theorem parse_attributes_methods (hc : ctx.Declared)
    (h : ({ world } : WalkState).parse ctx roots = (.ok (), t)) :
    ∀ k ∈ t.classes, ∃ rounds, Walk.Rounds ctx.reader k.decl rounds ∧
      k.beanMethods = rounds.flatMap (·.methods ctx.reader) ∧
      (ctx.reader.catalogue.OwnsMethods → ∀ i, ctx.reader.read? i.name = some i →
        (i.beanMethods.map (·.name)).Nodup → ∀ m ∈ i.beanMethods,
          (k.beanMethods.map (·.identity)).count m.identity =
            rounds.countP (fun round => round.source = i) +
              rounds.countP fun round => i ∈ round.interfaces ∧ m.isAbstract = false) := by
  intro k hk
  obtain ⟨rounds, hrounds, hmethods⟩ := Walk.attributed_of_parse hc.wellNamed h k hk
  refine ⟨rounds, hrounds, hmethods, fun howns i hi hn m hm => ?_⟩
  rw [hmethods]
  exact hrounds.count hc.wellNamed howns hi hn hm
    ((Walk.climbed_of_parse hc.wellNamed h).2.read k hk)

/-- A class and its superclass have an interface in common, and the class has two more that name
each other. -/
def sharedInterface : Descriptor :=
  { classes :=
      [{ name := "App",
          superclass? := some "Base",
          interfaces := ["First", "Second", "Api"],
          marks := { declared := [.naming AnnotationType.configuration []] } },
        { name := "Base", interfaces := ["Api"] },
        { name := "First",
          kind := .interface,
          interfaces := ["Second"],
          methods :=
            [{ name := "first", marks := { declared := [.naming AnnotationType.bean []] } }] },
        { name := "Second",
          kind := .interface,
          interfaces := ["First"],
          methods :=
            [{ name := "second", marks := { declared := [.naming AnnotationType.bean []] } }] },
        { name := "Api",
          kind := .interface,
          methods :=
            [{ name := "shared", marks := { declared := [.naming AnnotationType.bean []] } },
              { name := "open",
                marks := { declared := [.naming AnnotationType.bean []] },
                isAbstract := true }] }] }

theorem parse_sharedInterface : ∃ ctx w t,
    Context.ofDescriptor sharedInterface "." { workingDirectory := [], files := [] } Table.empty =
      .ok (ctx, w) ∧
    ({ world := w } : WalkState).parse ctx [("root", "App")] = (.ok (), t) ∧
    (t.stored? "App").map (·.beanMethods.map (·.identity)) =
      some [("First", "first"), ("Second", "second"), ("Api", "shared"), ("Api", "shared")] ∧
    (ctx.reader.read? "Api").map (·.beanMethods.map (·.identity)) =
      some [("Api", "shared"), ("Api", "open")] := by
  have h : Context.ofDescriptor sharedInterface "." { workingDirectory := [], files := [] }
      Table.empty = .ok (_, _) := rfl
  exact ⟨_, _, _, h, Prod.ext (by decide +kernel) rfl, by decide +kernel, by decide +kernel⟩

/-- The default method of the interface in common is listed twice. -/
theorem parse_attributes_twice : ∃ ctx w t,
    Context.ofDescriptor sharedInterface "." { workingDirectory := [], files := [] } Table.empty =
      .ok (ctx, w) ∧
    (∀ d ∈ sharedInterface.classes, (d.methods.map (·.name)).Nodup) ∧
    ({ world := w } : WalkState).parse ctx [("root", "App")] = (.ok (), t) ∧
    ∃ k ∈ t.classes, k.beanMethods.map (·.identity) =
      [("First", "first"), ("Second", "second"), ("Api", "shared"), ("Api", "shared")] := by
  obtain ⟨ctx, w, t, h, hparse, hfound, -⟩ := parse_sharedInterface
  obtain ⟨k, hk, hmethods⟩ := Option.map_eq_some_iff.1 hfound
  exact ⟨ctx, w, t, h, by decide, hparse, k, (mem_of_stored? hk).1, hmethods⟩

theorem parse_attributes_methods_shared : ∃ ctx w t,
    Context.ofDescriptor sharedInterface "." { workingDirectory := [], files := [] } Table.empty =
      .ok (ctx, w) ∧
    ctx.Declared ∧ ctx.reader.catalogue.OwnsMethods ∧
    ({ world := w } : WalkState).parse ctx [("root", "App")] = (.ok (), t) ∧
    ∃ k ∈ t.classes, ∃ rounds, Walk.Rounds ctx.reader k.decl rounds ∧
      k.beanMethods = rounds.flatMap (·.methods ctx.reader) ∧
      ∃ i, ctx.reader.read? i.name = some i ∧ (i.beanMethods.map (·.name)).Nodup ∧
        ∃ m ∈ i.beanMethods, m.identity = ("Api", "shared") ∧
          (k.beanMethods.map (·.identity)).count m.identity =
            rounds.countP (fun round => round.source = i) +
              rounds.countP fun round => i ∈ round.interfaces ∧ m.isAbstract = false := by
  obtain ⟨ctx, w, t, h, hparse, hfound, hread⟩ := parse_sharedInterface
  have hc := Context.declared_of_ofDescriptor h
  have howns : ctx.reader.catalogue.OwnsMethods := by
    rw [Context.catalogue_of_ofDescriptor h]
    exact Catalogue.ownsMethods_ofClasses _ (by decide)
  obtain ⟨k, hk, -⟩ := Option.map_eq_some_iff.1 hfound
  have hmem := (mem_of_stored? hk).1
  obtain ⟨rounds, hrounds, hmethods, hcount⟩ := parse_attributes_methods hc hparse k hmem
  obtain ⟨i, hi, hlisted⟩ := Option.map_eq_some_iff.1 hread
  have hself := Reader.read?_self hc.wellNamed hi
  have hn : (i.beanMethods.map (·.name)).Nodup := by
    have hnames : i.beanMethods.map (·.name) = ["shared", "open"] := by
      simpa [MethodDecl.identity, Function.comp_def] using congrArg (List.map Prod.snd) hlisted
    rw [hnames]
    decide
  obtain ⟨m, hm, hidentity⟩ : ∃ m ∈ i.beanMethods, m.identity = ("Api", "shared") :=
    List.mem_map.1 (hlisted ▸ List.mem_cons_self)
  exact ⟨ctx, w, t, h, hc, howns, hparse, k, hmem, rounds, hrounds, hmethods, i, hself, hn, m, hm,
    hidentity, hcount howns i hself hn m hm⟩

end WalkState

end Wiring
