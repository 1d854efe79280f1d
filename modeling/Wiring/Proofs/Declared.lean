import Wiring.Condition

/-!
# Contexts of descriptors

What can be relied on in a context that was made from a descriptor: a class is known under its own
name, and every constructor of a plugin class makes an instance.
-/

namespace Wiring

namespace Table

variable {β : Type}

theorem mem_names_of_get? {t : Table β} {name : String} {value : β}
    (h : t.get? name = some value) : name ∈ t.names := by
  obtain ⟨l₁, l₂, hl, -⟩ := List.lookup_eq_some_iff.1 h
  unfold names
  rw [hl]
  simp

end Table

/-- An annotation that names classes. -/
def Annotation.naming (type : String) (names : List String) : Annotation :=
  { type, attributes := Table.empty.insert "value" (.list names) }

namespace Catalogue

/-- Every class is known under its own name. -/
def WellNamed (c : Catalogue) : Prop :=
  ∀ name decl, c.classes.get? name = some decl → decl.name = name

theorem WellNamed.add {c : Catalogue} (h : c.WellNamed) (decl : ClassDecl) :
    (c.add decl).WellNamed := by
  intro name d hd
  unfold Catalogue.add at hd
  rw [Table.get?_insert] at hd
  split at hd
  next heq => cases hd; exact heq.symm
  next => exact h name d hd

theorem wellNamed_ofClasses (decls : List ClassDecl) (methodOrders : Table (List String)) :
    (ofClasses decls methodOrders).WellNamed := by
  unfold ofClasses
  refine List.foldlRecOn (motive := WellNamed) _ _ (fun name d hd => ?_) fun c hc d _ => hc.add d
  rw [Table.get?_empty] at hd
  cases hd

/-- Every method of a known class is declared by that class. -/
def OwnsMethods (c : Catalogue) : Prop :=
  ∀ name decl, c.classes.get? name = some decl → ∀ m ∈ decl.methods, m.declaringClass = decl.name

theorem OwnsMethods.add {c : Catalogue} (h : c.OwnsMethods) {decl : ClassDecl}
    (hd : ∀ m ∈ decl.methods, m.declaringClass = "" ∨ m.declaringClass = decl.name) :
    (c.add decl).OwnsMethods := by
  intro name d hname m hm
  unfold Catalogue.add at hname
  rw [Table.get?_insert] at hname
  split at hname
  · cases hname
    obtain ⟨m', hm', rfl⟩ := List.mem_map.1 hm
    unfold MethodDecl.declaredIn
    split
    · rfl
    next hne => exact (hd m' hm').resolve_left fun he => hne (by rw [he]; rfl)
  · exact h name d hname m hm

theorem ownsMethods_ofClasses {decls : List ClassDecl} (methodOrders : Table (List String))
    (h : ∀ d ∈ decls, ∀ m ∈ d.methods, m.declaringClass = "" ∨ m.declaringClass = d.name) :
    (ofClasses decls methodOrders).OwnsMethods := by
  have hvocabulary : ∀ d ∈ vocabulary, d.methods = [] := by decide
  unfold ofClasses
  refine List.foldlRecOn (motive := OwnsMethods) _ _ (fun name d hd => ?_) fun c hc d hd =>
    hc.add ?_
  · rw [Table.get?_empty] at hd
    cases hd
  · rcases List.mem_append.1 hd with hd | hd
    · rw [hvocabulary d hd]
      nofun
    · exact h d hd

end Catalogue

namespace Reader

variable {r : Reader} {name : String} {decl : ClassDecl}

@[simp] theorem read_eq_ok : r.read name = .ok decl ↔ r.read? name = some decl := by
  unfold read
  cases r.read? name <;> simp

theorem read_eq_error {e : Error} (h : r.read name = .error e) : e = .classNotFound name := by
  unfold read at h
  cases hr : r.read? name with
  | none => rw [hr] at h; cases h; rfl
  | some d => rw [hr] at h; cases h

theorem mem_classNames (h : r.read? name = some decl) : name ∈ r.classNames := by
  obtain ⟨d, hd, -⟩ := Option.map_eq_some_iff.1 h
  exact Table.mem_names_of_get? hd

theorem name_of_read? (hr : r.catalogue.WellNamed) (h : r.read? name = some decl) :
    decl.name = name := by
  obtain ⟨d, hd, rfl⟩ := Option.map_eq_some_iff.1 h
  exact hr name d hd

theorem declaringClass_of_read? (hr : r.catalogue.OwnsMethods) (h : r.read? name = some decl) :
    ∀ m ∈ decl.methods, m.declaringClass = decl.name := by
  obtain ⟨d, hd, rfl⟩ := Option.map_eq_some_iff.1 h
  intro m hm
  obtain ⟨m', hm', rfl⟩ := List.mem_map.1 hm
  exact hr name d hd m' hm'

theorem read?_self (hr : r.catalogue.WellNamed) (h : r.read? name = some decl) :
    r.read? decl.name = some decl := by
  rw [name_of_read? hr h]
  exact h

end Reader

theorem PluginClass.mem_constructors_of_choose? (p : PluginClass) {available : List Dependency}
    {i : Nat} {k : Constructor} (h : p.choose? available = some (i, k)) : k ∈ p.constructors := by
  unfold choose? at h
  revert h
  refine List.foldlRecOn (motive := fun chosen? => chosen? = some (i, k) → k ∈ p.constructors)
    _ _ nofun fun chosen? ih e he h => ?_
  simp only at h
  split at h
  · cases h
    exact List.fst_mem_of_mem_zipIdx he
  · exact ih h

namespace PluginCatalogue

/-- Every constructor of a plugin class makes an instance. -/
def Total (c : PluginCatalogue) : Prop :=
  ∀ name p, c.classes.get? name = some p →
    ∀ k ∈ p.constructors, ∀ given, ∃ plugin, k.build given = .ok plugin

theorem Total.add {c : PluginCatalogue} (h : c.Total) {p : PluginClass}
    (hp : ∀ k ∈ p.constructors, ∀ given, ∃ plugin, k.build given = .ok plugin) :
    (c.add p).Total := by
  intro name q hq
  unfold PluginCatalogue.add at hq
  rw [Table.get?_insert] at hq
  split at hq
  · cases hq; exact hp
  · exact h name q hq

theorem total_simple (name : String) (plugin : Plugin) :
    ∀ k ∈ (PluginClass.simple name plugin).constructors, ∀ given,
      ∃ made, k.build given = .ok made := by
  intro k hk given
  rw [PluginClass.simple, List.mem_singleton] at hk
  subst hk
  exact ⟨plugin, rfl⟩

theorem total_toClass (spec : PluginSpec) :
    ∀ k ∈ spec.toClass.constructors, ∀ given, ∃ made, k.build given = .ok made := by
  have hboth (name : String) (capability : Capability) (build : Bool → Plugin) :
      ∀ k ∈ (PluginSpec.withEnvironment name capability build).constructors, ∀ given,
        ∃ made, k.build given = .ok made := by
    intro k hk given
    simp only [PluginSpec.withEnvironment, List.mem_cons, List.not_mem_nil, or_false] at hk
    rcases hk with rfl | rfl <;> exact ⟨_, rfl⟩
  cases spec with
  | selector c imports => exact hboth _ _ _
  | deferredSelector c imports group? order? priority => exact hboth _ _ _
  | registrar c definitions => exact total_simple _ _
  | group c strategy => exact total_simple _ _
  | condition c outcome? property? having? phase? order? priority => exact total_simple _ _

theorem total_builtin : builtin.Total := by
  have hempty : Total {} := by
    intro name p hp
    rw [Table.get?_empty] at hp
    cases hp
  exact ((hempty.add (total_simple _ _)).add (total_simple _ _)).add (total_simple _ _)

end PluginCatalogue

namespace Context

/-- A context as descriptors make them. -/
structure Declared (ctx : Context) : Prop where
  wellNamed : ctx.reader.catalogue.WellNamed
  total : ctx.plugins.Total

theorem Declared.name_mem {ctx : Context} (hc : ctx.Declared) {name : String} {decl : ClassDecl}
    (h : ctx.reader.read? name = some decl) : decl.name ∈ ctx.reader.classNames := by
  rw [Reader.name_of_read? hc.wellNamed h]
  exact Reader.mem_classNames h

section OfDescriptor

variable {d : Descriptor} {directory : String} {files : FileTree} {exported : Table String}
  {ctx : Context} {w : World} (h : ofDescriptor d directory files exported = .ok (ctx, w))

include h

theorem eq_of_ofDescriptor :
    ctx =
      { reader := ⟨Catalogue.ofClasses d.classes d.methodOrders, d.settings.foundational⟩
        resources := resourcesOf d directory files
        plugins := (d.plugins.map PluginSpec.toClass).foldl PluginCatalogue.add .builtin
        settings := d.settings } := by
  unfold ofDescriptor at h
  obtain ⟨r, -, ⟨⟩⟩ := bind_eq_ok.1 h
  rfl

theorem catalogue_of_ofDescriptor :
    ctx.reader.catalogue = Catalogue.ofClasses d.classes d.methodOrders := by
  rw [eq_of_ofDescriptor h]

theorem plugins_of_ofDescriptor :
    ctx.plugins = (d.plugins.map PluginSpec.toClass).foldl PluginCatalogue.add .builtin := by
  rw [eq_of_ofDescriptor h]

theorem declared_of_ofDescriptor : ctx.Declared where
  wellNamed := by
    rw [catalogue_of_ofDescriptor h]
    exact Catalogue.wellNamed_ofClasses d.classes d.methodOrders
  total := by
    rw [plugins_of_ofDescriptor h]
    refine List.foldlRecOn (motive := PluginCatalogue.Total) _ _ PluginCatalogue.total_builtin
      fun c hc p hp => ?_
    obtain ⟨spec, -, rfl⟩ := List.mem_map.1 hp
    exact hc.add (PluginCatalogue.total_toClass spec)

end OfDescriptor

end Context

end Wiring
