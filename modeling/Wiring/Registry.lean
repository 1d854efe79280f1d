import Wiring.Error

/-!
# The registry of bean definitions

Definitions under names, in the order in which the names were first registered. Overriding a
definition keeps its place.
-/

namespace Wiring

/-- Whether a configuration class's bean methods refer to each other through the container. -/
inductive ConfigurationKind where
  | full
  | lite
deriving DecidableEq, Repr, Inhabited

/-- Where a definition comes from. -/
inductive Origin where
  | root
  | scanned
  | imported
  | beanMethod
  | registrar
deriving DecidableEq, Repr, Inhabited

/-- How a bean is made: from a class, or by a method of another bean. -/
structure Definition where
  className? : Option String := none
  factoryBean? : Option String := none
  factoryMethod? : Option String := none
  kind? : Option ConfigurationKind := none
  order? : Option Int := none
  origin : Origin := .root
  infrastructure : Bool := false
deriving DecidableEq, Repr, Inhabited

namespace Definition

/-- A bean made from a class. -/
def ofClass (className : String) (origin : Origin) : Definition :=
  { className? := some className, origin }

/-- A bean made by a method of another bean. -/
def ofMethod (factoryBean method : String) : Definition :=
  { factoryBean? := some factoryBean, factoryMethod? := some method, origin := .beanMethod }

end Definition

/-- Definitions under distinct names, in order of registration. -/
structure Registry where
  entries : List (String × Definition) := []
  allowsOverriding : Bool := true
deriving DecidableEq, Repr, Inhabited

namespace Registry

/-- The registered names, in order. -/
def names (r : Registry) : List String := r.entries.map (·.1)

/-- The definition under a name. -/
def get? (r : Registry) (name : String) : Option Definition := r.entries.lookup name

/-- Is the name taken? -/
def contains (r : Registry) (name : String) : Bool := (r.get? name).isSome

/-- The number of definitions. -/
def size (r : Registry) : Nat := r.entries.length

/-- Change the definition under a name, if there is one. -/
def modify (r : Registry) (name : String) (f : Definition → Definition) : Registry :=
  { r with entries := r.entries.map fun e => if e.1 = name then (e.1, f e.2) else e }

/-- Register a definition. A definition under a taken name takes the place of the earlier one, where
that is allowed. -/
def register (r : Registry) (name : String) (definition : Definition) : Except Error Registry :=
  if name.isEmpty then
    .error (.invalidConfiguration (definition.className?.getD "")
      "bean definition name must not be empty")
  else if r.contains name then
    if r.allowsOverriding then .ok (r.modify name fun _ => definition)
    else .error (.definitionOverride name)
  else .ok { r with entries := r.entries ++ [(name, definition)] }

/-- Take a definition out. -/
def remove (r : Registry) (name : String) : Registry :=
  { r with entries := r.entries.filter (·.1 != name) }

@[simp] theorem names_modify (r : Registry) (name : String) (f : Definition → Definition) :
    (r.modify name f).names = r.names := by
  simp only [modify, names, List.map_map]
  refine List.map_congr_left fun e _ => ?_
  simp only [Function.comp]
  split <;> rfl

@[simp] theorem names_remove (r : Registry) (name : String) :
    (r.remove name).names = r.names.filter (· != name) := by
  simp only [remove, names, List.filter_map]
  rfl

theorem contains_iff_mem_names {r : Registry} {name : String} :
    r.contains name = true ↔ name ∈ r.names := by
  simp only [contains, get?, names]
  induction r.entries with
  | nil => simp
  | cons e rest ih =>
    rw [List.lookup_cons]
    by_cases h : name = e.1
    · simp [h]
    · have hb : (name == e.1) = false := by simpa using h
      simp [hb, ih, h]

end Registry

end Wiring
