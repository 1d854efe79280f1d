import Wiring.Error
import Wiring.Table

/-!
# Property sources

A property source is a named table of properties, or a named group of sources of which the first
that knows a key answers. A source list orders sources by precedence; adding a source takes an
earlier one of the same name out.
-/

namespace Wiring

/-- A named source of properties. -/
inductive PropertySource where
  | table (name : String) (resourceName? : Option String) (properties : Table String)
  | composite (name : String) (members : List PropertySource)

namespace PropertySource

instance : Inhabited PropertySource := ⟨.table "" none Table.empty⟩

/-- The name of a source. -/
def name : PropertySource → String
  | table name .. => name
  | composite name _ => name

mutual

/-- The value that a source gives for a key. -/
def get? (key : String) : PropertySource → Option String
  | table _ _ properties => properties.get? key
  | composite _ members => firstValue? key members

/-- The value of the first source that gives one. -/
def firstValue? (key : String) : List PropertySource → Option String
  | [] => none
  | s :: rest => s.get? key <|> firstValue? key rest

end

mutual

/-- The number of characters of all names and values of a source. -/
def textSize : PropertySource → Nat
  | table _ _ properties => properties.textSize
  | composite _ members => textSizes members

/-- The number of characters of all names and values of several sources. -/
def textSizes : List PropertySource → Nat
  | [] => 0
  | s :: rest => s.textSize + textSizes rest

end

/-- Does the source give a value for the key? -/
def contains (s : PropertySource) (key : String) : Bool := (s.get? key).isSome

/-- A source under the name of the resource that it was made from. -/
def underResourceName : PropertySource → PropertySource
  | table name resourceName? properties => table (resourceName?.getD name) resourceName? properties
  | s => s

/-- The names of the sources of a group; a table counts as a group of itself. -/
def memberNames : PropertySource → List String
  | table name .. => [name]
  | composite _ members => members.map name

/-- Put a source behind the sources of a group. -/
def addMember (s : PropertySource) : PropertySource → PropertySource
  | composite name members => composite name (members ++ [s])
  | t => t

/-- Put a source before the sources of a group, in place of one of the same name. -/
def addFirstMember (s : PropertySource) : PropertySource → PropertySource
  | composite n members => composite n (s :: members.filter (·.name != s.name))
  | t => t

theorem firstValue?_eq_findSome? (key : String) (sources : List PropertySource) :
    firstValue? key sources = sources.findSome? (get? key) := by
  induction sources with
  | nil => rfl
  | cons s rest ih =>
    rw [firstValue?, List.findSome?_cons, ih]
    cases s.get? key <;> rfl

end PropertySource

/-- Property sources in decreasing precedence. -/
structure SourceList where
  sources : List PropertySource := []

namespace SourceList

instance : Inhabited SourceList := ⟨{}⟩

/-- The names of the sources. -/
def names (l : SourceList) : List String := l.sources.map (·.name)

/-- The source of a name. -/
def get? (l : SourceList) (name : String) : Option PropertySource :=
  l.sources.find? (·.name == name)

/-- Is there a source of this name? -/
def contains (l : SourceList) (name : String) : Bool := (l.get? name).isSome

/-- The value of the first source that knows the key. -/
def property? (l : SourceList) (key : String) : Option String :=
  PropertySource.firstValue? key l.sources

/-- The number of characters of all names and values. -/
def textSize (l : SourceList) : Nat := PropertySource.textSizes l.sources

/-- Take out the first source of a name. -/
def remove (l : SourceList) (name : String) : SourceList :=
  ⟨l.sources.eraseP (·.name == name)⟩

/-- Give a source the highest precedence. -/
def addFirst (l : SourceList) (s : PropertySource) : SourceList :=
  ⟨s :: (l.remove s.name).sources⟩

/-- Give a source the lowest precedence. -/
def addLast (l : SourceList) (s : PropertySource) : SourceList :=
  ⟨(l.remove s.name).sources ++ [s]⟩

/-- The position of the source of a name. -/
def indexOf (l : SourceList) (name : String) : Except Error Nat :=
  match l.sources.findIdx? (·.name == name) with
  | some i => .ok i
  | none => .error (.missingPropertySource name)

/-- Put a source next to another one, `offset` places behind it. The list is as it is afterwards;
a failure comes after an earlier source of the same name has been taken out. -/
def addBeside (l : SourceList) (offset : Nat) (relative : String) (s : PropertySource) :
    Except Error Unit × SourceList :=
  if relative = s.name then
    (.error (.propertySource relative "a property source cannot be added relative to itself"), l)
  else
    let l := l.remove s.name
    match l.indexOf relative with
    | .ok i => (.ok (), ⟨l.sources.insertIdx (i + offset) s⟩)
    | .error e => (.error e, l)

/-- Put a source just before another one. -/
def addBefore (l : SourceList) (relative : String) (s : PropertySource) :
    Except Error Unit × SourceList :=
  l.addBeside 0 relative s

/-- Put a source just behind another one. -/
def addAfter (l : SourceList) (relative : String) (s : PropertySource) :
    Except Error Unit × SourceList :=
  l.addBeside 1 relative s

/-- Put a source in place of another one. -/
def replace (l : SourceList) (name : String) (s : PropertySource) :
    Except Error Unit × SourceList :=
  match l.indexOf name with
  | .ok i => (.ok (), ⟨l.sources.set i s⟩)
  | .error e => (.error e, l)

/-- Change the source of a name. -/
def modify (l : SourceList) (name : String) (f : PropertySource → PropertySource) : SourceList :=
  match l.sources.findIdx? (·.name == name) with
  | some i => ⟨l.sources.modify i f⟩
  | none => l

@[simp] theorem names_mk (sources : List PropertySource) :
    (⟨sources⟩ : SourceList).names = sources.map (·.name) := rfl

theorem names_remove (l : SourceList) (name : String) :
    (l.remove name).names = l.names.erase name := by
  simp only [remove, names]
  induction l.sources with
  | nil => rfl
  | cons s rest ih =>
    by_cases h : s.name = name
    · simp [h]
    · have hb : (s.name == name) = false := by simpa using h
      simp [hb, ih]

theorem names_addFirst (l : SourceList) (s : PropertySource) :
    (l.addFirst s).names = s.name :: l.names.erase s.name := by
  rw [← names_remove]; rfl

theorem names_addLast (l : SourceList) (s : PropertySource) :
    (l.addLast s).names = l.names.erase s.name ++ [s.name] := by
  rw [← names_remove]; simp [addLast, names]

end SourceList

end Wiring
