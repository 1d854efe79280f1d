import Wiring.Table

/-!
# The import log

Which classes are being gone through, from the outermost to the innermost, and which classes
imported which. An import is chained if following the importers back leads to the class itself while
it is being gone through.
-/

namespace Wiring

/-- The classes being gone through, innermost first, the importers of each class in the order in
which they imported it, and the greatest number of classes gone through at a time. -/
structure ImportLog where
  stack : List String := []
  importers : Table (List String) := Table.empty
  peak : Nat := 0
deriving DecidableEq

namespace ImportLog

instance : Inhabited ImportLog := ⟨{}⟩

/-- Start to go through a class. -/
def push (l : ImportLog) (name : String) : ImportLog :=
  { l with stack := name :: l.stack, peak := max l.peak (l.stack.length + 1) }

/-- Be done with the innermost class. -/
def pop (l : ImportLog) : ImportLog := { l with stack := l.stack.drop 1 }

/-- The innermost class. -/
def innermost? (l : ImportLog) : Option String := l.stack.head?

/-- Is the class being gone through? -/
def contains (l : ImportLog) (name : String) : Bool := l.stack.contains name

/-- The number of classes being gone through. -/
def depth (l : ImportLog) : Nat := l.stack.length

/-- The classes being gone through, outermost first. -/
def chain (l : ImportLog) : List String := l.stack.reverse

/-- The importers of a class. -/
def importersOf (l : ImportLog) (imported : String) : List String :=
  (l.importers.get? imported).getD []

/-- Note an import. -/
def record (l : ImportLog) (importing imported : String) : ImportLog :=
  { l with importers := l.importers.insert imported (l.importersOf imported ++ [importing]) }

/-- The class that imported a class last. -/
def lastImporter? (l : ImportLog) (imported : String) : Option String :=
  (l.importersOf imported).getLast?

/-- Forget what a class imported. -/
def forget (l : ImportLog) (importing : String) : ImportLog :=
  let entries := l.importers.toList.filterMap fun (imported, importers) =>
    match importers.filter (· != importing) with
    | [] => none
    | rest => some (imported, rest)
  { l with importers := Table.ofList entries }

/-- Does following the last importers from `current?` lead to `target` before an importer comes up
twice? -/
def leadsTo (l : ImportLog) (target : String) : Nat → List String → Option String → Bool
  | _, _, none => false
  | 0, _, some _ => false
  | bound + 1, met, some importer =>
    if importer = target then true
    else if importer ∈ met then false
    else leadsTo l target bound (importer :: met) (l.lastImporter? importer)

/-- Is the class being gone through, and did it lead to its own import? Only classes with an
importer are followed, each at most once. -/
def isChained (l : ImportLog) (name : String) : Bool :=
  l.contains name && l.leadsTo name (l.importers.size + 2) [] (l.lastImporter? name)

@[simp] theorem stack_push (l : ImportLog) (name : String) :
    (l.push name).stack = name :: l.stack := rfl

@[simp] theorem stack_pop_push (l : ImportLog) (name : String) :
    (l.push name).pop.stack = l.stack := rfl

@[simp] theorem depth_push (l : ImportLog) (name : String) :
    (l.push name).depth = l.depth + 1 := rfl

@[simp] theorem chain_push (l : ImportLog) (name : String) :
    (l.push name).chain = l.chain ++ [name] := by
  simp [chain]

end ImportLog

end Wiring
