import Wiring.Context

/-!
# Deferred imports

Selections that wait until everything else has been gone through. They are then sorted by
precedence and put into groups: those with the same tag together, each of the others on its own. A
group gives the imports of its members in the order of its strategy.
-/

namespace Wiring

/-- A selection that waits, and the class that it imports for. -/
structure DeferredImport where
  selectorClass : String
  importing : ClassDecl
  selection : DeferredSelection

instance : Inhabited DeferredImport :=
  ⟨{ selectorClass := "", importing := default, selection := ⟨⟨[], false⟩, none, {}⟩ }⟩

/-- The selections that wait, or `none` while they are being settled. -/
structure DeferredQueue where
  pending? : Option (List DeferredImport) := some []

namespace DeferredQueue

instance : Inhabited DeferredQueue := ⟨{}⟩

/-- Let a selection wait. While selections are being settled it is handed back. -/
def handle (q : DeferredQueue) (d : DeferredImport) : Option DeferredImport × DeferredQueue :=
  match q.pending? with
  | some pending => (none, ⟨some (pending ++ [d])⟩)
  | none => (some d, q)

/-- Are selections being settled? -/
def isSettling (q : DeferredQueue) : Bool := q.pending?.isNone

/-- The number of selections that wait. -/
def size (q : DeferredQueue) : Nat := (q.pending?.getD []).length

/-- Start to settle: the selections in order of precedence. -/
def begin (q : DeferredQueue) : List DeferredImport × DeferredQueue :=
  (Precedence.sort (·.selection.precedence) (q.pending?.getD []), ⟨none⟩)

/-- Be done with settling. -/
def finish : DeferredQueue := {}

end DeferredQueue

/-- A class to import on behalf of another one. -/
structure DeferredEntry where
  importing : ClassDecl
  className : String

/-- Put entries in the order of a strategy. -/
def GroupStrategy.arrange (s : GroupStrategy) (entries : List DeferredEntry) :
    List DeferredEntry :=
  match s with
  | declared => entries
  | reverse => entries.reverse
  | sorted => entries.mergeSort fun a b => a.className ≤ b.className

/-- What selections of a group have in common. -/
inductive GroupKey where
  | tag (name : String)
  /-- The group of a selection without a tag, by its position. -/
  | isolated (position : Nat)
deriving DecidableEq, Repr

/-- Selections that are settled together. -/
structure DeferredGroup where
  key : GroupKey
  strategy : GroupStrategy
  members : List DeferredImport

namespace DeferredGroup

/-- The strategy of the group with a key. -/
def strategyOf (ctx : Context) : GroupKey → Except Error GroupStrategy
  | .isolated _ => .ok .declared
  | .tag name => do
    match ← ctx.instantiate name with
    | .group strategy => pure strategy
    | other => throw (Context.mismatch name "an ImportGroup" other)

/-- Put a selection into its group. -/
def register (ctx : Context) (groups : List DeferredGroup) (d : DeferredImport) :
    Except Error (List DeferredGroup) :=
  let key :=
    match d.selection.group? with
    | some tag => GroupKey.tag tag
    | none => .isolated groups.length
  if groups.any (·.key == key) then
    .ok (groups.map fun g => if g.key = key then { g with members := g.members ++ [d] } else g)
  else do
    let strategy ← strategyOf ctx key
    pure (groups ++ [{ key, strategy, members := [d] }])

/-- The groups of selections. -/
def ofList (ctx : Context) (ds : List DeferredImport) : Except Error (List DeferredGroup) :=
  ds.foldlM (register ctx) []

/-- The imports of a selection. -/
def entriesOf (env : Environment) (d : DeferredImport) : Except Error (List DeferredEntry) := do
  let names ← d.selection.names env
  pure (names.map fun className => { importing := d.importing, className })

/-- The imports of a group, in the order of its strategy. -/
def entries (env : Environment) (g : DeferredGroup) : Except Error (List DeferredEntry) := do
  let parts ← g.members.mapM (entriesOf env)
  pure (g.strategy.arrange parts.flatten)

end DeferredGroup

end Wiring
