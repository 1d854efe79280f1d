import Wiring.Resolution

/-!
# The import tree

Which class came in through which: under every class stand the classes that it imports. A class that
stands above itself, or as deep as asked for, has nothing under it.
-/

namespace Wiring

/-- A tree of labels. -/
inductive LabelTree where
  | node (label : String) (children : List LabelTree)

namespace LabelTree

mutual

/-- The lines of a tree, of which all but the first start with `margin`. -/
def linesUnder (margin : String) : LabelTree → List String
  | node label children => label :: childLines margin children

/-- The lines of the children of a node. -/
def childLines (margin : String) : List LabelTree → List String
  | [] => []
  | t :: rest =>
    let (corner, bar) := if rest.isEmpty then ("└─ ", "   ") else ("├─ ", "│  ")
    (match linesUnder (margin ++ bar) t with
      | [] => []
      | first :: others => (margin ++ corner ++ first) :: others) ++ childLines margin rest

end

/-- The lines of a tree. -/
def lines (t : LabelTree) : List String := linesUnder "" t

end LabelTree

namespace Report

/-- The label of a class. -/
def label (c : ConfigurationClass) : String :=
  match c.beanName? with
  | some bean => s!"{c.name} ({bean})"
  | none => c.name

/-- Does a class stand at the top? -/
def isTop (c : ConfigurationClass) : Bool := c.beanName?.isSome || !c.isImported

/-- The tree under a class, given the classes above it. Above a class every name stands once, so the
number of classes bounds the depth. -/
def treeOf (classes : List ConfigurationClass) (depth? : Option Nat) :
    Nat → List String → ConfigurationClass → LabelTree
  | 0, _, c => .node (label c) []
  | bound + 1, above, c =>
    if depth?.any (· ≤ above.length) || above.contains c.name then .node (label c) []
    else
      .node (label c)
        ((classes.filter (·.importedBy.contains c.name)).map
          (treeOf classes depth? bound (c.name :: above)))

/-- The import tree of a model. -/
def tree (m : Model) (depth? : Option Nat) : LabelTree :=
  .node "configuration"
    ((m.classes.filter isTop).map (treeOf m.classes depth? (m.classes.length + 2) []))

end Report

end Wiring
