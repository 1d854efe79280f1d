/-!
# Precedence

The order in which things that may carry an order value are gone through: those with priority
first, then by increasing value, those without a value last.
-/

namespace Wiring

/-- The least order value. -/
def highestPrecedence : Int := -2147483648

/-- The greatest order value. -/
def lowestPrecedence : Int := 2147483647

/-- An optional order value, and whether it comes before all that have no priority. -/
structure Precedence where
  hasPriority : Bool := false
  value? : Option Int := none
deriving DecidableEq, Repr, Inhabited

namespace Precedence

/-- Without an order value. -/
def unordered : Precedence := {}

/-- With an order value that may be absent. -/
def ofValue? (value? : Option Int) : Precedence := { value? }

/-- With an order value. -/
def ofValue (value : Int) : Precedence := { value? := some value }

/-- With priority. -/
def priority (value : Int) : Precedence := { hasPriority := true, value? := some value }

/-- The value that counts: the absence of one counts as the greatest. -/
def value (p : Precedence) : Int := p.value?.getD lowestPrecedence

/-- Compare by priority, then by value. -/
def compare (p q : Precedence) : Ordering :=
  (Ord.compare (!p.hasPriority) (!q.hasPriority)).then (Ord.compare p.value q.value)

/-- May `p` come before `q`? -/
def le (p q : Precedence) : Bool := (p.compare q).isLE

/-- Sort by precedence; things of equal precedence stay in their order. -/
def sort {α : Type} (precedence : α → Precedence) (xs : List α) : List α :=
  xs.mergeSort fun a b => (precedence a).le (precedence b)

theorem sort_perm {α : Type} (precedence : α → Precedence) (xs : List α) :
    (sort precedence xs).Perm xs :=
  List.mergeSort_perm xs _

@[simp] theorem mem_sort {α : Type} {precedence : α → Precedence} {xs : List α} {x : α} :
    x ∈ sort precedence xs ↔ x ∈ xs :=
  (sort_perm precedence xs).mem_iff

end Precedence

end Wiring
