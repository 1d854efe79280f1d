/-!
# Parts of names

Class names are made of parts separated by points, and nested classes by dollar signs.
-/

namespace Wiring.Text

/-- Cut a list at its last element that satisfies `p`, which belongs to neither part. -/
def cutLast {α : Type} (p : α → Bool) (s : List α) : Option (List α × List α) :=
  match s.reverse.span fun a => !p a with
  | (_, []) => none
  | (after, _ :: before) => some (before.reverse, after.reverse)

/-- What follows the last element that satisfies `p`; all, if none does. -/
def afterLast {α : Type} (p : α → Bool) (s : List α) : List α :=
  (s.reverse.takeWhile fun a => !p a).reverse

/-- What precedes the last point of a class name. -/
def packageName (className : String) : String :=
  match cutLast (· == '.') className.toList with
  | some (before, _) => String.ofList before
  | none => ""

/-- The name of a class without its package and its enclosing classes. -/
def simpleName (className : String) : String :=
  String.ofList (afterLast (fun c => c == '.' || c == '$') className.toList)

/-- A whole number with an optional sign, in decimal digits. -/
def int? (s : String) : Option Int :=
  let digits? (ds : List Char) : Option Nat :=
    if ds.isEmpty || ds.any (!·.isDigit) then none
    else some (ds.foldl (fun n d => n * 10 + (d.toNat - '0'.toNat)) 0)
  match s.toList with
  | '-' :: ds => (digits? ds).map fun n => -(n : Int)
  | '+' :: ds => (digits? ds).map Int.ofNat
  | ds => (digits? ds).map Int.ofNat

/-- Is the number a signed one of so many bits? -/
def fitsSigned (bits : Nat) (i : Int) : Bool :=
  -(Nat.pow 2 (bits - 1) : Int) ≤ i && i < Nat.pow 2 (bits - 1)

end Wiring.Text
