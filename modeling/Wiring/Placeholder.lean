import Wiring.Error
import Wiring.Placeholder.Segment

/-!
# Placeholder expansion

The placeholders of a text are replaced by values that are looked up, and placeholders in keys,
values and defaults are replaced in turn. A placeholder that is met while it is being replaced is
circular. What cannot be resolved stands as it is or is a failure, as the mode says. Some expansions
never end, so an expansion is given up at a depth that the text and the properties set.
-/

namespace Wiring.Placeholder

/-- What happens to a placeholder that cannot be resolved. -/
inductive Mode where
  | lenient
  | required
deriving DecidableEq, Repr

/-- Why an expansion failed. -/
inductive Failure where
  | circular (placeholder : List Char)
  | unresolvable (placeholder value : List Char)
  /-- The expansion goes deeper than the bound. -/
  | tooDeep
deriving DecidableEq, Repr

/-- A look-up of values. -/
abbrev Lookup := List Char → Option (List Char)

/-- The value of an expanded placeholder: that of the whole text as a key, else that of the part
before the separator, else the default after it. -/
def value? (d : Delimiters) (lookup : Lookup) (placeholder : List Char) : Option (List Char) :=
  lookup placeholder <|> do
    let separator ← d.separator?
    let (key, default) ← cutFirst separator placeholder
    lookup key <|> some default

/-- Expand a text whose placeholders are nested at most `bound` deep; `inProgress` holds those
being replaced. -/
def expandWithin (d : Delimiters) (mode : Mode) (lookup : Lookup) :
    Nat → List (List Char) → List Char → Except Failure (List Char)
  | 0, _, _ => .error .tooDeep
  | bound + 1, inProgress, text => do
    let parts ← (segments d text).mapM fun
      | .literal s => pure s
      | .placeholder body => do
        if body ∈ inProgress then throw (.circular body)
        let placeholder ← expandWithin d mode lookup bound (body :: inProgress) body
        match value? d lookup placeholder, mode with
        | some raw, _ => expandWithin d mode lookup bound (body :: inProgress) raw
        | none, .lenient => pure (d.opening ++ body ++ d.closing)
        | none, .required => throw (.unresolvable placeholder text)
    pure parts.flatten

/-- How deep placeholders may be nested that stand neither in the text nor in a property but are put
together on the way. -/
def spareDepth : Nat := 1200

/-- How deep placeholders may be nested: no deeper than there are characters in the text and in the
names and values of all properties, but for placeholders that are put together on the way. -/
def depthBound (text : List Char) (valueSize : Nat) : Nat := text.length + valueSize + spareDepth

/-- Expand a text; `valueSize` is the number of characters of the names and values of all
properties. -/
def expandChars (d : Delimiters) (mode : Mode) (valueSize : Nat) (lookup : Lookup)
    (text : List Char) : Except Failure (List Char) :=
  expandWithin d mode lookup (depthBound text valueSize) [] text

/-- The cause that a failed expansion is reported as. -/
def Failure.toError : Failure → Error
  | circular placeholder => .circularPlaceholder (String.ofList placeholder)
  | unresolvable placeholder value =>
    .unresolvablePlaceholder (String.ofList placeholder) (String.ofList value)
  | tooDeep => .exhausted "the expansion of placeholders"

/-- A look-up of strings. -/
def Lookup.ofStrings (lookup : String → Option String) : Lookup := fun key =>
  (lookup (String.ofList key)).map String.toList

/-- Expand the placeholders of a text; `valueSize` is the number of characters of the names and
values of all properties. An expansion that nests placeholders deeper than `depthBound` fails as
exhausted, also where it would come to an end further down. That takes placeholders that grow while
they are put together: those written in the text and in the properties never nest so deep. -/
def expand (d : Delimiters) (mode : Mode) (valueSize : Nat) (lookup : String → Option String)
    (text : String) : Except Error String :=
  match expandChars d mode valueSize (.ofStrings lookup) text.toList with
  | .ok result => .ok (String.ofList result)
  | .error failure => .error failure.toError

end Wiring.Placeholder
