/-!
# Segments of a text with placeholders

A text is cut into literal stretches and placeholders. A placeholder starts with the opening
delimiter and ends with the closing one that balances it; an opening delimiter that nothing closes
makes the rest of the text literal. The cut does not depend on any value, so it is made once, before
a value is looked up.
-/

namespace Wiring.Placeholder

/-- How placeholders are written: `opening`, then a key, then perhaps `separator` and a default,
then `closing`. -/
structure Delimiters where
  opening : List Char
  closing : List Char
  separator? : Option (List Char)
deriving DecidableEq, Repr

namespace Delimiters

/-- A dollar sign and braces, with a colon before a default. -/
def standard : Delimiters := ⟨['$', '\x7b'], ['\x7d'], some [':']⟩

/-- What opens a nested pair inside a placeholder: a bare brace where braces close placeholders,
otherwise the opening delimiter. -/
def nestedOpening (d : Delimiters) : List Char :=
  if d.opening.getLast? = some '\x7b' && d.closing = ['\x7d'] then ['\x7b'] else d.opening

end Delimiters

/-- Cut a text at the first occurrence of `needle`. -/
def cutFirst (needle : List Char) : List Char → Option (List Char × List Char)
  | [] => (needle.isPrefixOf? []).map ([], ·)
  | c :: s =>
    match needle.isPrefixOf? (c :: s) with
    | some rest => some ([], rest)
    | none => (cutFirst needle s).map fun (before, after) => (c :: before, after)

/-- Cut a text, read from just after an opening delimiter, at the closing delimiter that balances
it. `skip` characters are taken without a look, and `depth` nested pairs are open. -/
def cutBalanced (d : Delimiters) : Nat → Nat → List Char → Option (List Char × List Char)
  | _, _, [] => none
  | skip + 1, depth, c :: s =>
    (cutBalanced d skip depth s).map fun (body, rest) => (c :: body, rest)
  | 0, depth, c :: s =>
    match d.closing.isPrefixOf? (c :: s), depth with
    | some rest, 0 => some ([], rest)
    | some _, depth + 1 =>
      (cutBalanced d (d.closing.length - 1) depth s).map fun (body, rest) => (c :: body, rest)
    | none, depth =>
      if d.nestedOpening.isPrefixOf (c :: s) then
        (cutBalanced d (d.nestedOpening.length - 1) (depth + 1) s).map
          fun (body, rest) => (c :: body, rest)
      else (cutBalanced d 0 depth s).map fun (body, rest) => (c :: body, rest)

/-- A stretch of a text. -/
inductive Segment where
  | literal (text : List Char)
  | placeholder (body : List Char)
deriving DecidableEq, Repr

/-- The segments of a text, at most `bound` placeholders of it. -/
def segmentsWithin (d : Delimiters) : Nat → List Char → List Segment
  | 0, s => [.literal s]
  | bound + 1, s =>
    match cutFirst d.opening s with
    | none => [.literal s]
    | some (before, after) =>
      match cutBalanced d 0 0 after with
      | none => [.literal s]
      | some (body, rest) =>
        .literal before :: .placeholder body :: segmentsWithin d bound rest

/-- The segments of a text. It has fewer placeholders than characters. -/
def segments (d : Delimiters) (s : List Char) : List Segment :=
  if d.opening = [] then [.literal s] else segmentsWithin d s.length s

/-- The text of a segment. -/
def Segment.render (d : Delimiters) : Segment → List Char
  | literal text => text
  | placeholder body => d.opening ++ body ++ d.closing

theorem eq_append_of_isPrefixOf? {p s r : List Char} (h : p.isPrefixOf? s = some r) :
    s = p ++ r := by
  induction p generalizing s with
  | nil => exact Option.some.inj h
  | cons a p ih =>
    cases s with
    | nil => cases h
    | cons b s =>
      change (if a == b then p.isPrefixOf? s else none) = some r at h
      split at h
      next hab => rw [ih h, eq_of_beq hab]; rfl
      next => cases h

/-- A cut loses nothing but the needle. -/
theorem eq_append_of_cutFirst {needle s before after : List Char}
    (h : cutFirst needle s = some (before, after)) : s = before ++ needle ++ after := by
  induction s generalizing before with
  | nil =>
    simp only [cutFirst, Option.map_eq_some_iff, Prod.mk.injEq] at h
    obtain ⟨r, hr, rfl, rfl⟩ := h
    simpa using eq_append_of_isPrefixOf? hr
  | cons c s ih =>
    unfold cutFirst at h
    split at h
    next rest hr =>
      simp only [Option.some.injEq, Prod.mk.injEq] at h
      obtain ⟨rfl, rfl⟩ := h
      simpa using eq_append_of_isPrefixOf? hr
    next =>
      simp only [Option.map_eq_some_iff, Prod.mk.injEq] at h
      obtain ⟨⟨b, a⟩, hb, rfl, rfl⟩ := h
      simp [ih hb]

end Wiring.Placeholder
