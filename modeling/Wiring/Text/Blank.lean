/-!
# Blank characters

The characters with the Unicode property `White_Space`, and trimming by them. Every rule of the
library that speaks of blanks (profile names, property lines, empty documents) means this set.
-/

namespace Wiring.Text

/-- The characters with the Unicode property `White_Space`. -/
def isBlank (c : Char) : Bool :=
  let n := c.toNat
  (9 ≤ n && n ≤ 13) || n == 0x20 || n == 0x85 || n == 0xA0 || n == 0x1680 ||
    (0x2000 ≤ n && n ≤ 0x200A) || n == 0x2028 || n == 0x2029 || n == 0x202F || n == 0x205F ||
    n == 0x3000

/-- Drop the blanks in front. -/
def trimStart (s : List Char) : List Char := s.dropWhile isBlank

/-- Drop the blanks at the end. -/
def trimEnd (s : List Char) : List Char := (s.reverse.dropWhile isBlank).reverse

/-- Drop the blanks at both ends. -/
def trim (s : List Char) : List Char := trimEnd (trimStart s)

@[simp] theorem trimStart_nil : trimStart [] = [] := rfl

@[simp] theorem trimEnd_nil : trimEnd [] = [] := rfl

theorem trimStart_cons_of_not_blank {c : Char} (s : List Char) (h : isBlank c = false) :
    trimStart (c :: s) = c :: s := by
  simp [trimStart, h]

theorem trimEnd_concat_of_not_blank {c : Char} (s : List Char) (h : isBlank c = false) :
    trimEnd (s ++ [c]) = s ++ [c] := by
  simp [trimEnd, h]

theorem trimStart_blank_append {gap : List Char} (h : ∀ c ∈ gap, isBlank c = true)
    (s : List Char) : trimStart (gap ++ s) = trimStart s :=
  List.dropWhile_append_of_pos h

theorem trimEnd_append_blank {gap : List Char} (s : List Char)
    (h : ∀ c ∈ gap, isBlank c = true) : trimEnd (s ++ gap) = trimEnd s := by
  unfold trimEnd
  rw [List.reverse_append,
    List.dropWhile_append_of_pos fun c hc => h c (List.mem_reverse.1 hc)]

theorem trim_blank_append {gap : List Char} (h : ∀ c ∈ gap, isBlank c = true) (s : List Char) :
    trim (gap ++ s) = trim s := by
  unfold trim
  rw [trimStart_blank_append h]

theorem trim_append_blank {gap : List Char} (s : List Char) (h : ∀ c ∈ gap, isBlank c = true) :
    trim (s ++ gap) = trim s := by
  induction s with
  | nil => simpa using trim_blank_append h []
  | cons c s ih =>
    cases hc : isBlank c with
    | true =>
      have hblank : ∀ b ∈ [c], isBlank b = true := by simpa using hc
      exact (trim_blank_append hblank (s ++ gap)).trans (ih.trans (trim_blank_append hblank s).symm)
    | false =>
      unfold trim
      rw [trimStart_cons_of_not_blank s hc, List.cons_append, trimStart_cons_of_not_blank _ hc,
        ← List.cons_append, trimEnd_append_blank _ h]

/-- Does the text hold nothing but blanks? -/
def isBlankText (s : String) : Bool := s.toList.all isBlank

/-- `trim` on strings. -/
def trimmed (s : String) : String := String.ofList (trim s.toList)

end Wiring.Text
