import Mathlib.Data.Finset.Max
import Wiring.Properties
import Wiring.Proofs.Table

/-!
# Reading back what was written

Properties that are written one a line, with backslashes before all that has a meaning, are read
back line by line. Keys and values come back as they were, but for one thing: blanks before the
separator are dropped even where the last of them has a backslash in front. A key that ends in such
a blank comes back without it.
-/

namespace Wiring.Properties

open Text

/-! ## Characters as they are written -/

/-- A character without a meaning. -/
structure IsOrdinary (c : Char) : Prop where
  ne_backslash : c ≠ '\\'
  not_endsKey : endsKey c = false
  not_comment : (c == '#' || c == '!') = false

/-- A blank that is written as itself, with a backslash in front. -/
def isLiteralBlank (c : Char) : Bool :=
  isBlank c && c != '\n' && c != '\r' && c != '\t'

/-- What is written behind a backslash for a character. -/
structure Denotes (d c : Char) : Prop where
  ne_lineFeed : d ≠ '\n'
  ne_carriageReturn : d ≠ '\r'
  isBlank_eq : isBlank d = isLiteralBlank c
  unescape_eq : ∀ s, unescape ('\\' :: d :: s) = c :: unescape s

theorem IsOrdinary.isBlank_eq {c : Char} (h : IsOrdinary c) : isBlank c = false :=
  (Bool.or_eq_false_iff.1 h.not_endsKey).2

theorem unescape_backslash {c : Char} (hn : c ≠ 'n') (ht : c ≠ 't') (hr : c ≠ 'r')
    (s : List Char) : unescape ('\\' :: c :: s) = c :: unescape s := by
  rw [unescape]
  · exact hn
  · exact ht
  · exact hr

/-- An ordinary character is written as it is, and any other one behind a backslash. -/
theorem escapeChar_cases (c : Char) :
    (escapeChar c = [c] ∧ IsOrdinary c) ∨ ∃ d, escapeChar c = ['\\', d] ∧ Denotes d c := by
  unfold escapeChar
  split
  next => exact .inr ⟨_, rfl, by decide, by decide, by decide, fun _ => rfl⟩
  next => exact .inr ⟨_, rfl, by decide, by decide, by decide, fun _ => rfl⟩
  next => exact .inr ⟨_, rfl, by decide, by decide, by decide, fun _ => rfl⟩
  next => exact .inr ⟨_, rfl, by decide, by decide, by decide, fun _ => rfl⟩
  next hb hn hr ht =>
    split
    next hmeaning =>
      have hn : c ≠ '\n' := hn
      have hr : c ≠ '\r' := hr
      have ht : c ≠ '\t' := ht
      refine .inr ⟨c, rfl, hn, hr, ?_, fun s => ?_⟩
      · simp only [isLiteralBlank, bne_iff_ne.2 hn, bne_iff_ne.2 hr, bne_iff_ne.2 ht, Bool.and_true]
      · have hletter {l : Char} (hl : (endsKey l || l == '#' || l == '!') = false) : c ≠ l := by
          rintro rfl
          exact Bool.noConfusion (hmeaning.symm.trans hl)
        exact unescape_backslash (hletter (by decide)) (hletter (by decide)) (hletter (by decide)) s
    next hmeaning =>
      have hmeaning := Bool.or_eq_false_iff.1 (Bool.eq_false_iff.2 hmeaning)
      exact .inl ⟨rfl, hb, (Bool.or_eq_false_iff.1 hmeaning.1).1,
        Bool.or_eq_false_iff.2 ⟨(Bool.or_eq_false_iff.1 hmeaning.1).2, hmeaning.2⟩⟩

@[simp] theorem escape_nil : escape [] = [] := rfl

theorem escape_cons (c : Char) (s : List Char) : escape (c :: s) = escapeChar c ++ escape s := rfl

theorem escape_concat (s : List Char) (c : Char) :
    escape (s ++ [c]) = escape s ++ escapeChar c := by
  simp [escape]

/-! ## Lines -/

theorem linesOf_go_append {line : List Char} (h : '\n' ∉ line) (acc s : List Char) :
    linesOf.go acc (line ++ s) = linesOf.go (line.reverse ++ acc) s := by
  induction line generalizing acc with
  | nil => rfl
  | cons c line ih =>
    rw [List.mem_cons, not_or] at h
    rw [List.cons_append, linesOf.go, ih h.2, List.reverse_cons, List.append_assoc]
    · rfl
    · exact fun hc => h.1 hc.symm

theorem linesOf_flatMap {lines : List (List Char)}
    (h : ∀ line ∈ lines, '\n' ∉ line ∧ '\r' ∉ line) :
    linesOf (lines.flatMap (· ++ ['\n'])) = lines := by
  induction lines with
  | nil => rfl
  | cons line lines ih =>
    rw [List.forall_mem_cons] at h
    rw [linesOf, List.flatMap_cons, List.append_assoc, linesOf_go_append h.1.1, List.append_nil,
      List.singleton_append, linesOf.go, List.reverse_reverse]
    · exact congrArg _ (ih h.2)
    · exact fun line' hline => h.1.2 (List.mem_reverse.1 (hline ▸ List.mem_cons_self))

/-- A line that stands for itself: it starts with no blank and no comment sign, and ends in no
backslash that continues it. -/
structure IsPlainLine (line : List Char) : Prop where
  trimStart_eq : trimStart line = line
  not_ignored : isIgnored line = false
  not_continued : isContinued line = false

theorem logicalLines_eq {lines : List (List Char)} (h : ∀ line ∈ lines, IsPlainLine line) :
    logicalLines [] lines = lines := by
  induction lines with
  | nil => rfl
  | cons line lines ih =>
    rw [List.forall_mem_cons] at h
    rw [logicalLines, h.1.trimStart_eq, h.1.not_ignored, h.1.not_continued, ih h.2]
    rfl

/-! ## Texts as they are written -/

theorem unescape_cons {c : Char} (h : c ≠ '\\') (s : List Char) :
    unescape (c :: s) = c :: unescape s := by
  rw [unescape]
  · exact fun hc => absurd hc h
  · exact fun _ _ hc => absurd hc h

/-- What is read from a text that was written is the text. -/
theorem unescape_escape_append (s r : List Char) : unescape (escape s ++ r) = s ++ unescape r := by
  induction s with
  | nil => rfl
  | cons c s ih =>
    rw [escape_cons, List.append_assoc, List.cons_append, ← ih]
    rcases escapeChar_cases c with ⟨hc, hordinary⟩ | ⟨d, hc, hd⟩
    · rw [hc]
      exact unescape_cons hordinary.ne_backslash _
    · rw [hc]
      exact hd.unescape_eq _

theorem unescape_escape (s : List Char) : unescape (escape s) = s := by
  have happend := unescape_escape_append s []
  rwa [List.append_nil, unescape, List.append_nil] at happend

theorem cutKey_cons {c : Char} (h : IsOrdinary c) (s : List Char) :
    cutKey (c :: s) = (c :: (cutKey s).1, (cutKey s).2) := by
  rw [cutKey, h.not_endsKey]
  · rfl
  · exact fun hc => absurd hc h.ne_backslash
  · exact fun _ _ hc => absurd hc h.ne_backslash

theorem cutKey_backslash (c : Char) (s : List Char) :
    cutKey ('\\' :: c :: s) = ('\\' :: c :: (cutKey s).1, (cutKey s).2) := rfl

theorem cutKey_escape (s r : List Char) :
    cutKey (escape s ++ '=' :: r) = (escape s, some ('=', r)) := by
  induction s with
  | nil => rfl
  | cons c s ih =>
    rw [escape_cons, List.append_assoc]
    rcases escapeChar_cases c with ⟨hc, hordinary⟩ | ⟨d, hc, hd⟩
    · rw [hc, List.singleton_append, cutKey_cons hordinary, ih]
      rfl
    · rw [hc, List.cons_append, List.singleton_append, cutKey_backslash, ih]
      rfl

theorem not_mem_escape {b : Char} (hb : b = '\n' ∨ b = '\r') (s : List Char) : b ∉ escape s := by
  refine fun hmem => ?_
  obtain ⟨c, -, hmem⟩ := List.mem_flatMap.1 hmem
  rcases escapeChar_cases c with ⟨hc, hordinary⟩ | ⟨d, hc, hd⟩
  · obtain rfl := List.mem_singleton.1 (hc ▸ hmem)
    rcases hb with rfl | rfl
    · exact absurd hordinary.not_endsKey (by decide)
    · exact absurd hordinary.not_endsKey (by decide)
  · rw [hc, List.mem_cons, List.mem_singleton] at hmem
    rcases hb with rfl | rfl
    · exact hmem.elim (by decide) hd.ne_lineFeed.symm
    · exact hmem.elim (by decide) hd.ne_carriageReturn.symm

/-! ## Ends of written texts -/

theorem exists_escape_cons (c : Char) (s r : List Char) : ∃ b rest,
    escape (c :: s) ++ r = b :: rest ∧ isBlank b = false ∧ (b == '#' || b == '!') = false := by
  rw [escape_cons, List.append_assoc]
  rcases escapeChar_cases c with ⟨hc, hordinary⟩ | ⟨d, hc, -⟩
  · exact ⟨c, escape s ++ r, by rw [hc]; rfl, hordinary.isBlank_eq, hordinary.not_comment⟩
  · exact ⟨'\\', d :: (escape s ++ r), by rw [hc]; rfl, by decide, by decide⟩

theorem trimStart_escape_append (s : List Char) {r : List Char} (h : trimStart r = r) :
    trimStart (escape s ++ r) = escape s ++ r := by
  cases s with
  | nil => exact h
  | cons c s =>
    obtain ⟨b, rest, hcons, hblank, -⟩ := exists_escape_cons c s r
    rw [hcons, trimStart_cons_of_not_blank rest hblank]

theorem isIgnored_escape_append (s : List Char) {r : List Char} (h : isIgnored r = false) :
    isIgnored (escape s ++ r) = false := by
  cases s with
  | nil => exact h
  | cons c s =>
    obtain ⟨b, rest, hcons, -, hcomment⟩ := exists_escape_cons c s r
    rw [hcons]
    exact hcomment

theorem isContinued_concat (s : List Char) {c : Char} (h : c ≠ '\\') :
    isContinued (s ++ [c]) = false := by
  unfold isContinued
  rw [List.reverse_append, List.reverse_singleton, List.singleton_append, List.takeWhile_cons,
    beq_false_of_ne h]
  rfl

theorem isContinued_backslashes (s : List Char) :
    isContinued (s ++ ['\\', '\\']) = isContinued s := by
  unfold isContinued
  rw [List.reverse_append]
  show (((s.reverse.takeWhile (· == '\\')).length + 2) % 2 == 1) = _
  rw [Nat.add_mod_right]

/-- Each backslash that a written text ends in has one in front. -/
theorem isContinued_append_escape {r : List Char} (h : isContinued r = false) (s : List Char) :
    isContinued (r ++ escape s) = false := by
  induction s using List.reverseRecOn with
  | nil => rwa [escape_nil, List.append_nil]
  | append_singleton s c ih =>
    rw [escape_concat, ← List.append_assoc]
    rcases escapeChar_cases c with ⟨hc, hordinary⟩ | ⟨d, hc, hd⟩
    · rw [hc]
      exact isContinued_concat _ hordinary.ne_backslash
    · rw [hc]
      by_cases hback : d = '\\'
      · -- two backslashes leave it open as before whether the line goes on
        rwa [hback, isContinued_backslashes]
      · have hlast := isContinued_concat (r ++ escape s ++ ['\\']) hback
        rwa [List.append_assoc] at hlast

/-- A key without the blank that it ends in, if that is written as itself. -/
def clipped (key : List Char) : List Char :=
  if key.getLast?.any isLiteralBlank then key.dropLast else key

@[simp] theorem clipped_concat (key : List Char) (c : Char) :
    clipped (key ++ [c]) = if isLiteralBlank c then key else key ++ [c] := by
  simp [clipped]

/-- Blanks at the end are dropped with no regard to the backslash in front. -/
theorem unescape_trimEnd_escape (key : List Char) :
    unescape (trimEnd (escape key)) = clipped key := by
  induction key using List.reverseRecOn with
  | nil => rfl
  | append_singleton s c _ =>
    rw [escape_concat, clipped_concat]
    rcases escapeChar_cases c with ⟨hc, hordinary⟩ | ⟨d, hc, hd⟩
    · have hlast : isLiteralBlank c = false := by
        unfold isLiteralBlank
        rw [hordinary.isBlank_eq]
        rfl
      rw [hc, trimEnd_concat_of_not_blank _ hordinary.isBlank_eq, hlast, unescape_escape_append,
        unescape_cons hordinary.ne_backslash]
      rfl
    · rw [hc, ← hd.isBlank_eq]
      cases hblank : isBlank d with
      | true =>
        -- the backslash in front of the blank is left at the end, where it stands for nothing
        have hdrop := trimEnd_append_blank (escape s ++ ['\\'])
          (List.forall_mem_singleton.2 hblank : ∀ c ∈ [d], isBlank c = true)
        rw [List.append_assoc] at hdrop
        rw [show ['\\', d] = ['\\'] ++ [d] from rfl, hdrop,
          trimEnd_concat_of_not_blank _ (by decide), unescape_escape_append]
        exact List.append_nil s
      | false =>
        have hkeep := trimEnd_concat_of_not_blank (escape s ++ ['\\']) hblank
        rw [List.append_assoc] at hkeep
        rw [show ['\\', d] = ['\\'] ++ [d] from rfl, hkeep, unescape_escape_append]
        exact congrArg _ (hd.unescape_eq [])

/-! ## Properties -/

theorem isPlainLine_writeLine (e : String × String) : IsPlainLine (writeLine e) where
  trimStart_eq := trimStart_escape_append _ (trimStart_cons_of_not_blank _ (by decide))
  not_ignored := isIgnored_escape_append _ rfl
  not_continued := by
    have hkey := isContinued_concat (escape e.1.toList) (by decide : '=' ≠ '\\')
    have hline := isContinued_append_escape hkey e.2.toList
    rwa [List.append_assoc] at hline

theorem splitLine_writeLine (e : String × String) :
    splitLine (writeLine e) = (trimEnd (escape e.1.toList), escape e.2.toList) := by
  have hvalue := trimStart_escape_append e.2.toList trimStart_nil
  rw [List.append_nil] at hvalue
  unfold splitLine writeLine
  rw [cutKey_escape]
  show (trimEnd (escape e.1.toList), trimStart (escape e.2.toList)) = _
  rw [hvalue]

/-- What a property comes back as. -/
def readBack (e : String × String) : String × String :=
  (String.ofList (clipped e.1.toList), e.2)

theorem parse_write_eq (entries : List (String × String)) :
    parse (write entries) = Table.ofList (entries.map readBack) := by
  have hlines : linesOf (entries.flatMap fun e => writeLine e ++ ['\n']) =
      entries.map writeLine := by
    rw [← List.flatMap_map writeLine fun line => line ++ ['\n']]
    refine linesOf_flatMap (List.forall_mem_map.2 fun e _ => ?_)
    have hnot {b : Char} (hb : b = '\n' ∨ b = '\r') (hne : b ≠ '=') : b ∉ writeLine e :=
      List.not_mem_append (not_mem_escape hb _)
        (List.not_mem_cons_of_ne_of_not_mem hne (not_mem_escape hb _))
    exact ⟨hnot (.inl rfl) (by decide), hnot (.inr rfl) (by decide)⟩
  unfold parse write
  rw [String.toList_ofList, hlines,
    logicalLines_eq (List.forall_mem_map.2 fun e _ => isPlainLine_writeLine e), List.map_map]
  refine congrArg Table.ofList (List.map_congr_left fun e _ => ?_)
  show (String.ofList (unescape (splitLine (writeLine e)).1),
    String.ofList (unescape (splitLine (writeLine e)).2)) = _
  rw [splitLine_writeLine, unescape_trimEnd_escape, unescape_escape, String.ofList_toList]
  rfl

/-- Does a key end in a blank that is written as itself? -/
def endsBlank (key : String) : Bool := key.toList.getLast?.any isLiteralBlank

theorem readBack_eq {e : String × String} (h : endsBlank e.1 = false) : readBack e = e := by
  unfold readBack clipped
  rw [show (e.1.toList.getLast?.any isLiteralBlank) = false from h]
  simp

/-- A key that ends in such a blank comes back as a shorter one. -/
theorem length_readBack {e : String × String} (h : endsBlank e.1 = true) :
    (readBack e).1.length < e.1.length := by
  have hne : e.1.toList ≠ [] := by
    intro hnil
    unfold endsBlank at h
    rw [hnil] at h
    cases h
  have hclip : clipped e.1.toList = e.1.toList.dropLast := if_pos h
  have hpos := List.length_pos_iff.2 hne
  rw [← String.length_toList, ← String.length_toList]
  unfold readBack
  rw [String.toList_ofList, hclip, List.length_dropLast]
  omega

/-- If all properties come back, none of the keys ends in such a blank: the longest key that does
would be what a longer one comes back as. -/
theorem endsBlank_of_ofList_readBack {t : Table String} {entries : List (String × String)}
    (hperm : entries.Perm t.entries) (h : Table.ofList (entries.map readBack) = t) :
    ∀ key ∈ t.names, endsBlank key = false := by
  by_contra hsome
  push Not at hsome
  obtain ⟨key, hkey, hends⟩ := hsome
  have hblanks {key : String} : key ∈ (t.names.filter endsBlank).toFinset ↔
      key ∈ t.names ∧ endsBlank key = true := List.mem_toFinset.trans List.mem_filter
  obtain ⟨longest, hlongest, hmax⟩ := Finset.exists_max_image (t.names.filter endsBlank).toFinset
    String.length ⟨key, hblanks.2 ⟨hkey, Bool.eq_true_of_not_eq_false hends⟩⟩
  obtain ⟨hmem, hends⟩ := hblanks.1 hlongest
  -- the entry that comes back with the longest of these keys
  rw [← h, Table.mem_names_ofList, List.map_map] at hmem
  obtain ⟨e, he, hback⟩ := List.mem_map.1 hmem
  replace hback : (readBack e).1 = longest := hback
  cases hblank : endsBlank e.1 with
  | true =>
    have hlonger := length_readBack hblank
    rw [hback] at hlonger
    exact Nat.not_le_of_lt hlonger
      (hmax e.1 (hblanks.2 ⟨List.mem_map_of_mem (hperm.subset he), hblank⟩))
  | false =>
    rw [readBack_eq hblank] at hback
    rw [hback, hends] at hblank
    cases hblank

/-- What is written comes back with some of the keys clipped, and comes back as it was just if no
key ends in a blank that is written as itself. -/
theorem parse_write {t : Table String} {entries : List (String × String)}
    (h : entries.Perm t.entries) :
    parse (write entries) = Table.ofList (entries.map readBack) ∧
      (parse (write entries) = t ↔ ∀ key ∈ t.names, endsBlank key = false) := by
  rw [parse_write_eq]
  refine ⟨rfl, endsBlank_of_ofList_readBack h, fun hkeys => ?_⟩
  have hsame : entries.map readBack = entries.map id := List.map_congr_left fun e he =>
    readBack_eq (hkeys e.1 (List.mem_map_of_mem (h.subset he)))
  rw [hsame, List.map_id]
  exact Table.ofList_of_perm h

/-- Separators, comment signs and blanks come back. -/
theorem parse_write_separators :
    let t := Table.ofList [("#a:", " \t!"), (" =\n", "\\")]
    parse (write t.entries) = t :=
  (parse_write (.refl _)).2.2 (by decide)

/-- A blank at the end of a key is lost. -/
theorem parse_render_blank :
    let t := Table.ofList [("a ", "b")]
    render t = "a\\ =b\n" ∧ parse (render t) = Table.ofList [("a", "b")] ∧
      parse (render t) ≠ t := by
  decide

end Wiring.Properties
