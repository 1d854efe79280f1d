import Wiring.Profile

/-!
# The grammar of profile expressions

A reader of profile expressions accepts the texts of its grammar and no others: an expression is an
operand, or several operands joined by one connective, and an operand is a name, a negated operand,
or an expression in parentheses. A text has one expression at most. Every expression has a text, in
which operands that are joined themselves stand in parentheses, and blanks do not matter.
-/

namespace Wiring.ProfileExpression

/-! ## The grammar -/

namespace Connective

/-- The token of a connective. -/
def token : Connective → Token
  | and => .and
  | or => .or

/-- The expression that a connective makes of several operands. -/
def join : Connective → List ProfileExpression → ProfileExpression
  | and, operands => .and operands
  | or, operands => .or operands

@[simp] theorem ofToken?_token (c : Connective) : ofToken? c.token = some c := by
  cases c <;> rfl

theorem ofToken?_eq_some {t : Token} {c : Connective} (h : ofToken? t = some c) : t = c.token := by
  cases t <;> cases h <;> rfl

@[simp] theorem combine_some (c : Connective) (operands : List ProfileExpression) :
    combine (some c) operands = c.join operands := by
  cases c <;> rfl

end Connective

/-- The tokens of a text: its operators, and between them the names. -/
inductive Lexed : List Char → List Token → Prop
  | gap {gap : List Char} (plain : ∀ c ∈ gap, Token.ofChar? c = none) : Lexed gap (Token.ofGap gap)
  | operator {gap s : List Char} {c : Char} {t : Token} {ts : List Token}
    (plain : ∀ c ∈ gap, Token.ofChar? c = none) (ht : Token.ofChar? c = some t)
    (rest : Lexed s ts) : Lexed (gap ++ c :: s) (Token.ofGap gap ++ t :: ts)

mutual

/-- The tokens of an expression. -/
inductive IsExpression : List Token → ProfileExpression → Prop
  | single {ts : List Token} {e : ProfileExpression} (h : IsOperand ts e) : IsExpression ts e
  | joined {ts us : List Token} {e : ProfileExpression} {es : List ProfileExpression}
    (c : Connective) (first : IsOperand ts e) (more : AreJoined c us es) :
    IsExpression (ts ++ us) (c.join (e :: es))

/-- The tokens of an operand. -/
inductive IsOperand : List Token → ProfileExpression → Prop
  | name (n : String) : IsOperand [.name n] (.name n)
  | not {ts : List Token} {e : ProfileExpression} (h : IsOperand ts e) :
    IsOperand (.not :: ts) (.not e)
  | parens {ts : List Token} {e : ProfileExpression} (h : IsExpression ts e) :
    IsOperand (.openParen :: (ts ++ [.closeParen])) e

/-- The tokens of one or more operands, each with the connective in front. -/
inductive AreJoined : Connective → List Token → List ProfileExpression → Prop
  | one {c : Connective} {ts : List Token} {e : ProfileExpression} (h : IsOperand ts e) :
    AreJoined c (c.token :: ts) [e]
  | more {c : Connective} {ts us : List Token} {e : ProfileExpression}
    {es : List ProfileExpression} (first : IsOperand ts e) (rest : AreJoined c us es) :
    AreJoined c (c.token :: (ts ++ us)) (e :: es)

end

/-! ## Tokens of a text -/

theorem Token.scan_append {g : List Char} (plain : ∀ c ∈ g, ofChar? c = none)
    (gap s : List Char) : scan gap (g ++ s) = scan (g.reverse ++ gap) s := by
  induction g generalizing gap with
  | nil => rfl
  | cons c g ih =>
    rw [List.forall_mem_cons] at plain
    rw [List.cons_append, scan, plain.1, List.reverse_cons, List.append_assoc]
    exact ih plain.2 (c :: gap)

theorem Token.scan_operator {c : Char} {t : Token} (ht : ofChar? c = some t) (gap s : List Char) :
    scan gap (c :: s) = ofGap gap.reverse ++ t :: scan [] s := by
  rw [scan, ht]

theorem Lexed.scan_eq {s : List Char} {ts : List Token} (h : Lexed s ts) :
    Token.scan [] s = ts := by
  induction h with
  | @gap gap plain =>
    have hscan := Token.scan_append plain [] []
    rw [List.append_nil, List.append_nil, Token.scan, List.reverse_reverse] at hscan
    exact hscan
  | operator plain ht _ ih =>
    rw [Token.scan_append plain, Token.scan_operator ht, List.append_nil, List.reverse_reverse, ih]

theorem lexed_scan {gap : List Char} (plain : ∀ c ∈ gap, Token.ofChar? c = none) (s : List Char) :
    Lexed (gap.reverse ++ s) (Token.scan gap s) := by
  induction s generalizing gap with
  | nil =>
    rw [List.append_nil]
    exact .gap fun c hc => plain c (List.mem_reverse.1 hc)
  | cons c s ih =>
    rw [Token.scan]
    split
    next t ht =>
      have hs := @ih [] (List.forall_mem_nil _)
      exact .operator (fun c hc => plain c (List.mem_reverse.1 hc)) ht hs
    next ht =>
      have hgap := @ih (c :: gap) (List.forall_mem_cons.2 ⟨ht, plain⟩)
      rwa [List.reverse_cons, List.append_assoc] at hgap

theorem lexed_iff {text : String} {ts : List Token} : Lexed text.toList ts ↔ ts = tokens text :=
  ⟨fun h => h.scan_eq.symm, fun h => h ▸ @lexed_scan [] (List.forall_mem_nil _) text.toList⟩

/-! ## What the reader accepts -/

/-- What the reader takes from the front of the tokens has this property. -/
def Takes (read : List Token → Except Fault (ProfileExpression × List Token))
    (P : List Token → ProfileExpression → Prop) : Prop :=
  ∀ ts rest e, read ts = .ok (e, rest) → ∃ used, ts = used ++ rest ∧ P used e

/-- What follows the operands read so far: nothing, or more operands with the same connective. -/
inductive Follows (connective? : Option Connective) (operands : List ProfileExpression) :
    List Token → ProfileExpression → Prop
  | stop : Follows connective? operands [] (Connective.combine connective? operands)
  | more {c : Connective} {used : List Token} {es : List ProfileExpression}
    (same : ∀ c' ∈ connective?, c' = c) (h : AreJoined c used es) :
    Follows connective? operands used (c.join (operands ++ es))

section Soundness

variable {bound : Nat}

theorem takes_expression (hoperand : Takes (operand bound) IsOperand)
    (hmore : ∀ connective? operands,
      Takes (moreOperands bound connective? operands) (Follows connective? operands)) :
    Takes (expression (bound + 1)) IsExpression := by
  intro ts rest e h
  obtain ⟨⟨first, ts'⟩, hfirst, hread⟩ := bind_eq_ok.1 h
  obtain ⟨used, rfl, hused⟩ := hoperand _ _ _ hfirst
  obtain ⟨used', rfl, hfollows⟩ := hmore none [first] _ _ _ hread
  refine ⟨used ++ used', (List.append_assoc ..).symm, ?_⟩
  cases hfollows with
  | stop => exact (List.append_nil used).symm ▸ .single hused
  | more _ hes => exact .joined _ hused hes

theorem takes_moreOperands (hoperand : Takes (operand bound) IsOperand)
    (hmore : ∀ connective? operands,
      Takes (moreOperands bound connective? operands) (Follows connective? operands))
    (connective? : Option Connective) (operands : List ProfileExpression) :
    Takes (moreOperands (bound + 1) connective? operands) (Follows connective? operands) := by
  intro ts rest e h
  unfold moreOperands at h
  split at h
  next =>
    cases h
    exact ⟨[], rfl, .stop⟩
  next token ts' =>
    split at h
    next =>
      cases h
      exact ⟨[], rfl, .stop⟩
    next c hc =>
      obtain rfl := Connective.ofToken?_eq_some hc
      split at h
      next => cases h
      next hsame =>
        have hsame : ∀ c' ∈ connective?, c' = c := fun c' hc' => by
          simpa [Option.mem_def.1 hc'] using hsame
        obtain ⟨⟨next, ts''⟩, hnext, hread⟩ := bind_eq_ok.1 h
        obtain ⟨used, rfl, hused⟩ := hoperand _ _ _ hnext
        obtain ⟨used', rfl, hfollows⟩ := hmore _ _ _ _ _ hread
        refine ⟨c.token :: (used ++ used'), by rw [List.cons_append, List.append_assoc], ?_⟩
        -- the operand just read is the last one, or the first of those that are left
        cases hfollows with
        | stop =>
          rw [List.append_nil, Connective.combine_some]
          exact .more hsame (.one hused)
        | more same hes =>
          obtain rfl := same c rfl
          rw [List.append_assoc]
          exact .more hsame (.more hused hes)

theorem takes_operand (hoperand : Takes (operand bound) IsOperand)
    (hexpression : Takes (expression bound) IsExpression) :
    Takes (operand (bound + 1)) IsOperand := by
  intro ts rest e h
  unfold operand at h
  split at h
  next n ts' =>
    cases h
    exact ⟨[.name n], rfl, .name n⟩
  next ts' =>
    obtain ⟨⟨inner, ts''⟩, hinner, hread⟩ := bind_eq_ok.1 h
    obtain ⟨used, rfl, hused⟩ := hoperand _ _ _ hinner
    cases hread
    exact ⟨.not :: used, rfl, .not hused⟩
  next ts' =>
    obtain ⟨⟨inner, ts''⟩, hinner, hread⟩ := bind_eq_ok.1 h
    obtain ⟨used, rfl, hused⟩ := hexpression _ _ _ hinner
    dsimp only at hread
    split at hread
    next =>
      cases hread
      exact ⟨.openParen :: (used ++ [.closeParen]), by simp, .parens hused⟩
    next => cases hread
  next => cases h

/-- The reader takes expressions and operands of the grammar. -/
theorem takes_grammar (bound : Nat) : Takes (expression bound) IsExpression ∧
    (∀ connective? operands,
      Takes (moreOperands bound connective? operands) (Follows connective? operands)) ∧
    Takes (operand bound) IsOperand := by
  induction bound with
  | zero => exact ⟨nofun, nofun, nofun⟩
  | succ bound ih =>
    obtain ⟨hexpression, hmore, hoperand⟩ := ih
    exact ⟨takes_expression hoperand hmore, takes_moreOperands hoperand hmore,
      takes_operand hoperand hexpression⟩

theorem isExpression_of_ofTokens {ts : List Token} {e : ProfileExpression}
    (h : ofTokens ts = .ok e) : IsExpression ts e := by
  unfold ofTokens at h
  split at h
  next => cases h
  next =>
    obtain ⟨⟨e', rest⟩, hread, hresult⟩ := bind_eq_ok.1 h
    obtain ⟨used, rfl, hused⟩ := (takes_grammar _).1 _ _ _ hread
    cases rest with
    | nil =>
      cases hresult
      rwa [List.append_nil]
    | cons => cases hresult

end Soundness

/-! ## All that the grammar allows -/

section Completeness

theorem IsOperand.length_pos {ts : List Token} {e : ProfileExpression} (h : IsOperand ts e) :
    0 < ts.length := by
  cases h <;> exact Nat.succ_pos _

theorem IsExpression.length_pos {ts : List Token} {e : ProfileExpression}
    (h : IsExpression ts e) : 0 < ts.length := by
  cases h with
  | single h => exact h.length_pos
  | joined _ first _ => exact List.length_append ▸ Nat.add_pos_left first.length_pos _

/-- No connective is in front. -/
def Stops (rest : List Token) : Prop := ∀ t ∈ rest.head?, Connective.ofToken? t = none

theorem stops_nil : Stops [] := fun t ht => by cases ht

theorem stops_closeParen (rest : List Token) : Stops (.closeParen :: rest) := fun t ht => by
  cases ht
  rfl

theorem moreOperands_of_stops {bound : Nat} (hb : 0 < bound) {rest : List Token} (h : Stops rest)
    (connective? : Option Connective) (operands : List ProfileExpression) :
    moreOperands bound connective? operands rest =
      .ok (Connective.combine connective? operands, rest) := by
  obtain ⟨b, rfl⟩ := Nat.exists_eq_add_one.2 hb
  cases rest with
  | nil => rfl
  | cons t rest => rw [moreOperands, h t rfl]

theorem moreOperands_token {bound : Nat} {ts : List Token} {connective? : Option Connective}
    {c : Connective} (hc : ∀ c' ∈ connective?, c' = c) (operands : List ProfileExpression) :
    moreOperands (bound + 1) connective? operands (c.token :: ts) = (do
      let (next, rest) ← operand bound ts
      moreOperands bound (some c) (operands ++ [next]) rest) := by
  rw [moreOperands, Connective.ofToken?_token]
  refine if_neg fun h => ?_
  obtain ⟨c', hc', hne⟩ := (Option.any_eq_true _ _).1 h
  exact bne_iff_ne.1 hne (hc c' hc')

mutual

theorem expression_of_isExpression {ts : List Token} {e : ProfileExpression}
    (h : IsExpression ts e) {bound : Nat} (hb : 2 * ts.length < bound) {rest : List Token}
    (hrest : Stops rest) : expression bound (ts ++ rest) = .ok (e, rest) := by
  obtain ⟨b, rfl⟩ : ∃ b, bound = b + 1 := ⟨bound - 1, by omega⟩
  match h with
  | .single h =>
    -- the operand has a token, so two steps of the bound are left to see what follows
    have hpos := h.length_pos
    rw [expression, operand_of_isOperand h (by omega)]
    exact moreOperands_of_stops (by omega) hrest none [e]
  | @IsExpression.joined ts us e es c first more =>
    have hpos := first.length_pos
    rw [List.length_append] at hb
    rw [expression, List.append_assoc, operand_of_isOperand first (by omega)]
    exact moreOperands_of_areJoined more (Nat.lt_of_succ_lt_succ (by omega)) hrest
      (fun _ hc => by cases hc) [e]

theorem moreOperands_of_areJoined {c : Connective} {ts : List Token} {es : List ProfileExpression}
    (h : AreJoined c ts es) {bound : Nat} (hb : 2 * ts.length < bound) {rest : List Token}
    (hrest : Stops rest) {connective? : Option Connective} (hc : ∀ c' ∈ connective?, c' = c)
    (operands : List ProfileExpression) :
    moreOperands bound connective? operands (ts ++ rest) = .ok (c.join (operands ++ es), rest) := by
  obtain ⟨b, rfl⟩ : ∃ b, bound = b + 1 := ⟨bound - 1, by omega⟩
  match h with
  | @AreJoined.one _ ts e h =>
    rw [List.length_cons] at hb
    rw [List.cons_append, moreOperands_token hc, operand_of_isOperand h (by omega)]
    exact (moreOperands_of_stops (by omega) hrest _ _).trans (by rw [Connective.combine_some])
  | @AreJoined.more _ ts us e es first more =>
    rw [List.length_cons, List.length_append] at hb
    rw [List.cons_append, List.append_assoc, moreOperands_token hc,
      operand_of_isOperand first (by omega)]
    have hmore := @moreOperands_of_areJoined c us es more b (by omega) rest hrest (some c)
      (fun c' hc' => by cases hc'; rfl) (operands ++ [e])
    rwa [List.append_assoc] at hmore

theorem operand_of_isOperand {ts : List Token} {e : ProfileExpression} (h : IsOperand ts e)
    {bound : Nat} (hb : 2 * ts.length ≤ bound) {rest : List Token} :
    operand bound (ts ++ rest) = .ok (e, rest) := by
  have hpos := h.length_pos
  obtain ⟨b, rfl⟩ : ∃ b, bound = b + 1 := ⟨bound - 1, by omega⟩
  match h with
  | .name n => rfl
  | @IsOperand.not ts e h =>
    rw [List.length_cons] at hb
    rw [List.cons_append, operand, operand_of_isOperand h (by omega)]
    rfl
  | @IsOperand.parens ts e h =>
    rw [List.length_cons, List.length_append, List.length_singleton] at hb
    have hinner := @expression_of_isExpression ts e h b (by omega) _ (stops_closeParen rest)
    rw [List.cons_append, List.append_assoc, operand, List.singleton_append, hinner]
    rfl

end

/-- The reader accepts the tokens of the expressions of the grammar, and no others. -/
theorem ofTokens_eq_ok_iff {ts : List Token} {e : ProfileExpression} :
    ofTokens ts = .ok e ↔ IsExpression ts e := by
  refine ⟨isExpression_of_ofTokens, fun h => ?_⟩
  have hread := expression_of_isExpression h (Nat.lt_add_of_pos_right Nat.two_pos) stops_nil
  have hne : ts.isEmpty = false := List.isEmpty_eq_false_iff.2 (List.length_pos_iff.1 h.length_pos)
  rw [List.append_nil] at hread
  rw [ofTokens, hne, hread]
  rfl

theorem IsExpression.unique {ts : List Token} {e e' : ProfileExpression} (h : IsExpression ts e)
    (h' : IsExpression ts e') : e = e' :=
  Except.ok.inj ((ofTokens_eq_ok_iff.2 h).symm.trans (ofTokens_eq_ok_iff.2 h'))

end Completeness

/-! ## Expressions as texts -/

/-- Put parentheses around the tokens of an expression that is joined itself. -/
def grouped : ProfileExpression → List Token → List Token
  | .and _, ts | .or _, ts => .openParen :: (ts ++ [.closeParen])
  | .name _, ts | .not _, ts => ts

mutual

/-- The tokens to write an expression with. -/
def written : ProfileExpression → List Token
  | .name n => [.name n]
  | .not e => .not :: grouped e (written e)
  | .and es => writtenJoined .and es
  | .or es => writtenJoined .or es

/-- The tokens to write operands with that are joined by a connective. -/
def writtenJoined (c : Connective) : List ProfileExpression → List Token
  | [] => []
  | e :: es => grouped e (written e) ++ writtenMore c es

/-- The tokens to write operands with that each have the connective in front. -/
def writtenMore (c : Connective) : List ProfileExpression → List Token
  | [] => []
  | e :: es => c.token :: (grouped e (written e) ++ writtenMore c es)

end

/-- A text that is a name to the reader. -/
structure IsName (n : String) : Prop where
  ne_nil : n.toList ≠ []
  trimmed : Text.trim n.toList = n.toList
  plain : ∀ c ∈ n.toList, Token.ofChar? c = none

/-- An expression that can be written: its names are names to the reader, and connectives join
several operands. -/
inductive IsProper : ProfileExpression → Prop
  | name {n : String} (hn : IsName n) : IsProper (.name n)
  | not {e : ProfileExpression} (he : IsProper e) : IsProper (.not e)
  | and {es : List ProfileExpression} (several : 2 ≤ es.length) (hes : ∀ e ∈ es, IsProper e) :
    IsProper (.and es)
  | or {es : List ProfileExpression} (several : 2 ≤ es.length) (hes : ∀ e ∈ es, IsProper e) :
    IsProper (.or es)

theorem areJoined_writtenMore (c : Connective) {es : List ProfileExpression} (hne : es ≠ [])
    (h : ∀ e ∈ es, IsOperand (grouped e (written e)) e) : AreJoined c (writtenMore c es) es := by
  induction es with
  | nil => exact absurd rfl hne
  | cons e es ih =>
    rw [List.forall_mem_cons] at h
    rw [writtenMore]
    cases es with
    | nil =>
      rw [writtenMore, List.append_nil]
      exact .one h.1
    | cons e' es => exact .more h.1 (ih (List.cons_ne_nil _ _) h.2)

theorem isExpression_writtenJoined (c : Connective) {es : List ProfileExpression}
    (several : 2 ≤ es.length) (h : ∀ e ∈ es, IsOperand (grouped e (written e)) e) :
    IsExpression (writtenJoined c es) (c.join es) := by
  obtain ⟨e, es, rfl⟩ := List.exists_cons_of_length_pos (Nat.lt_of_lt_of_le Nat.two_pos several)
  have hne : es ≠ [] := by
    rintro rfl
    exact Nat.not_succ_le_self 1 several
  rw [List.forall_mem_cons] at h
  exact .joined c h.1 (areJoined_writtenMore c hne h.2)

theorem isExpression_written {e : ProfileExpression} (h : IsProper e) :
    IsExpression (written e) e ∧ IsOperand (grouped e (written e)) e := by
  induction h with
  | @name n _ => exact ⟨.single (.name n), .name n⟩
  | not _ ih => exact ⟨.single (.not ih.2), .not ih.2⟩
  | and several _ ih =>
    have hes := isExpression_writtenJoined .and several fun e he => (ih e he).2
    exact ⟨hes, .parens hes⟩
  | or several _ ih =>
    have hes := isExpression_writtenJoined .or several fun e he => (ih e he).2
    exact ⟨hes, .parens hes⟩

/-! ## Blanks -/

namespace Token

/-- The characters of a token. -/
def chars : Token → List Char
  | name n => n.toList
  | not => ['!']
  | and => ['&']
  | or => ['|']
  | openParen => ['(']
  | closeParen => [')']

/-- Is the token a name? -/
def isName : Token → Bool
  | name _ => true
  | _ => false

end Token

/-- Tokens that can be told apart: names are names to the reader, and no two of them stand side by
side. -/
inductive Readable : List Token → Prop
  | nil : Readable []
  | operator {t : Token} {ts : List Token} (ht : t.isName = false) (h : Readable ts) :
    Readable (t :: ts)
  | name {n : String} {ts : List Token} (hn : IsName n) (hts : ∀ t ∈ ts.head?, t.isName = false)
    (h : Readable ts) : Readable (.name n :: ts)

/-- A text of tokens with any blanks around them. -/
inductive Spells : List Char → List Token → Prop
  | nil {gap : List Char} (blank : ∀ c ∈ gap, Text.isBlank c = true) : Spells gap []
  | cons {gap s : List Char} {t : Token} {ts : List Token}
    (blank : ∀ c ∈ gap, Text.isBlank c = true) (rest : Spells s ts) :
    Spells (gap ++ t.chars ++ s) (t :: ts)

namespace Readable

theorem append {ts us : List Token} (h : Readable ts) (hus : Readable us)
    (hhead : ∀ t ∈ us.head?, t.isName = false) : Readable (ts ++ us) := by
  induction h with
  | nil => exact hus
  | operator ht _ ih => exact .operator ht ih
  | @name n ts hn hts _ ih =>
    refine .name hn (fun t ht => ?_) ih
    cases ts with
    | nil => exact hhead t ht
    | cons => exact hts t ht

theorem grouped {e : ProfileExpression} {ts : List Token} (h : Readable ts) :
    Readable (grouped e ts) := by
  have hparens : Readable (.openParen :: (ts ++ [.closeParen])) :=
    .operator rfl (h.append (.operator rfl .nil) fun t ht => by cases ht; rfl)
  cases e with
  | name => exact h
  | not => exact h
  | and => exact hparens
  | or => exact hparens

end Readable

theorem Connective.isName_token (c : Connective) : c.token.isName = false := by
  cases c <;> rfl

theorem isName_of_mem_head?_writtenMore (c : Connective) (es : List ProfileExpression) :
    ∀ t ∈ (writtenMore c es).head?, t.isName = false := by
  intro t ht
  cases es with
  | nil => cases ht
  | cons e es =>
    cases ht
    exact c.isName_token

theorem readable_writtenMore (c : Connective) {es : List ProfileExpression}
    (h : ∀ e ∈ es, Readable (written e)) : Readable (writtenMore c es) := by
  induction es with
  | nil => exact .nil
  | cons e es ih =>
    rw [List.forall_mem_cons] at h
    exact .operator c.isName_token
      (h.1.grouped.append (ih h.2) (isName_of_mem_head?_writtenMore c es))

theorem readable_writtenJoined (c : Connective) {es : List ProfileExpression}
    (h : ∀ e ∈ es, Readable (written e)) : Readable (writtenJoined c es) := by
  cases es with
  | nil => exact .nil
  | cons e es =>
    rw [List.forall_mem_cons] at h
    exact h.1.grouped.append (readable_writtenMore c h.2) (isName_of_mem_head?_writtenMore c es)

theorem readable_written {e : ProfileExpression} (h : IsProper e) : Readable (written e) := by
  induction h with
  | name hn => exact .name hn (fun t ht => by cases ht) .nil
  | not _ ih => exact .operator rfl ih.grouped
  | and _ _ ih => exact readable_writtenJoined .and ih
  | or _ _ ih => exact readable_writtenJoined .or ih

namespace Token

theorem chars_of_isName {t : Token} (h : t.isName = false) :
    ∃ c, t.chars = [c] ∧ ofChar? c = some t := by
  cases t with
  | name => cases h
  | _ => exact ⟨_, rfl, rfl⟩

theorem ofChar?_of_isBlank {c : Char} (h : Text.isBlank c = true) : ofChar? c = none := by
  unfold ofChar?
  split
  all_goals first | rfl | exact absurd h (by decide)

theorem ofGap_append_blank (gap : List Char) {blanks : List Char}
    (h : ∀ c ∈ blanks, Text.isBlank c = true) : ofGap (gap ++ blanks) = ofGap gap := by
  unfold ofGap
  rw [Text.trim_append_blank gap h]

theorem ofGap_blank {gap : List Char} (h : ∀ c ∈ gap, Text.isBlank c = true) : ofGap gap = [] :=
  ofGap_append_blank [] h

theorem ofGap_name {n : String} (hn : IsName n) {gap : List Char}
    (h : ∀ c ∈ gap, Text.isBlank c = true) : ofGap (gap ++ n.toList) = [name n] := by
  unfold ofGap
  rw [Text.trim_blank_append h, hn.trimmed]
  split
  next hnil => exact absurd hnil hn.ne_nil
  next => rw [String.ofList_toList]

end Token

/-- The reader tells the tokens of a text apart; `gap` is what it has read since the last
operator. -/
theorem scan_of_spells {s : List Char} {ts : List Token} (hs : Spells s ts) (hts : Readable ts)
    (gap : List Char)
    (hgap : (∀ c ∈ gap, Text.isBlank c = true) ∨ ∀ t ∈ ts.head?, t.isName = false) :
    Token.scan gap.reverse s = Token.ofGap gap ++ ts := by
  induction hs generalizing gap with
  | @nil blanks blank =>
    have hscan := Token.scan_append (fun c hc => Token.ofChar?_of_isBlank (blank c hc))
      gap.reverse []
    rw [List.append_nil, Token.scan, List.reverse_append, List.reverse_reverse,
      List.reverse_reverse, Token.ofGap_append_blank gap blank] at hscan
    rw [hscan, List.append_nil]
  | @cons blanks s t ts blank rest ih =>
    rw [List.append_assoc,
      Token.scan_append fun c hc => Token.ofChar?_of_isBlank (blank c hc), ← List.reverse_append]
    cases hts with
    | operator ht hts =>
      obtain ⟨c, hchars, hc⟩ := Token.chars_of_isName ht
      have hrest := ih hts [] (.inl (List.forall_mem_nil _))
      rw [hchars, List.singleton_append, Token.scan_operator hc, List.reverse_reverse,
        Token.ofGap_append_blank gap blank]
      exact congrArg (fun ts => Token.ofGap gap ++ t :: ts) hrest
    | @name n _ hn hhead hts =>
      -- nothing but blanks was read before the name, and no name follows it
      have hblank : ∀ c ∈ gap, Text.isBlank c = true := by
        rcases hgap with hgap | hgap
        · exact hgap
        · exact absurd (hgap _ rfl) (Bool.noConfusion)
      have hblanks : ∀ c ∈ gap ++ blanks, Text.isBlank c = true := fun c hc =>
        (List.mem_append.1 hc).elim (hblank c) (blank c)
      have hrest := ih hts (gap ++ blanks ++ n.toList) (.inr hhead)
      rw [Token.chars, Token.scan_append hn.plain, ← List.reverse_append, hrest,
        Token.ofGap_name hn hblanks, Token.ofGap_blank hblank]
      rfl

theorem tokens_of_spells {text : String} {ts : List Token} (hs : Spells text.toList ts)
    (hts : Readable ts) : tokens text = ts :=
  scan_of_spells hs hts [] (.inl (List.forall_mem_nil _))

/-! ## Reading and writing -/

theorem parse_eq_ok_iff {text : String} {e : ProfileExpression} :
    parse text = .ok e ↔ ofTokens (tokens text) = .ok e := by
  unfold parse
  cases ofTokens (tokens text) with
  | ok e' => exact ⟨fun h => by cases h; rfl, fun h => by cases h; rfl⟩
  | error fault => exact ⟨nofun, nofun⟩

/-- Reading gives the expression whose tokens the text has, and there is one at most; every other
text is refused with a reason. A proper expression is read back from every text that it is written
with, whatever blanks there are between the tokens. -/
theorem parse_grammar (text : String) (e : ProfileExpression) :
    (parse text = .ok e ↔ ∃ ts, Lexed text.toList ts ∧ IsExpression ts e) ∧
    (∀ ts e', IsExpression ts e → IsExpression ts e' → e = e') ∧
    ((∃ e', parse text = .ok e') ∨
      ∃ fault : Fault, parse text = .error (.profileExpression text fault.message)) ∧
    (IsProper e → Spells text.toList (written e) → parse text = .ok e) := by
  refine ⟨?_, fun ts e' h h' => h.unique h', ?_, fun he hs => ?_⟩
  · rw [parse_eq_ok_iff, ofTokens_eq_ok_iff]
    constructor
    · exact fun h => ⟨_, lexed_iff.2 rfl, h⟩
    · rintro ⟨ts, hts, h⟩
      exact lexed_iff.1 hts ▸ h
  · unfold parse
    cases ofTokens (tokens text) with
    | ok e' => exact .inl ⟨e', rfl⟩
    | error fault => exact .inr ⟨fault, rfl⟩
  · rw [parse_eq_ok_iff, ofTokens_eq_ok_iff, tokens_of_spells hs (readable_written he)]
    exact (isExpression_written he).1

/-- Operands in parentheses, and blanks where they are allowed. -/
theorem parse_grammar_blanks :
    let e : ProfileExpression := .and [.not (.or [.name "a b", .name "c"]), .name "d"]
    IsProper e ∧ parse "! (a b|c )&\td" = .ok e := by
  have hname {n : String} (h : n.toList ≠ [] ∧ Text.trim n.toList = n.toList)
      (plain : n.toList.all (fun c => (Token.ofChar? c).isNone) = true) : IsProper (.name n) :=
    .name ⟨h.1, h.2, fun c hc => Option.isNone_iff_eq_none.1 (List.all_eq_true.1 plain c hc)⟩
  have hproper : IsProper (.and [.not (.or [.name "a b", .name "c"]), .name "d"]) := by
    refine .and (by decide) (List.forall_mem_cons.2 ⟨.not (.or (by decide) ?_), ?_⟩)
    · have hc : ∀ e ∈ [.name "c"], IsProper e :=
        List.forall_mem_singleton.2 (hname (by decide) (by decide))
      exact List.forall_mem_cons.2 ⟨hname (by decide) (by decide), hc⟩
    · exact List.forall_mem_singleton.2 (hname (by decide) (by decide))
  refine ⟨hproper, (parse_grammar _ _).2.2.2 hproper ?_⟩
  have hcons (gap : List Char) (t : Token) {s : List Char} {ts : List Token} (rest : Spells s ts)
      (blank : gap.all Text.isBlank = true) : Spells (gap ++ t.chars ++ s) (t :: ts) :=
    .cons (List.all_eq_true.1 blank) rest
  have hd := hcons ['\t'] (.name "d") (.nil (List.forall_mem_nil _)) (by decide)
  have hparen := hcons [' '] .closeParen (hcons [] .and hd (by decide)) (by decide)
  have hc := hcons [] (.name "c") hparen (by decide)
  have hab := hcons [] (.name "a b") (hcons [] .or hc (by decide)) (by decide)
  exact hcons [] .not (hcons [' '] .openParen hab (by decide)) (by decide)

end Wiring.ProfileExpression
