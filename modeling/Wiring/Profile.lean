import Wiring.Error
import Wiring.Text.Blank

/-!
# Profile expressions

Conditions on the active profiles: names combined by `!`, `&`, `|` and parentheses. `&` and `|` do
not bind differently, so they may not stand side by side without parentheses.
-/

namespace Wiring

/-- A condition on the active profiles. -/
inductive ProfileExpression where
  | name (name : String)
  | not (operand : ProfileExpression)
  | and (operands : List ProfileExpression)
  | or (operands : List ProfileExpression)
deriving Repr, Inhabited

namespace ProfileExpression

mutual

/-- Does the condition hold, given which profiles are active? -/
def holds (isActive : String → Bool) : ProfileExpression → Bool
  | name n => isActive n
  | not operand => !holds isActive operand
  | and operands => allHold isActive operands
  | or operands => anyHolds isActive operands

/-- Do all of these conditions hold? -/
def allHold (isActive : String → Bool) : List ProfileExpression → Bool
  | [] => true
  | e :: rest => holds isActive e && allHold isActive rest

/-- Does one of these conditions hold? -/
def anyHolds (isActive : String → Bool) : List ProfileExpression → Bool
  | [] => false
  | e :: rest => holds isActive e || anyHolds isActive rest

end

theorem allHold_eq_all (isActive : String → Bool) (operands : List ProfileExpression) :
    allHold isActive operands = operands.all (holds isActive) := by
  induction operands with
  | nil => rfl
  | cons e rest ih => simp [allHold, ih]

theorem anyHolds_eq_any (isActive : String → Bool) (operands : List ProfileExpression) :
    anyHolds isActive operands = operands.any (holds isActive) := by
  induction operands with
  | nil => rfl
  | cons e rest ih => simp [anyHolds, ih]

/-- A token of a profile expression. -/
inductive Token where
  | name (name : String)
  | not
  | and
  | or
  | openParen
  | closeParen
deriving DecidableEq, Repr, Inhabited

namespace Token

/-- The operator that a character stands for. -/
def ofChar? : Char → Option Token
  | '!' => some not
  | '&' => some and
  | '|' => some or
  | '(' => some openParen
  | ')' => some closeParen
  | _ => none

/-- The name between two operators: trimmed, and none where nothing is left. -/
def ofGap (gap : List Char) : List Token :=
  match Text.trim gap with
  | [] => []
  | n => [name (String.ofList n)]

/-- The tokens of a text; `gap` holds the characters since the last operator, in reverse. -/
def scan (gap : List Char) : List Char → List Token
  | [] => ofGap gap.reverse
  | c :: s =>
    match ofChar? c with
    | some operator => ofGap gap.reverse ++ operator :: scan [] s
    | none => scan (c :: gap) s

end Token

/-- The tokens of a text. -/
def tokens (text : String) : List Token := Token.scan [] text.toList

/-- Why a text is not a profile expression. -/
inductive Fault where
  | empty
  | trailing
  | mixed
  | unbalanced
  | nameExpected
deriving DecidableEq, Repr

/-- The text of a fault. -/
def Fault.message : Fault → String
  | empty => "must contain text"
  | trailing => "unexpected trailing input"
  | mixed => "'&' and '|' must not be mixed without parentheses"
  | unbalanced => "unbalanced parentheses"
  | nameExpected => "expected a profile name"

/-- A connective between operands. -/
inductive Connective where
  | and
  | or
deriving DecidableEq, Repr

namespace Connective

/-- The connective that a token stands for. -/
def ofToken? : Token → Option Connective
  | .and => some and
  | .or => some or
  | _ => none

/-- Combine operands; a single operand without a connective stands for itself. -/
def combine : Option Connective → List ProfileExpression → ProfileExpression
  | some and, operands => .and operands
  | some or, operands => .or operands
  | none, [e] => e
  | none, operands => .and operands

end Connective

mutual

/-- Read an expression: operands joined by one connective. -/
def expression : Nat → List Token → Except Fault (ProfileExpression × List Token)
  | 0, _ => .error .nameExpected
  | bound + 1, tokens => do
    let (first, rest) ← operand bound tokens
    moreOperands bound none [first] rest

/-- Read the operands that follow, joined by the connective met first. -/
def moreOperands : Nat → Option Connective → List ProfileExpression → List Token →
    Except Fault (ProfileExpression × List Token)
  | 0, _, _, _ => .error .nameExpected
  | bound + 1, connective?, operands, tokens =>
    match tokens with
    | [] => .ok (Connective.combine connective? operands, [])
    | token :: rest =>
      match Connective.ofToken? token with
      | none => .ok (Connective.combine connective? operands, token :: rest)
      | some connective =>
        if connective?.any (· != connective) then .error .mixed
        else do
          let (next, rest) ← operand bound rest
          moreOperands bound (some connective) (operands ++ [next]) rest

/-- Read one operand: a name, a negation, or an expression in parentheses. -/
def operand : Nat → List Token → Except Fault (ProfileExpression × List Token)
  | 0, _ => .error .nameExpected
  | bound + 1, tokens =>
    match tokens with
    | .name n :: rest => .ok (.name n, rest)
    | .not :: rest => do
      let (e, rest) ← operand bound rest
      pure (.not e, rest)
    | .openParen :: rest => do
      let (e, rest) ← expression bound rest
      match rest with
      | .closeParen :: rest => pure (e, rest)
      | _ => throw .unbalanced
    | _ => .error .nameExpected

end

/-- Read an expression from its tokens. Each step of the reader uses up a token or is followed by
one that does, so twice the number of tokens bounds its depth. -/
def ofTokens (tokens : List Token) : Except Fault ProfileExpression :=
  if tokens.isEmpty then .error .empty
  else do
    let (e, rest) ← expression (2 * tokens.length + 2) tokens
    if rest.isEmpty then pure e else throw .trailing

/-- Read a profile expression. -/
def parse (text : String) : Except Error ProfileExpression :=
  match ofTokens (tokens text) with
  | .ok e => .ok e
  | .error fault => .error (.profileExpression text fault.message)

end ProfileExpression

end Wiring
