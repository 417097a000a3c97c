set_option autoImplicit false

/-! # Operators

The seven operator characters of the language. Each stands between the two operands of a
parenthesised binary expression; `-` also negates a number, a name or a call.
-/

namespace Parenthetic

/-- A binary operator of the language. -/
inductive Operator where
  /-- Addition, `+`. -/
  | add
  /-- Subtraction, `-`; also the only unary operator. -/
  | sub
  /-- Multiplication, `*`. -/
  | mul
  /-- Division truncated toward zero, `/`. -/
  | div
  /-- Remainder with the sign of the dividend, `%`. -/
  | rem
  /-- The comparison `<`, giving 1 or 0. -/
  | lt
  /-- The comparison `>`, giving 1 or 0. -/
  | gt
deriving DecidableEq, Repr, Inhabited

namespace Operator

/-- The character that writes the operator. -/
def symbol : Operator → Char
  | add => '+'
  | sub => '-'
  | mul => '*'
  | div => '/'
  | rem => '%'
  | lt => '<'
  | gt => '>'

/-- The operator written by a character, if the character writes one. -/
def ofChar? : Char → Option Operator
  | '+' => some add
  | '-' => some sub
  | '*' => some mul
  | '/' => some div
  | '%' => some rem
  | '<' => some lt
  | '>' => some gt
  | _ => none

/-- Reading the symbol of an operator gives the operator back. -/
@[simp] theorem ofChar?_symbol (o : Operator) : ofChar? o.symbol = some o := by
  cases o <;> rfl

/-- A character reads as an operator exactly when it is that operator's symbol. -/
theorem ofChar?_eq_some_iff {c : Char} {o : Operator} : ofChar? c = some o ↔ o.symbol = c := by
  constructor
  · intro h
    unfold ofChar? at h
    split at h <;> (try cases h) <;> rfl
  · rintro rfl
    exact ofChar?_symbol o

end Operator

end Parenthetic
