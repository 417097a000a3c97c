import Parenthetic.Token

set_option autoImplicit false

/-! # Syntax errors

Why a source text is not a program: a token other than the grammar requires, an early end, a
unary operator other than `-`, a token that starts no expression, tokens after the expression,
or a literal too large for 64 bits. Each error keeps the token and the position it is about;
`SyntaxError.explain` writes the one-line explanation.
-/

namespace Parenthetic

/-- What the grammar required where it found something else. -/
inductive Expectation where
  /-- A particular punctuation mark. -/
  | punct (p : Punct)
  /-- One of the seven operators, between the operands of a binary expression. -/
  | operator
  /-- A name: a function name or a parameter. -/
  | identifier
  /-- The `-` of a negation. -/
  | minus
  /-- A number, a name or a call after a unary `-`. -/
  | negationOperand
  /-- The line feed that closes a function definition. -/
  | definitionEnd
deriving DecidableEq, Repr, Inhabited

/-- How an explanation names what was required. -/
def Expectation.describe : Expectation → String
  | .punct p => quoteChar p.symbol
  | .operator => "an operator"
  | .identifier => "an identifier"
  | .minus => "'-'"
  | .negationOperand => "a number or an identifier after '-'"
  | .definitionEnd => "end of line after function definition"

/-- Why a source text is not a program. -/
inductive SyntaxError where
  /-- `found` stands where the grammar requires `expected`. -/
  | unexpectedToken (expected : Expectation) (found : Token) (pos : Position)
  /-- The tokens ran out; `after` is the position of the last token, if there is one. -/
  | unexpectedEnd (after : Option Position)
  /-- An operator other than `-` stands in front of an operand. -/
  | unsupportedUnary (o : Operator) (pos : Position)
  /-- No expression starts with `found`. -/
  | nothingParsed (found : Token) (pos : Position)
  /-- Something other than line feeds follows the program's expression. -/
  | trailingTokens (found : Token) (pos : Position)
  /-- A digit run whose value exceeds `2^63 - 1`, as written, and the position after it. -/
  | literalTooLarge (digits : String) (pos : Position)
deriving DecidableEq, Repr, Inhabited

namespace SyntaxError

/-- The position the error is about, when there is one. -/
def pos? : SyntaxError → Option Position
  | unexpectedToken _ _ p | unsupportedUnary _ p | nothingParsed _ p | trailingTokens _ p
  | literalTooLarge _ p => some p
  | unexpectedEnd p => p

/-- The one-line explanation of the error. -/
def explain : SyntaxError → String
  | unexpectedToken e t p =>
    "Error at " ++ p.render ++ ": Expected " ++ e.describe ++ ", found " ++ t.describe ++ "."
  | unexpectedEnd (some p) => "Error after " ++ p.render ++ ": Unexpected end of input."
  | unexpectedEnd none => "Error: Empty input."
  | unsupportedUnary o p =>
    "Error at " ++ p.render ++ ": Unsupported unary operation " ++ quoteChar o.symbol ++ "."
  | nothingParsed t p => "Error at " ++ p.render ++ ": No expression starts with " ++ t.describe ++ "."
  | trailingTokens t p =>
    "Error at " ++ p.render ++ ": Extra tokens after expression, starting with " ++ t.describe ++ "."
  | literalTooLarge d p => "Error at " ++ p.render ++ ": Literal " ++ d ++ " is too large."

end SyntaxError

end Parenthetic
