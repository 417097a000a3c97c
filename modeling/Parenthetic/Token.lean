import Parenthetic.Position
import Parenthetic.Operator

set_option autoImplicit false

/-! # Tokens

The words of the language: numbers, names, the seven operator characters, ten punctuation
marks and the line feed. A lexeme is a token together with the position the scanner gives it.
`Token.describe` is the text by which error explanations name a token.
-/

namespace Parenthetic

/-- A punctuation mark: a bracket, a brace, one of `? : = ,`, or a line feed. -/
inductive Punct where
  /-- `(` -/
  | lparen
  /-- `)` -/
  | rparen
  /-- `[` -/
  | lbracket
  /-- `]` -/
  | rbracket
  /-- The opening brace. -/
  | lbrace
  /-- The closing brace. -/
  | rbrace
  /-- `?` -/
  | question
  /-- `:` -/
  | colon
  /-- `=` -/
  | equals
  /-- `,` -/
  | comma
  /-- A line feed, which ends a function definition. -/
  | newline
deriving DecidableEq, Repr, Inhabited

namespace Punct

/-- The character that writes the mark. -/
def symbol : Punct → Char
  | lparen => '('
  | rparen => ')'
  | lbracket => '['
  | rbracket => ']'
  | lbrace => '\x7b'
  | rbrace => '\x7d'
  | question => '?'
  | colon => ':'
  | equals => '='
  | comma => ','
  | newline => '\n'

/-- The mark written by a character, if the character writes one. -/
def ofChar? : Char → Option Punct
  | '(' => some lparen
  | ')' => some rparen
  | '[' => some lbracket
  | ']' => some rbracket
  | '\x7b' => some lbrace
  | '\x7d' => some rbrace
  | '?' => some question
  | ':' => some colon
  | '=' => some equals
  | ',' => some comma
  | '\n' => some newline
  | _ => none

/-- Reading the symbol of a mark gives the mark back. -/
@[simp] theorem ofChar?_symbol (p : Punct) : ofChar? p.symbol = some p := by
  cases p <;> rfl

end Punct

/-- A token of the language. -/
inductive Token where
  /-- A decimal literal; its value is at most `2^63 - 1`. -/
  | number (value : Int64)
  /-- A name: a run of ASCII letters and underscores. -/
  | name (text : String)
  /-- An operator character. -/
  | op (o : Operator)
  /-- A punctuation mark or a line feed. -/
  | punct (p : Punct)
deriving DecidableEq, Repr, Inhabited

/-- A character between two apostrophes. -/
def quoteChar (c : Char) : String := "'" ++ c.toString ++ "'"

/-- How error explanations name a token: `number 12`, `identifier 'ab'`, `'+'`, `end of line`. -/
def Token.describe : Token → String
  | .number v => "number " ++ toString v.toInt
  | .name s => "identifier '" ++ s ++ "'"
  | .op o => quoteChar o.symbol
  | .punct .newline => "end of line"
  | .punct p => quoteChar p.symbol

example : (Token.punct .lbrace).describe = "'\x7b'" := by decide
example : (Token.name "ab").describe = "identifier 'ab'" := by decide

/-- A token at the position the scanner gave it. -/
structure Lexeme where
  /-- The token. -/
  token : Token
  /-- Where the scanner placed it. -/
  pos : Position
deriving DecidableEq, Repr, Inhabited

end Parenthetic
