import Parenthetic.Program
import Parenthetic.Expr.Parse
import Parenthetic.Token.Scan

set_option autoImplicit false

/-! # Parsing programs

A program is a run of function definitions, one expression, and then nothing but line feeds:

* `program    ::= definition* expr NEWLINE*`
* `definition ::= NAME ( (NAME ,?)* ) = { expr } NEWLINE`

A definition is recognised before it is parsed, by looking ahead: a name, `(`, lexemes up to
the `)` that balances it, and then `=` (`startsDefinition`). Only when the look-ahead runs out
of lexemes inside the parentheses does it fail. A later definition of a name replaces an
earlier one.
-/

namespace Parenthetic

namespace Parse

/-- The lexemes after the `)` that closes a parenthesis opened `depth + 1` levels up, or `none`
when the lexemes end first. -/
def afterClose : Nat → List Lexeme → Option (List Lexeme)
  | _, [] => none
  | depth, l :: ls =>
    match l.token, depth with
    | .punct .lparen, _ => afterClose (depth + 1) ls
    | .punct .rparen, 0 => some ls
    | .punct .rparen, d + 1 => afterClose d ls
    | _, _ => afterClose depth ls

/-- Whether the lexemes start with a definition: a name, `(`, a balanced run up to the
matching `)`, and `=`. -/
def startsDefinition (last : Option Position) : List Lexeme → Except SyntaxError Bool
  | ⟨.name _, _⟩ :: ⟨.punct .lparen, _⟩ :: ls =>
    match afterClose 0 ls with
    | none => .error (.unexpectedEnd last)
    | some (⟨.punct .equals, _⟩ :: _) => .ok true
    | some _ => .ok false
  | _ => .ok false

/-- `NAME ( params ) = { expr } NEWLINE`. -/
def definition (last : Option Position) (ls : List Lexeme) :
    Except SyntaxError (Function × Shorter ls) := do
  let ((name, _), ⟨r₁, h₁⟩) ← identifier last ls
  let ⟨r₂, h₂⟩ ← expect last .lparen (.punct .lparen) r₁
  let (ps, ⟨r₃, h₃⟩) ← params last r₂
  let ⟨r₄, h₄⟩ ← expect last .equals (.punct .equals) r₃
  let (body, ⟨r₅, h₅⟩) ← braced last r₄
  let ⟨r₆, h₆⟩ ← expect last .newline .definitionEnd r₅
  pure (⟨name, ps, body⟩, ⟨r₆, by omega⟩)

/-- The definitions at the start of the lexemes, inserted into `t`, and the lexemes after
them. -/
def definitions (last : Option Position) (t : FunctionTable) (ls : List Lexeme) :
    Except SyntaxError (FunctionTable × List Lexeme) := do
  if ← startsDefinition last ls then
    let (f, r) ← definition last ls
    definitions last (t.insert f) r.val
  else pure (t, ls)
termination_by ls.length
decreasing_by exact r.2

/-- Succeeds when only line feeds are left; else names the first other lexeme. -/
def trailing : List Lexeme → Except SyntaxError Unit
  | [] => .ok ()
  | l :: ls => if l.token = .punct .newline then trailing ls else .error (.trailingTokens l.token l.pos)

end Parse

/-- The program the lexemes spell. -/
def Program.parse (ls : List Lexeme) : Except SyntaxError Program := do
  let last := ls.getLast?.map (·.pos)
  let (t, r₁) ← Parse.definitions last .empty ls
  let (e, ⟨r₂, _⟩) ← Parse.expr last r₁
  Parse.trailing r₂
  pure ⟨t, e⟩

/-- The program a source text spells. -/
def Program.ofSource (source : String) : Except SyntaxError Program := do
  Program.parse (← Lexeme.scan source)

end Parenthetic
