import Parenthetic.Expr
import Parenthetic.SyntaxError

set_option autoImplicit false

/-! # Parsing expressions

A recursive-descent parser over lexemes, one token of lookahead. Each parser takes the lexemes
before it and returns its value with the lexemes after it, which are strictly fewer
(`Shorter`): that is what makes the mutual recursion terminate, by the number of lexemes and,
where a parser hands the same lexemes to another, by its rank.

The grammar:

* `expr  ::= NUMBER | ( expr OP expr ) | [ expr ] ? { expr } : { expr } | - operand | named`
* `operand ::= NUMBER | named`
* `named ::= NAME | NAME ( args )`, where a name must be followed by some lexeme
* `args  ::= (expr ,?)* )`: each argument may be followed by one comma

`expr` looks at the first lexeme and hands the whole input to the parser of the construct it
starts: `binary`, `conditional` or `negation`, which takes that lexeme again and so requires
it. Every parser that runs out of lexemes fails with `unexpectedEnd last`, where `last` is the
position of the last lexeme of the whole input.
-/

namespace Parenthetic

/-- The lexemes left after a parse that consumed at least one of `ls`. -/
abbrev Shorter (ls : List Lexeme) := {r : List Lexeme // r.length < ls.length}

namespace Parse

/-- The lexemes after the first one. -/
def tail (l : Lexeme) (ls : List Lexeme) : Shorter (l :: ls) := ⟨ls, by simp⟩

/-- Takes the punctuation mark `p`; `what` names it in the error when another token stands
there. -/
def expect (last : Option Position) (p : Punct) (what : Expectation) :
    (ls : List Lexeme) → Except SyntaxError (Shorter ls)
  | [] => .error (.unexpectedEnd last)
  | l :: ls =>
    if l.token = .punct p then .ok (tail l ls) else .error (.unexpectedToken what l.token l.pos)

/-- Takes a name and its position. -/
def identifier (last : Option Position) :
    (ls : List Lexeme) → Except SyntaxError ((String × Position) × Shorter ls)
  | [] => .error (.unexpectedEnd last)
  | l :: ls =>
    match l.token with
    | .name x => .ok ((x, l.pos), tail l ls)
    | t => .error (.unexpectedToken .identifier t l.pos)

/-- The lexemes after an optional comma, when some lexeme follows. -/
def skipComma (last : Option Position) :
    (ls : List Lexeme) → Except SyntaxError {r : List Lexeme // r.length ≤ ls.length}
  | [] => .error (.unexpectedEnd last)
  | l :: ls =>
    if l.token = .punct .comma then .ok ⟨ls, by simp⟩ else .ok ⟨l :: ls, Nat.le_refl _⟩

/-- Takes a parameter list up to and including its `)`; each name may be followed by one
comma. -/
def params (last : Option Position) :
    (ls : List Lexeme) → Except SyntaxError (List String × Shorter ls)
  | [] => .error (.unexpectedEnd last)
  | l :: ls =>
    if l.token = .punct .rparen then .ok ([], tail l ls) else do
    let ((x, _), ⟨r₁, h₁⟩) ← identifier last (l :: ls)
    let ⟨r₂, h₂⟩ ← skipComma last r₁
    let (xs, ⟨r₃, h₃⟩) ← params last r₂
    pure (x :: xs, ⟨r₃, by omega⟩)
termination_by ls => ls.length
decreasing_by omega

mutual

/-- Parses one expression. Its first lexeme decides what it is: `(` a binary expression, a
number a constant, `[` a conditional, an operator a negation, a name a reference or a call. -/
def expr (last : Option Position) : (ls : List Lexeme) → Except SyntaxError (Expr × Shorter ls)
  | [] => .error (.unexpectedEnd last)
  | l :: ls =>
    match l.token with
    | .number v => .ok (.const v l.pos, tail l ls)
    | .name x => do
      let (e, ⟨r, h⟩) ← named last x l.pos ls
      pure (e, ⟨r, by simp only [List.length_cons]; omega⟩)
    | .op _ => negation last (l :: ls)
    | .punct p =>
      match p with
      | .lparen => binary last (l :: ls)
      | .lbracket => conditional last (l :: ls)
      | _ => .error (.nothingParsed (.punct p) l.pos)
termination_by ls => 3 * ls.length + 1
decreasing_by all_goals simp only [List.length_cons] at *; omega

/-- `( expr OP expr )`. -/
def binary (last : Option Position) (ls : List Lexeme) : Except SyntaxError (Expr × Shorter ls) := do
  let ⟨r₀, h₀⟩ ← expect last .lparen (.punct .lparen) ls
  let (left, ⟨r₁, h₁⟩) ← expr last r₀
  match r₁, h₁ with
  | [], _ => .error (.unexpectedEnd last)
  | m :: r₂, h₁ =>
    match m.token with
    | .op o => do
      let (right, ⟨r₃, h₃⟩) ← expr last r₂
      let ⟨r₄, h₄⟩ ← expect last .rparen (.punct .rparen) r₃
      pure (.binary o left right, ⟨r₄, by simp only [List.length_cons] at *; omega⟩)
    | t => .error (.unexpectedToken .operator t m.pos)
termination_by 3 * ls.length
decreasing_by
  · omega
  · simp only [List.length_cons] at *; omega

/-- `[ expr ] ? { expr } : { expr }`. -/
def conditional (last : Option Position) (ls : List Lexeme) :
    Except SyntaxError (Expr × Shorter ls) := do
  let ⟨r₀, h₀⟩ ← expect last .lbracket (.punct .lbracket) ls
  let (c, ⟨r₁, h₁⟩) ← expr last r₀
  let ⟨r₂, h₂⟩ ← expect last .rbracket (.punct .rbracket) r₁
  let ⟨r₃, h₃⟩ ← expect last .question (.punct .question) r₂
  let (a, ⟨r₄, h₄⟩) ← braced last r₃
  let ⟨r₅, h₅⟩ ← expect last .colon (.punct .colon) r₄
  let (b, ⟨r₆, h₆⟩) ← braced last r₅
  pure (.cond c a b, ⟨r₆, by omega⟩)
termination_by 3 * ls.length
decreasing_by all_goals omega

/-- `- NUMBER` or `- named`: the only unary operator is `-`. -/
def negation (last : Option Position) : (ls : List Lexeme) → Except SyntaxError (Expr × Shorter ls)
  | [] => .error (.unexpectedEnd last)
  | l :: ls =>
    match l.token with
    | .op o =>
      if o = .sub then
        match ls with
        | [] => .error (.unexpectedEnd last)
        | m :: ms =>
          match m.token with
          | .number v =>
            .ok (.neg (.const v m.pos) l.pos, ⟨ms, by simp only [List.length_cons]; omega⟩)
          | .name x => do
            let (e, ⟨r, h⟩) ← named last x m.pos ms
            pure (.neg e l.pos, ⟨r, by simp only [List.length_cons]; omega⟩)
          | t => .error (.unexpectedToken .negationOperand t m.pos)
      else .error (.unsupportedUnary o l.pos)
    | t => .error (.unexpectedToken .minus t l.pos)
termination_by ls => 3 * ls.length
decreasing_by simp only [List.length_cons]; omega

/-- After a name at `pos`: a call when `(` follows, else a reference. Some lexeme must
follow. -/
def named (last : Option Position) (x : String) (pos : Position) :
    (ls : List Lexeme) → Except SyntaxError (Expr × {r : List Lexeme // r.length ≤ ls.length})
  | [] => .error (.unexpectedEnd last)
  | l :: ls =>
    if l.token = .punct .lparen then do
      let (as, ⟨r, h⟩) ← args last ls
      pure (.call x as pos, ⟨r, by simp only [List.length_cons]; omega⟩)
    else .ok (.var x pos, ⟨l :: ls, Nat.le_refl _⟩)
termination_by ls => 3 * ls.length + 2
decreasing_by simp only [List.length_cons]; omega

/-- `{ expr }`. -/
def braced (last : Option Position) (ls : List Lexeme) : Except SyntaxError (Expr × Shorter ls) := do
  let ⟨r₁, h₁⟩ ← expect last .lbrace (.punct .lbrace) ls
  let (e, ⟨r₂, h₂⟩) ← expr last r₁
  let ⟨r₃, h₃⟩ ← expect last .rbrace (.punct .rbrace) r₂
  pure (e, ⟨r₃, by omega⟩)
termination_by 3 * ls.length + 2
decreasing_by omega

/-- Call arguments up to and including the closing `)`; each may be followed by one comma. -/
def args (last : Option Position) : (ls : List Lexeme) → Except SyntaxError (List Expr × Shorter ls)
  | [] => .error (.unexpectedEnd last)
  | l :: ls =>
    if l.token = .punct .rparen then .ok ([], tail l ls) else do
    let (a, ⟨r₁, h₁⟩) ← expr last (l :: ls)
    let ⟨r₂, h₂⟩ ← skipComma last r₁
    let (as, ⟨r₃, h₃⟩) ← args last r₂
    pure (a :: as, ⟨r₃, by omega⟩)
termination_by ls => 3 * ls.length + 2
decreasing_by all_goals simp only [List.length_cons] at *; omega

end

end Parse

end Parenthetic
