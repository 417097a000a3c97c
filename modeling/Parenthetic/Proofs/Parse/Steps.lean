import Parenthetic.Program.Parse

set_option autoImplicit false

/-! # One step of each parser

The parsers return the lexemes they leave as a subtype that records progress (`Shorter`), which
is what makes their mutual recursion terminate. Proofs about what a parser reads need only the
lexemes themselves, so `Parse.strip` forgets the progress proof, and this file states, for each
parser and each kind of lexeme in front, what one call does in terms of the calls it makes.

Later proofs cite these equations and never unfold a parser. Each equation is stated for the
stripped result; `length_of_strip_eq_ok` gives back the progress that the subtype recorded, for
inductions on the number of lexemes.
-/

namespace Parenthetic

namespace Parse

/-! ## Forgetting the progress proof -/

/-- A parse result with the lexemes left as a plain list. -/
def strip {α : Type} {P : List Lexeme → Prop} (x : Except SyntaxError (α × Subtype P)) :
    Except SyntaxError (α × List Lexeme) :=
  x.map fun p => (p.1, p.2.1)

/-- The lexemes left by a parser that returns nothing else. -/
def rest {P : List Lexeme → Prop} (x : Except SyntaxError (Subtype P)) :
    Except SyntaxError (List Lexeme) :=
  x.map Subtype.val

@[simp] theorem strip_error {α : Type} {P : List Lexeme → Prop} (e : SyntaxError) :
    strip (.error e : Except SyntaxError (α × Subtype P)) = .error e := rfl

@[simp] theorem strip_ok {α : Type} {P : List Lexeme → Prop} (a : α) (r : Subtype P) :
    strip (.ok (a, r) : Except SyntaxError (α × Subtype P)) = .ok (a, r.1) := rfl

@[simp] theorem rest_ok {P : List Lexeme → Prop} (r : Subtype P) :
    rest (.ok r : Except SyntaxError (Subtype P)) = .ok r.1 := rfl

/-- A stripped success still satisfies the progress predicate of the parser. -/
theorem length_of_strip_eq_ok {α : Type} {P : List Lexeme → Prop}
    {x : Except SyntaxError (α × Subtype P)} {a : α} {r : List Lexeme}
    (h : strip x = .ok (a, r)) : P r := by
  rcases x with _ | ⟨a', r', hr'⟩
  · cases h
  · cases h
    exact hr'

theorem length_of_rest_eq_ok {P : List Lexeme → Prop} {x : Except SyntaxError (Subtype P)}
    {r : List Lexeme} (h : rest x = .ok r) : P r := by
  rcases x with _ | ⟨r', hr'⟩
  · cases h
  · cases h
    exact hr'

/-- A bind of `Except` succeeds exactly when both of its steps do. -/
theorem bind_eq_ok {α β : Type} {x : Except SyntaxError α} {f : α → Except SyntaxError β}
    {b : β} : x >>= f = .ok b ↔ ∃ a, x = .ok a ∧ f a = .ok b := by
  rcases x with e | a
  · simp only [bind, Except.bind, reduceCtorEq, false_and, exists_false]
  · simp only [bind, Except.bind, Except.ok.injEq, exists_eq_left']

theorem map_eq_ok {α β : Type} {x : Except SyntaxError α} {f : α → β} {b : β} :
    x.map f = .ok b ↔ ∃ a, x = .ok a ∧ f a = b := by
  rcases x with e | a
  · simp only [Except.map, reduceCtorEq, false_and, exists_false]
  · simp only [Except.map, Except.ok.injEq, exists_eq_left']

variable (last : Option Position) (l : Lexeme) (ls : List Lexeme)

/-! ## Single lexemes -/

theorem rest_expect_nil (p : Punct) (what : Expectation) :
    rest (expect last p what []) = .error (.unexpectedEnd last) := rfl

theorem rest_expect_cons (p : Punct) (what : Expectation) :
    rest (expect last p what (l :: ls)) =
      if l.token = .punct p then .ok ls else .error (.unexpectedToken what l.token l.pos) := by
  simp only [rest, expect]
  split <;> rfl

theorem strip_identifier_cons :
    strip (identifier last (l :: ls)) =
      match l.token with
      | .name x => .ok ((x, l.pos), ls)
      | t => .error (.unexpectedToken .identifier t l.pos) := by
  rcases l with ⟨t, p⟩
  cases t <;> rfl

theorem strip_identifier_nil : strip (identifier last []) = .error (.unexpectedEnd last) := rfl

theorem rest_skipComma_nil : rest (skipComma last []) = .error (.unexpectedEnd last) := rfl

theorem rest_skipComma_cons :
    rest (skipComma last (l :: ls)) = .ok (if l.token = .punct .comma then ls else l :: ls) := by
  simp only [rest, skipComma]
  split <;> rfl

/-! ## Lists closed by `)` -/

theorem strip_params_nil : strip (params last []) = .error (.unexpectedEnd last) := by
  rw [params]; rfl

theorem strip_params_rparen (h : l.token = .punct .rparen) :
    strip (params last (l :: ls)) = .ok ([], ls) := by
  rw [params]; simp only [h, if_true]; rfl

theorem strip_params_item (h : l.token ≠ .punct .rparen) :
    strip (params last (l :: ls)) = (do
      let ((x, _), r₁) ← strip (identifier last (l :: ls))
      let r₂ ← rest (skipComma last r₁)
      let (xs, r₃) ← strip (params last r₂)
      pure (x :: xs, r₃)) := by
  rw [params]; simp only [h, if_false]
  rcases identifier last (l :: ls) with _ | ⟨⟨x, p⟩, r₁, h₁⟩
  · rfl
  dsimp only [bind, Except.bind, strip, rest, Except.map]
  rcases skipComma last r₁ with _ | ⟨r₂, h₂⟩
  · rfl
  dsimp only
  rcases params last r₂ with _ | ⟨xs, r₃, h₃⟩ <;> rfl

theorem strip_args_nil : strip (args last []) = .error (.unexpectedEnd last) := by
  rw [args]; rfl

theorem strip_args_rparen (h : l.token = .punct .rparen) :
    strip (args last (l :: ls)) = .ok ([], ls) := by
  rw [args]; simp only [h, if_true]; rfl

theorem strip_args_item (h : l.token ≠ .punct .rparen) :
    strip (args last (l :: ls)) = (do
      let (a, r₁) ← strip (expr last (l :: ls))
      let r₂ ← rest (skipComma last r₁)
      let (as, r₃) ← strip (args last r₂)
      pure (a :: as, r₃)) := by
  rw [args]; simp only [h, if_false]
  rcases expr last (l :: ls) with _ | ⟨a, r₁, h₁⟩
  · rfl
  dsimp only [bind, Except.bind, strip, rest, Except.map]
  rcases skipComma last r₁ with _ | ⟨r₂, h₂⟩
  · rfl
  dsimp only
  rcases args last r₂ with _ | ⟨as, r₃, h₃⟩ <;> rfl

/-! ## Names, braces and expressions -/

theorem strip_named_nil (x : String) (pos : Position) :
    strip (named last x pos []) = .error (.unexpectedEnd last) := by
  rw [named]; rfl

theorem strip_named_lparen (x : String) (pos : Position) (h : l.token = .punct .lparen) :
    strip (named last x pos (l :: ls)) =
      (strip (args last ls)).map fun p => (.call x p.1 pos, p.2) := by
  rw [named]; simp only [h, if_true]
  rcases args last ls with _ | ⟨as, r, hr⟩ <;> rfl

theorem strip_named_var (x : String) (pos : Position) (h : l.token ≠ .punct .lparen) :
    strip (named last x pos (l :: ls)) = .ok (.var x pos, l :: ls) := by
  rw [named]; simp only [h, if_false]; rfl

theorem strip_braced :
    strip (braced last ls) = (do
      let r₁ ← rest (expect last .lbrace (.punct .lbrace) ls)
      let (e, r₂) ← strip (expr last r₁)
      let r₃ ← rest (expect last .rbrace (.punct .rbrace) r₂)
      pure (e, r₃)) := by
  rw [braced]
  rcases expect last .lbrace (.punct .lbrace) ls with _ | ⟨r₁, h₁⟩
  · rfl
  dsimp only [bind, Except.bind, strip, rest, Except.map]
  rcases expr last r₁ with _ | ⟨e, r₂, h₂⟩
  · rfl
  dsimp only
  rcases expect last .rbrace (.punct .rbrace) r₂ with _ | ⟨r₃, h₃⟩ <;> rfl

/-! ## The constructs an expression dispatches to

Each construct parser starts by taking the lexeme that the dispatch in `expr` looked at: the
`(` of a binary expression, the `[` of a conditional, the operator of a negation. -/

/-- What follows the left operand of a binary expression: the operator, the right operand
and the closing `)`. -/
def binaryTail (left : Expr) : List Lexeme → Except SyntaxError (Expr × List Lexeme)
  | [] => .error (.unexpectedEnd last)
  | m :: r₂ =>
    match m.token with
    | .op o => do
      let (right, r₃) ← strip (expr last r₂)
      let r₄ ← rest (expect last .rparen (.punct .rparen) r₃)
      pure (.binary o left right, r₄)
    | t => .error (.unexpectedToken .operator t m.pos)

theorem strip_binary :
    strip (binary last ls) = (do
      let r₀ ← rest (expect last .lparen (.punct .lparen) ls)
      let (left, r₁) ← strip (expr last r₀)
      binaryTail last left r₁) := by
  rw [binary]
  rcases expect last .lparen (.punct .lparen) ls with _ | ⟨r₀, h₀⟩
  · rfl
  dsimp only [bind, Except.bind, strip, rest, Except.map]
  rcases expr last r₀ with _ | ⟨left, _ | ⟨m, r₂⟩, h₁⟩
  · rfl
  · rfl
  · simp only [bind, Except.bind, strip, Except.map, binaryTail]
    cases m.token with
    | op o =>
      simp only
      rcases expr last r₂ with _ | ⟨right, r₃, h₃⟩
      · rfl
      · simp only [rest, Except.map]
        rcases expect last .rparen (.punct .rparen) r₃ with _ | ⟨r₄, h₄⟩ <;> rfl
    | _ => rfl

theorem strip_conditional :
    strip (conditional last ls) = (do
      let r₀ ← rest (expect last .lbracket (.punct .lbracket) ls)
      let (c, r₁) ← strip (expr last r₀)
      let r₂ ← rest (expect last .rbracket (.punct .rbracket) r₁)
      let r₃ ← rest (expect last .question (.punct .question) r₂)
      let (a, r₄) ← strip (braced last r₃)
      let r₅ ← rest (expect last .colon (.punct .colon) r₄)
      let (b, r₆) ← strip (braced last r₅)
      pure (.cond c a b, r₆)) := by
  rw [conditional]
  simp only [bind, Except.bind, strip, Except.map, rest, pure, Except.pure]
  rcases expect last .lbracket (.punct .lbracket) ls with _ | ⟨r₀, h₀⟩
  · rfl
  dsimp only
  rcases expr last r₀ with _ | ⟨c, r₁, h₁⟩
  · rfl
  dsimp only
  rcases expect last .rbracket (.punct .rbracket) r₁ with _ | ⟨r₂, h₂⟩
  · rfl
  dsimp only
  rcases expect last .question (.punct .question) r₂ with _ | ⟨r₃, h₃⟩
  · rfl
  dsimp only
  rcases braced last r₃ with _ | ⟨a, r₄, h₄⟩
  · rfl
  dsimp only
  rcases expect last .colon (.punct .colon) r₄ with _ | ⟨r₅, h₅⟩
  · rfl
  dsimp only
  rcases braced last r₅ with _ | ⟨b, r₆, h₆⟩ <;> rfl

theorem strip_negation_number (m : Lexeme) {v : Int64} (h : l.token = .op .sub)
    (hm : m.token = .number v) :
    strip (negation last (l :: m :: ls)) = .ok (.neg (.const v m.pos) l.pos, ls) := by
  rw [negation.eq_def]; simp only [h, if_true, hm]; rfl

theorem strip_negation_name (m : Lexeme) {x : String} (h : l.token = .op .sub)
    (hm : m.token = .name x) :
    strip (negation last (l :: m :: ls)) =
      (strip (named last x m.pos ls)).map fun p => (.neg p.1 l.pos, p.2) := by
  rw [negation.eq_def]; simp only [h, if_true, hm]
  rcases named last x m.pos ls with _ | ⟨e, r, hr⟩ <;> rfl

theorem strip_negation_nil (h : l.token = .op .sub) :
    strip (negation last [l]) = .error (.unexpectedEnd last) := by
  rw [negation.eq_def]; simp only [h, if_true]; rfl

theorem strip_negation_other (m : Lexeme) (h : l.token = .op .sub)
    (hv : ∀ v, m.token ≠ .number v) (hx : ∀ x, m.token ≠ .name x) :
    strip (negation last (l :: m :: ls)) =
      .error (.unexpectedToken .negationOperand m.token m.pos) := by
  rw [negation.eq_def]; simp only [h, if_true]
  rcases m with ⟨t, p⟩
  cases t with
  | number v => exact absurd rfl (hv v)
  | name x => exact absurd rfl (hx x)
  | op o => rfl
  | punct q => rfl

theorem strip_negation_unary {o : Operator} (h : l.token = .op o) (ho : o ≠ .sub) :
    strip (negation last (l :: ls)) = .error (.unsupportedUnary o l.pos) := by
  rw [negation.eq_def]; simp only [h, ho, if_false]; rfl

/-! ## Expressions -/

theorem strip_expr_nil : strip (expr last []) = .error (.unexpectedEnd last) := by
  rw [expr.eq_def]; rfl

theorem strip_expr_number {v : Int64} (h : l.token = .number v) :
    strip (expr last (l :: ls)) = .ok (.const v l.pos, ls) := by
  rw [expr.eq_def]; simp only [h]; rfl

theorem strip_expr_name {x : String} (h : l.token = .name x) :
    strip (expr last (l :: ls)) = strip (named last x l.pos ls) := by
  rw [expr.eq_def]; simp only [h]
  rcases named last x l.pos ls with _ | ⟨e, r, hr⟩ <;> rfl

theorem strip_expr_eq_negation {o : Operator} (h : l.token = .op o) :
    strip (expr last (l :: ls)) = strip (negation last (l :: ls)) := by
  rw [expr.eq_def]; simp only [h]

theorem strip_expr_eq_binary (h : l.token = .punct .lparen) :
    strip (expr last (l :: ls)) = strip (binary last (l :: ls)) := by
  rw [expr.eq_def]; simp only [h]

theorem strip_expr_eq_conditional (h : l.token = .punct .lbracket) :
    strip (expr last (l :: ls)) = strip (conditional last (l :: ls)) := by
  rw [expr.eq_def]; simp only [h]

theorem strip_expr_punct {p : Punct} (h : l.token = .punct p) (hp : p ≠ .lparen)
    (hb : p ≠ .lbracket) :
    strip (expr last (l :: ls)) = .error (.nothingParsed (.punct p) l.pos) := by
  rw [expr.eq_def]; simp only [h]
  cases p with
  | lparen => exact absurd rfl hp
  | lbracket => exact absurd rfl hb
  | _ => rfl

/-! The dispatch hands each construct the lexeme it looked at, so the construct's first `expect`
succeeds; what an expression does is then read off its head lexeme. -/

theorem strip_expr_neg_number (m : Lexeme) {v : Int64} (h : l.token = .op .sub)
    (hm : m.token = .number v) :
    strip (expr last (l :: m :: ls)) = .ok (.neg (.const v m.pos) l.pos, ls) := by
  rw [strip_expr_eq_negation last l _ h, strip_negation_number last l ls m h hm]

theorem strip_expr_neg_name (m : Lexeme) {x : String} (h : l.token = .op .sub)
    (hm : m.token = .name x) :
    strip (expr last (l :: m :: ls)) =
      (strip (named last x m.pos ls)).map fun p => (.neg p.1 l.pos, p.2) := by
  rw [strip_expr_eq_negation last l _ h, strip_negation_name last l ls m h hm]

theorem strip_expr_neg_nil (h : l.token = .op .sub) :
    strip (expr last [l]) = .error (.unexpectedEnd last) := by
  rw [strip_expr_eq_negation last l _ h, strip_negation_nil last l h]

theorem strip_expr_neg_other (m : Lexeme) (h : l.token = .op .sub)
    (hv : ∀ v, m.token ≠ .number v) (hx : ∀ x, m.token ≠ .name x) :
    strip (expr last (l :: m :: ls)) = .error (.unexpectedToken .negationOperand m.token m.pos) := by
  rw [strip_expr_eq_negation last l _ h, strip_negation_other last l ls m h hv hx]

theorem strip_expr_unary {o : Operator} (h : l.token = .op o) (ho : o ≠ .sub) :
    strip (expr last (l :: ls)) = .error (.unsupportedUnary o l.pos) := by
  rw [strip_expr_eq_negation last l ls h, strip_negation_unary last l ls h ho]

theorem strip_expr_lparen (h : l.token = .punct .lparen) :
    strip (expr last (l :: ls)) = (strip (expr last ls) >>= fun p => binaryTail last p.1 p.2) := by
  rw [strip_expr_eq_binary last l ls h, strip_binary, rest_expect_cons, if_pos h]
  rfl

theorem strip_expr_lbracket (h : l.token = .punct .lbracket) :
    strip (expr last (l :: ls)) = (do
      let (c, r₁) ← strip (expr last ls)
      let r₂ ← rest (expect last .rbracket (.punct .rbracket) r₁)
      let r₃ ← rest (expect last .question (.punct .question) r₂)
      let (a, r₄) ← strip (braced last r₃)
      let r₅ ← rest (expect last .colon (.punct .colon) r₄)
      let (b, r₆) ← strip (braced last r₅)
      pure (.cond c a b, r₆)) := by
  rw [strip_expr_eq_conditional last l ls h, strip_conditional, rest_expect_cons, if_pos h]
  rfl

/-! ## Definitions and programs -/

theorem strip_definition :
    strip (definition last ls) = (do
      let ((name, _), r₁) ← strip (identifier last ls)
      let r₂ ← rest (expect last .lparen (.punct .lparen) r₁)
      let (ps, r₃) ← strip (params last r₂)
      let r₄ ← rest (expect last .equals (.punct .equals) r₃)
      let (body, r₅) ← strip (braced last r₄)
      let r₆ ← rest (expect last .newline .definitionEnd r₅)
      pure (⟨name, ps, body⟩, r₆)) := by
  rw [definition]
  simp only [bind, Except.bind, strip, Except.map, rest, pure, Except.pure]
  rcases identifier last ls with _ | ⟨⟨name, p⟩, r₁, h₁⟩
  · rfl
  dsimp only
  rcases expect last .lparen (.punct .lparen) r₁ with _ | ⟨r₂, h₂⟩
  · rfl
  dsimp only
  rcases params last r₂ with _ | ⟨ps, r₃, h₃⟩
  · rfl
  dsimp only
  rcases expect last .equals (.punct .equals) r₃ with _ | ⟨r₄, h₄⟩
  · rfl
  dsimp only
  rcases braced last r₄ with _ | ⟨body, r₅, h₅⟩
  · rfl
  dsimp only
  rcases expect last .newline .definitionEnd r₅ with _ | ⟨r₆, h₆⟩ <;> rfl

theorem definitions_eq (t : FunctionTable) :
    definitions last t ls = (do
      if ← startsDefinition last ls then
        let (f, r) ← strip (definition last ls)
        definitions last (t.insert f) r
      else pure (t, ls)) := by
  rw [definitions]
  simp only [bind, Except.bind, strip, Except.map]
  rcases startsDefinition last ls with _ | _ | _
  · rfl
  · rfl
  · dsimp only
    rcases definition last ls with _ | ⟨f, r, hr⟩ <;> rfl

end Parse

theorem Program.parse_eq (ls : List Lexeme) :
    Program.parse ls = (do
      let last := ls.getLast?.map (·.pos)
      let (t, r₁) ← Parse.definitions last .empty ls
      let (e, r₂) ← Parse.strip (Parse.expr last r₁)
      Parse.trailing r₂
      pure ⟨t, e⟩) := by
  rw [Program.parse]
  generalize ls.getLast?.map (·.pos) = last
  simp only [bind, Except.bind, Parse.strip, Except.map]
  rcases Parse.definitions last .empty ls with _ | ⟨t, r₁⟩
  · rfl
  dsimp only
  rcases Parse.expr last r₁ with _ | ⟨e, r₂, h₂⟩ <;> rfl

end Parenthetic
