import Parenthetic.Proofs.Parse.Progress

set_option autoImplicit false

/-! # Requirements a syntax error can name

A syntax error "expected X, found Y" names what the grammar required. Four marks are never
named so (`Expectation.SeenAhead`). The parsers of a binary expression, a conditional and a
negation each start by requiring their first lexeme, `(`, `[` or `-`, but they are entered only
from the dispatch of `expr`, which has already seen a `(`, a `[` or an operator there: the
first two are taken, and an operator other than `-` is an unsupported unary operation, not a
missing `-`. And a definition requires `=` after its parameters only once the definition
look-ahead has found it there.

For `=` two readers of the same lexemes must agree. The look-ahead counts parentheses up to the
`)` that balances the first `(`; the parameter list takes names and commas up to the first `)`.
A parameter list that succeeds holds no `(`, so its `)` is the one the look-ahead stopped at
(`afterClose_of_params`), and the look-ahead saw `=` after it.

`Parse.NeverRequiresSeen` says of a parse result that its error, if any, does not require a mark
seen ahead. Each parser is shown to keep it, following its recursion as the soundness proofs do;
`Program.parse_error_never_expects_checked_mark` is the main statement.
-/

namespace Parenthetic

/-- The marks the parser requires only where a look-ahead has already seen them: `(` and `[`,
whose constructs start only once dispatch has seen them, the `-` of a negation, which starts
only at an operator, and the `(` and `=` of a definition, which is parsed only once the
definition look-ahead has seen both. -/
def Expectation.SeenAhead : Expectation → Prop
  | .punct .lparen | .punct .lbracket | .punct .equals | .minus => True
  | _ => False

/-- The texts `'('`, `'['`, `'='` and `'-'` describe exactly the marks seen ahead. -/
theorem Expectation.describe_mem_iff (e : Expectation) :
    e.describe ∈ ["'('", "'['", "'='", "'-'"] ↔ e.SeenAhead := by
  cases e with
  | punct p => cases p <;> simp [describe, SeenAhead, quoteChar, Punct.symbol]
  | _ => simp [describe, SeenAhead]

/-- The error requires a mark that a look-ahead has seen. -/
def SyntaxError.RequiresSeen : SyntaxError → Prop
  | unexpectedToken e _ _ => e.SeenAhead
  | _ => False

/-- Parameters and their commas close at the first `)`, where the look-ahead stops too. -/
theorem SpellsParams.afterClose_append {xs : List String} {pre : List Lexeme}
    (h : SpellsParams xs pre) (r : List Lexeme) : Parse.afterClose 0 (pre ++ r) = some r := by
  induction h with
  | nil p => exact Parse.afterClose_cons_rparen_zero rfl
  | cons p hc _ ih =>
    rw [List.cons_append, Parse.afterClose_cons_plain (by simp) (by simp)]
    rcases hc with rfl | ⟨q, rfl⟩
    · exact ih
    · rw [List.append_assoc, List.singleton_append, Parse.afterClose_cons_plain (by simp) (by simp)]
      exact ih

namespace Parse

/-- A parse result whose error, if it has one, does not require a mark seen ahead. -/
def NeverRequiresSeen {α : Type} (x : Except SyntaxError α) : Prop :=
  ∀ err, x = .error err → ¬ err.RequiresSeen

section

variable {α β : Type}

@[simp] theorem neverRequiresSeen_ok (a : α) : NeverRequiresSeen (.ok a : Except SyntaxError α) :=
  fun _ h => by cases h

@[simp] theorem neverRequiresSeen_pure (a : α) :
    NeverRequiresSeen (pure a : Except SyntaxError α) :=
  neverRequiresSeen_ok a

@[simp] theorem neverRequiresSeen_error (err : SyntaxError) :
    NeverRequiresSeen (.error err : Except SyntaxError α) ↔ ¬ err.RequiresSeen :=
  ⟨fun h => h err rfl, fun h _ herr => by cases herr; exact h⟩

theorem NeverRequiresSeen.bind {x : Except SyntaxError α} {f : α → Except SyntaxError β}
    (hx : NeverRequiresSeen x) (hf : ∀ a, x = .ok a → NeverRequiresSeen (f a)) :
    NeverRequiresSeen (x >>= f) := by
  rcases x with e | a
  · intro err h
    simp only [Bind.bind, Except.bind, Except.error.injEq] at h
    subst h
    exact hx e rfl
  · exact hf a rfl

/-- A step that is sure to succeed passes on to the rest. -/
theorem NeverRequiresSeen.ok_bind {a : α} {f : α → Except SyntaxError β}
    (h : NeverRequiresSeen (f a)) : NeverRequiresSeen (.ok a >>= f) :=
  h

theorem NeverRequiresSeen.map {x : Except SyntaxError α} (f : α → β) (hx : NeverRequiresSeen x) :
    NeverRequiresSeen (x.map f) := by
  rcases x with e | a
  · intro err h
    simp only [Except.map, Except.error.injEq] at h
    subst h
    exact hx e rfl
  · simp [Except.map]

end

variable {last : Option Position}

/-! ## Single lexemes -/

theorem rest_expect_neverRequiresSeen {p : Punct} {what : Expectation} (h : ¬ what.SeenAhead)
    (ls : List Lexeme) : NeverRequiresSeen (rest (expect last p what ls)) := by
  cases ls with
  | nil => simp [rest_expect_nil, SyntaxError.RequiresSeen]
  | cons l ls =>
    rw [rest_expect_cons]
    split <;> simp [SyntaxError.RequiresSeen, h]

theorem identifier_neverRequiresSeen (ls : List Lexeme) :
    NeverRequiresSeen (strip (identifier last ls)) := by
  cases ls with
  | nil => simp [strip_identifier_nil, SyntaxError.RequiresSeen]
  | cons l ls =>
    rw [strip_identifier_cons]
    split <;> simp [SyntaxError.RequiresSeen, Expectation.SeenAhead]

theorem skipComma_neverRequiresSeen (ls : List Lexeme) :
    NeverRequiresSeen (rest (skipComma last ls)) := by
  cases ls with
  | nil => simp [rest_skipComma_nil, SyntaxError.RequiresSeen]
  | cons l ls => simp [rest_skipComma_cons]

/-! ## Lists, expressions and braces -/

theorem params_neverRequiresSeen (ls : List Lexeme) : NeverRequiresSeen (strip (params last ls)) := by
  cases ls with
  | nil => simp [strip_params_nil, SyntaxError.RequiresSeen]
  | cons l ls =>
    by_cases h : l.token = .punct .rparen
    · simp [strip_params_rparen last l ls h]
    rw [strip_params_item last l ls h]
    refine (identifier_neverRequiresSeen _).bind fun ⟨_, r₁⟩ h₁ => ?_
    have hlen₁ := length_of_strip_eq_ok h₁
    refine (skipComma_neverRequiresSeen r₁).bind fun r₂ h₂ => ?_
    have hlen₂ := length_of_rest_eq_ok h₂
    exact (params_neverRequiresSeen r₂).bind fun _ _ => by simp
termination_by ls.length
decreasing_by simp only [List.length_cons] at *; omega

mutual

theorem expr_neverRequiresSeen (ls : List Lexeme) : NeverRequiresSeen (strip (expr last ls)) := by
  cases ls with
  | nil => simp [strip_expr_nil, SyntaxError.RequiresSeen]
  | cons l ls =>
    rcases l with ⟨t, p⟩
    cases t with
    | number v =>
      rw [strip_expr_number last _ ls rfl]
      simp
    | name x =>
      rw [strip_expr_name last _ ls rfl]
      exact named_neverRequiresSeen x p ls
    | op o =>
      rw [strip_expr_eq_negation last _ ls rfl]
      exact negation_neverRequiresSeen rfl
    | punct k =>
      by_cases hk : k = .lparen
      · subst hk
        rw [strip_expr_eq_binary last _ ls rfl]
        exact binary_neverRequiresSeen rfl
      by_cases hb : k = .lbracket
      · subst hb
        rw [strip_expr_eq_conditional last _ ls rfl]
        exact conditional_neverRequiresSeen rfl
      rw [strip_expr_punct last _ ls rfl hk hb]
      simp [SyntaxError.RequiresSeen]
termination_by 3 * ls.length + 1
decreasing_by all_goals simp only [List.length_cons]; omega

/-- Entered at the `(` that dispatch has seen, a binary expression takes it: its requirement of
`(` is never what fails. -/
theorem binary_neverRequiresSeen {l : Lexeme} {ls : List Lexeme} (h : l.token = .punct .lparen) :
    NeverRequiresSeen (strip (binary last (l :: ls))) := by
  rw [strip_binary, rest_expect_cons, if_pos h]
  refine NeverRequiresSeen.ok_bind ?_
  refine (expr_neverRequiresSeen ls).bind fun ⟨_, r₁⟩ h₁ => ?_
  have hlen₁ := length_of_strip_eq_ok h₁
  rcases r₁ with _ | ⟨⟨t, q⟩, r₂⟩
  · simp [binaryTail, SyntaxError.RequiresSeen]
  cases t with
  | op o =>
    simp only [binaryTail]
    refine (expr_neverRequiresSeen r₂).bind fun _ _ => ?_
    exact (rest_expect_neverRequiresSeen (by simp [Expectation.SeenAhead]) _).bind
      fun _ _ => by simp
  | _ => simp [binaryTail, SyntaxError.RequiresSeen, Expectation.SeenAhead]
termination_by 3 * (l :: ls).length
decreasing_by all_goals simp only [List.length_cons] at *; omega

/-- Likewise a conditional entered at the `[` that dispatch has seen. -/
theorem conditional_neverRequiresSeen {l : Lexeme} {ls : List Lexeme}
    (h : l.token = .punct .lbracket) : NeverRequiresSeen (strip (conditional last (l :: ls))) := by
  rw [strip_conditional, rest_expect_cons, if_pos h]
  refine NeverRequiresSeen.ok_bind ?_
  refine (expr_neverRequiresSeen ls).bind fun ⟨_, r₁⟩ h₁ => ?_
  have hlen₁ := length_of_strip_eq_ok h₁
  refine (rest_expect_neverRequiresSeen (by simp [Expectation.SeenAhead]) r₁).bind
    fun r₂ h₂ => ?_
  have hlen₂ := length_of_rest_eq_ok h₂
  refine (rest_expect_neverRequiresSeen (by simp [Expectation.SeenAhead]) r₂).bind
    fun r₃ h₃ => ?_
  have hlen₃ := length_of_rest_eq_ok h₃
  refine (braced_neverRequiresSeen r₃).bind fun ⟨_, r₄⟩ h₄ => ?_
  have hlen₄ := length_of_strip_eq_ok h₄
  refine (rest_expect_neverRequiresSeen (by simp [Expectation.SeenAhead]) r₄).bind
    fun r₅ h₅ => ?_
  have hlen₅ := length_of_rest_eq_ok h₅
  exact (braced_neverRequiresSeen r₅).bind fun _ _ => by simp
termination_by 3 * (l :: ls).length
decreasing_by all_goals simp only [List.length_cons] at *; omega

/-- A negation entered at the operator that dispatch has seen never requires `-`: any other
operator is an unsupported unary operation, and what follows `-` is its operand or the error. -/
theorem negation_neverRequiresSeen {l : Lexeme} {ls : List Lexeme} {o : Operator}
    (h : l.token = .op o) : NeverRequiresSeen (strip (negation last (l :: ls))) := by
  by_cases ho : o = .sub
  · subst ho
    cases ls with
    | nil =>
      rw [strip_negation_nil last l h]
      simp [SyntaxError.RequiresSeen]
    | cons m ms =>
      rcases m with ⟨t, q⟩
      cases t with
      | number v =>
        rw [strip_negation_number last l ms _ h rfl]
        simp
      | name x =>
        rw [strip_negation_name last l ms _ h rfl]
        exact (named_neverRequiresSeen x q ms).map _
      | _ =>
        rw [strip_negation_other last l ms _ h (by simp) (by simp)]
        simp [SyntaxError.RequiresSeen, Expectation.SeenAhead]
  · rw [strip_negation_unary last l ls h ho]
    simp [SyntaxError.RequiresSeen]
termination_by 3 * (l :: ls).length
decreasing_by simp only [List.length_cons]; omega

theorem named_neverRequiresSeen (x : String) (pos : Position) (ls : List Lexeme) :
    NeverRequiresSeen (strip (named last x pos ls)) := by
  cases ls with
  | nil => simp [strip_named_nil, SyntaxError.RequiresSeen]
  | cons l ls =>
    by_cases h : l.token = .punct .lparen
    · rw [strip_named_lparen last l ls x pos h]
      exact (args_neverRequiresSeen ls).map _
    · simp [strip_named_var last l ls x pos h]
termination_by 3 * ls.length + 2
decreasing_by simp only [List.length_cons]; omega

theorem braced_neverRequiresSeen (ls : List Lexeme) : NeverRequiresSeen (strip (braced last ls)) := by
  rw [strip_braced]
  refine (rest_expect_neverRequiresSeen (by simp [Expectation.SeenAhead]) ls).bind
    fun r₁ h₁ => ?_
  have hlen₁ := length_of_rest_eq_ok h₁
  refine (expr_neverRequiresSeen r₁).bind fun _ _ => ?_
  exact (rest_expect_neverRequiresSeen (by simp [Expectation.SeenAhead]) _).bind fun _ _ => by simp
termination_by 3 * ls.length + 2
decreasing_by omega

theorem args_neverRequiresSeen (ls : List Lexeme) : NeverRequiresSeen (strip (args last ls)) := by
  cases ls with
  | nil => simp [strip_args_nil, SyntaxError.RequiresSeen]
  | cons l ls =>
    by_cases h : l.token = .punct .rparen
    · simp [strip_args_rparen last l ls h]
    rw [strip_args_item last l ls h]
    refine (expr_neverRequiresSeen (l :: ls)).bind fun ⟨_, r₁⟩ h₁ => ?_
    have hlen₁ := length_of_strip_eq_ok h₁
    refine (skipComma_neverRequiresSeen r₁).bind fun r₂ h₂ => ?_
    have hlen₂ := length_of_rest_eq_ok h₂
    exact (args_neverRequiresSeen r₂).bind fun _ _ => by simp
termination_by 3 * ls.length + 2
decreasing_by all_goals simp only [List.length_cons] at *; omega

end

/-! ## Definitions -/

/-- A parameter list that succeeds ends at the `)` where the look-ahead stops. -/
theorem afterClose_of_params {ls r : List Lexeme} {xs : List String}
    (h : strip (params last ls) = .ok (xs, r)) : afterClose 0 ls = some r := by
  obtain ⟨pre, rfl, hpre⟩ := spellsParams_of_params h
  exact hpre.afterClose_append r

/-- What the look-ahead has seen when it recognises a definition: a name, `(`, and `=` just after
the `)` that balances it. -/
theorem eq_of_startsDefinition_eq_true {ls : List Lexeme} (h : startsDefinition last ls = .ok true) :
    ∃ x l m rest k r, ls = l :: m :: rest ∧ l.token = .name x ∧ m.token = .punct .lparen ∧
      afterClose 0 rest = some (k :: r) ∧ k.token = .punct .equals := by
  unfold startsDefinition at h
  split at h
  · next x p q rest =>
    split at h
    · cases h
    · next k r hk => exact ⟨x, _, _, rest, _, _, rfl, rfl, rfl, hk, rfl⟩
    · cases h
  · cases h

theorem startsDefinition_neverRequiresSeen (ls : List Lexeme) :
    NeverRequiresSeen (startsDefinition last ls) := by
  unfold startsDefinition
  split
  · split <;> simp [SyntaxError.RequiresSeen]
  · simp

/-- A definition the look-ahead has recognised never fails for want of its `(` or its `=`. -/
theorem definition_neverRequiresSeen {ls : List Lexeme} (h : startsDefinition last ls = .ok true) :
    NeverRequiresSeen (strip (definition last ls)) := by
  obtain ⟨x, l, m, rest₀, k, r, rfl, hl, hm, hclose, hk⟩ := eq_of_startsDefinition_eq_true h
  rw [strip_definition]
  refine (identifier_neverRequiresSeen _).bind fun ⟨⟨_, _⟩, r₁⟩ h₁ => ?_
  obtain rfl : r₁ = m :: rest₀ := (List.cons.inj (eq_cons_of_identifier h₁)).2.symm
  dsimp only
  have hlparen : rest (expect last .lparen (.punct .lparen) (m :: rest₀)) = .ok rest₀ := by
    rw [rest_expect_cons, if_pos hm]
  rw [hlparen]
  refine NeverRequiresSeen.ok_bind ?_
  refine (params_neverRequiresSeen rest₀).bind fun ⟨_, r₃⟩ h₃ => ?_
  -- the parameters end where the look-ahead stopped, just before the `=` it saw
  obtain rfl : r₃ = k :: r := by
    have hstop := afterClose_of_params h₃
    rw [hclose, Option.some.injEq] at hstop
    exact hstop.symm
  have hequals : rest (expect last .equals (.punct .equals) (k :: r)) = .ok r := by
    rw [rest_expect_cons, if_pos hk]
  rw [hequals]
  refine NeverRequiresSeen.ok_bind ?_
  refine (braced_neverRequiresSeen r).bind fun _ _ => ?_
  exact (rest_expect_neverRequiresSeen (by simp [Expectation.SeenAhead]) _).bind fun _ _ => by simp

theorem definitions_neverRequiresSeen (t : FunctionTable) (ls : List Lexeme) :
    NeverRequiresSeen (definitions last t ls) := by
  rw [definitions_eq]
  refine (startsDefinition_neverRequiresSeen ls).bind fun b hb => ?_
  cases b with
  | false => simp
  | true =>
    refine (definition_neverRequiresSeen hb).bind fun ⟨f, r⟩ h₁ => ?_
    have hlen := length_of_strip_eq_ok h₁
    exact definitions_neverRequiresSeen (t.insert f) r
termination_by ls.length

theorem trailing_neverRequiresSeen (ls : List Lexeme) : NeverRequiresSeen (trailing ls) := by
  induction ls with
  | nil => simp [trailing]
  | cons l ls ih =>
    rw [trailing]
    split
    · exact ih
    · simp [SyntaxError.RequiresSeen]

end Parse

/-- A syntax error never requires a mark the parser has already looked at: when parsing fails
on one token where the grammar requires another, the requirement is not described as `'('`,
`'['`, `'='` or `'-'`. -/
theorem Program.parse_error_never_expects_checked_mark {ls : List Lexeme} {e : Expectation}
    {t : Token} {p : Position} (h : Program.parse ls = .error (.unexpectedToken e t p)) :
    e.describe ∉ ["'('", "'['", "'='", "'-'"] := by
  have hparse : Parse.NeverRequiresSeen (Program.parse ls) := by
    rw [Program.parse_eq]
    refine (Parse.definitions_neverRequiresSeen _ ls).bind fun _ _ => ?_
    refine (Parse.expr_neverRequiresSeen _).bind fun _ _ => ?_
    exact (Parse.trailing_neverRequiresSeen _).bind fun _ _ => by simp
  rw [Expectation.describe_mem_iff]
  exact hparse _ h

/-- `f(1)={1}` is taken for a definition by the look-ahead, which sees `=` after the `)`, and then
fails on the number where a parameter name must stand: the error requires a name, not `=`. -/
theorem Program.parse_error_never_expects_checked_mark_number :
    Program.parse [⟨.name "f", ⟨1, 2⟩⟩, ⟨.punct .lparen, ⟨1, 2⟩⟩, ⟨.number 1, ⟨1, 4⟩⟩,
        ⟨.punct .rparen, ⟨1, 4⟩⟩, ⟨.punct .equals, ⟨1, 5⟩⟩, ⟨.punct .lbrace, ⟨1, 6⟩⟩,
        ⟨.number 1, ⟨1, 8⟩⟩, ⟨.punct .rbrace, ⟨1, 8⟩⟩] =
      .error (.unexpectedToken .identifier (.number 1) ⟨1, 4⟩) ∧
    Expectation.describe .identifier ∉ ["'('", "'['", "'='", "'-'"] := by
  have h : Program.parse [⟨.name "f", ⟨1, 2⟩⟩, ⟨.punct .lparen, ⟨1, 2⟩⟩, ⟨.number 1, ⟨1, 4⟩⟩,
        ⟨.punct .rparen, ⟨1, 4⟩⟩, ⟨.punct .equals, ⟨1, 5⟩⟩, ⟨.punct .lbrace, ⟨1, 6⟩⟩,
        ⟨.number 1, ⟨1, 8⟩⟩, ⟨.punct .rbrace, ⟨1, 8⟩⟩] =
      .error (.unexpectedToken .identifier (.number 1) ⟨1, 4⟩) := by
    simp [Program.parse, Parse.definitions, Parse.startsDefinition, Parse.afterClose,
      Parse.definition, Parse.identifier, Parse.expect, Parse.params, Parse.tail,
      bind, Except.bind]
  exact ⟨h, parse_error_never_expects_checked_mark h⟩

end Parenthetic
