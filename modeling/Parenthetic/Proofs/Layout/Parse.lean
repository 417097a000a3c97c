import Parenthetic.Proofs.Parse.Lookahead
import Parenthetic.Proofs.Layout.Relabel

set_option autoImplicit false

/-! # Parsing carries positions along

No parser decides anything by a position: it looks at tokens, and copies positions into the
nodes it builds and into the errors it reports. So parsing lexemes whose positions are moved by
`f` gives the program, or the error, of the original lexemes with positions moved by `f`
(`Program.parse_map_mapPos`).

Each parser is taken one step at a time with the equations of `Proofs/Parse/Steps`.
`Parse.relabel` moves the positions of a stripped parse result, and `Parse.relabel_bind` carries
the agreement of the two parses through each step.
-/

namespace Parenthetic

namespace Parse

section

variable (f : Position → Position)

/-- A parse result with every position moved by `f`: the value's by `fa`, and those of the
lexemes left and of the error. -/
def relabel {α : Type} (fa : α → α) :
    Except SyntaxError (α × List Lexeme) → Except SyntaxError (α × List Lexeme)
  | .ok (a, r) => .ok (fa a, r.map (Lexeme.mapPos f))
  | .error e => .error (e.mapPos f)

/-- The lexemes left by a parse, or its error, with every position moved by `f`. -/
def relabelRest : Except SyntaxError (List Lexeme) → Except SyntaxError (List Lexeme)
  | .ok r => .ok (r.map (Lexeme.mapPos f))
  | .error e => .error (e.mapPos f)

variable {f}

/-- Two parses that agree up to moved positions keep agreeing after a step that does the same
on both sides. -/
theorem relabel_bind {α β : Type} {fa : α → α} {fb : β → β}
    {x : Except SyntaxError (α × List Lexeme)}
    {k k' : α × List Lexeme → Except SyntaxError (β × List Lexeme)}
    (hk : ∀ a r, x = .ok (a, r) → k' (fa a, r.map (Lexeme.mapPos f)) = relabel f fb (k (a, r))) :
    relabel f fa x >>= k' = relabel f fb (x >>= k) := by
  rcases x with e | ⟨a, r⟩
  · rfl
  · exact hk a r rfl

theorem relabelRest_bind {β : Type} {fb : β → β} {x : Except SyntaxError (List Lexeme)}
    {k k' : List Lexeme → Except SyntaxError (β × List Lexeme)}
    (hk : ∀ r, x = .ok r → k' (r.map (Lexeme.mapPos f)) = relabel f fb (k r)) :
    relabelRest f x >>= k' = relabel f fb (x >>= k) := by
  rcases x with e | r
  · rfl
  · exact hk r rfl

theorem relabel_map {α β : Type} {fa : α → α} {fb : β → β}
    {x : Except SyntaxError (α × List Lexeme)} {h h' : α × List Lexeme → β × List Lexeme}
    (hh : ∀ a r, h' (fa a, r.map (Lexeme.mapPos f)) =
      (fb (h (a, r)).1, (h (a, r)).2.map (Lexeme.mapPos f))) :
    (relabel f fa x).map h' = relabel f fb (x.map h) := by
  rcases x with e | ⟨a, r⟩
  · rfl
  · exact congrArg Except.ok (hh a r)

end

/-! ## Each parser -/

section

variable (f : Position → Position) (last : Option Position)

theorem rest_expect_map (p : Punct) (what : Expectation) :
    ∀ ls : List Lexeme, rest (expect (last.map f) p what (ls.map (Lexeme.mapPos f))) =
      relabelRest f (rest (expect last p what ls))
  | [] => rfl
  | l :: ls => by
    rw [List.map_cons, rest_expect_cons, rest_expect_cons, Lexeme.token_mapPos]
    split <;> rfl

theorem strip_identifier_map : ∀ ls : List Lexeme,
    strip (identifier (last.map f) (ls.map (Lexeme.mapPos f))) =
      relabel f (fun xp => (xp.1, f xp.2)) (strip (identifier last ls))
  | [] => rfl
  | ⟨t, p⟩ :: ls => by
    rw [List.map_cons, strip_identifier_cons, strip_identifier_cons]
    cases t <;> rfl

theorem rest_skipComma_map : ∀ ls : List Lexeme,
    rest (skipComma (last.map f) (ls.map (Lexeme.mapPos f))) =
      relabelRest f (rest (skipComma last ls))
  | [] => rfl
  | l :: ls => by
    rw [List.map_cons, rest_skipComma_cons, rest_skipComma_cons, Lexeme.token_mapPos]
    split <;> rfl

theorem strip_params_map : ∀ ls : List Lexeme,
    strip (params (last.map f) (ls.map (Lexeme.mapPos f))) = relabel f id (strip (params last ls))
  | [] => by rw [List.map_nil, strip_params_nil, strip_params_nil]; rfl
  | l :: ls => by
    by_cases ht : l.token = .punct .rparen
    · rw [List.map_cons, strip_params_rparen _ (l.mapPos f) _ ht, strip_params_rparen _ _ _ ht]
      rfl
    · rw [List.map_cons, strip_params_item _ (l.mapPos f) _ ht, strip_params_item _ _ _ ht,
        ← List.map_cons, strip_identifier_map]
      refine relabel_bind fun ⟨x, p⟩ r₁ h₁ => ?_
      have hlen₁ := length_of_strip_eq_ok (x := identifier last (l :: ls)) (by rw [h₁])
      dsimp only
      rw [rest_skipComma_map]
      refine relabelRest_bind fun r₂ h₂ => ?_
      have hlen₂ := length_of_rest_eq_ok (x := skipComma last r₁) (by rw [h₂])
      rw [strip_params_map r₂]
      exact relabel_bind fun _ _ _ => rfl
termination_by ls => ls.length
decreasing_by simp only [List.length_cons] at *; omega

end

/-! ## Expressions -/

section

variable (f : Position → Position) (last : Option Position)

/-- What follows the left operand of a binary expression agrees up to moved positions, when the
expression parser does on every shorter list of lexemes. -/
theorem binaryTail_map {left : Expr} {r : List Lexeme}
    (hexpr : ∀ r₂ : List Lexeme, r₂.length < r.length →
      strip (expr (last.map f) (r₂.map (Lexeme.mapPos f))) =
        relabel f (Expr.mapPos f) (strip (expr last r₂))) :
    binaryTail (last.map f) (left.mapPos f) (r.map (Lexeme.mapPos f)) =
      relabel f (Expr.mapPos f) (binaryTail last left r) := by
  rcases r with _ | ⟨⟨t, q⟩, r₂⟩
  · rfl
  · cases t with
    | op o =>
      simp only [List.map_cons, binaryTail, Lexeme.token_mapPos]
      rw [hexpr r₂ (by simp)]
      refine relabel_bind fun right r₃ _ => ?_
      dsimp only
      rw [rest_expect_map]
      exact relabelRest_bind fun _ _ => rfl
    | number _ | name _ | punct _ => rfl

mutual

theorem strip_expr_map : ∀ ls : List Lexeme,
    strip (expr (last.map f) (ls.map (Lexeme.mapPos f))) =
      relabel f (Expr.mapPos f) (strip (expr last ls))
  | [] => by rw [List.map_nil, strip_expr_nil, strip_expr_nil]; rfl
  | ⟨.number v, p⟩ :: ls => by
    rw [List.map_cons, strip_expr_number _ _ _ rfl, strip_expr_number _ _ _ rfl]
    rfl
  | ⟨.name x, p⟩ :: ls => by
    rw [List.map_cons, strip_expr_name _ _ _ rfl, strip_expr_name _ _ _ rfl]
    exact strip_named_map x p ls
  | [⟨.op o, p⟩] => by
    by_cases ho : o = .sub
    · subst ho
      rw [List.map_cons, List.map_nil, strip_expr_neg_nil _ _ rfl, strip_expr_neg_nil _ _ rfl]
      rfl
    · rw [List.map_cons, strip_expr_unary _ _ _ rfl ho, strip_expr_unary _ _ _ rfl ho]
      rfl
  | ⟨.op o, p⟩ :: ⟨t, q⟩ :: ms => by
    by_cases ho : o = .sub
    · subst ho
      cases t with
      | number v =>
        rw [List.map_cons, List.map_cons, strip_expr_neg_number _ _ _ _ rfl rfl,
          strip_expr_neg_number _ _ _ _ rfl rfl]
        rfl
      | name x =>
        rw [List.map_cons, List.map_cons, strip_expr_neg_name _ _ _ _ rfl rfl,
          strip_expr_neg_name _ _ _ _ rfl rfl]
        exact (congrArg (Except.map _) (strip_named_map x q ms)).trans
          (relabel_map fun _ _ => rfl)
      | op o' =>
        rw [List.map_cons, List.map_cons, strip_expr_neg_other _ _ _ _ rfl (by simp) (by simp),
          strip_expr_neg_other _ _ _ _ rfl (by simp) (by simp)]
        rfl
      | punct k =>
        rw [List.map_cons, List.map_cons, strip_expr_neg_other _ _ _ _ rfl (by simp) (by simp),
          strip_expr_neg_other _ _ _ _ rfl (by simp) (by simp)]
        rfl
    · rw [List.map_cons, strip_expr_unary _ _ _ rfl ho, strip_expr_unary _ _ _ rfl ho]
      rfl
  | ⟨.punct k, p⟩ :: ls => by
    by_cases hk : k = .lparen
    · subst hk
      rw [List.map_cons, strip_expr_lparen _ _ _ rfl, strip_expr_lparen _ _ _ rfl, strip_expr_map ls]
      refine relabel_bind fun left r₁ h₁ => ?_
      have hlen₁ := length_of_strip_eq_ok (x := expr last ls) (by rw [h₁])
      exact binaryTail_map f last fun r₂ hr₂ => strip_expr_map r₂
    by_cases hb : k = .lbracket
    · subst hb
      rw [List.map_cons, strip_expr_lbracket _ _ _ rfl, strip_expr_lbracket _ _ _ rfl,
        strip_expr_map ls]
      refine relabel_bind fun c r₁ h₁ => ?_
      have hlen₁ := length_of_strip_eq_ok (x := expr last ls) (by rw [h₁])
      dsimp only
      rw [rest_expect_map]
      refine relabelRest_bind fun r₂ h₂ => ?_
      have hlen₂ := length_of_rest_eq_ok (x := expect last .rbracket (.punct .rbracket) r₁) (by rw [h₂])
      rw [rest_expect_map]
      refine relabelRest_bind fun r₃ h₃ => ?_
      have hlen₃ := length_of_rest_eq_ok (x := expect last .question (.punct .question) r₂) (by rw [h₃])
      rw [strip_braced_map r₃]
      refine relabel_bind fun a r₄ h₄ => ?_
      have hlen₄ := length_of_strip_eq_ok (x := braced last r₃) (by rw [h₄])
      dsimp only
      rw [rest_expect_map]
      refine relabelRest_bind fun r₅ h₅ => ?_
      have hlen₅ := length_of_rest_eq_ok (x := expect last .colon (.punct .colon) r₄) (by rw [h₅])
      rw [strip_braced_map r₅]
      exact relabel_bind fun _ _ _ => rfl
    rw [List.map_cons, strip_expr_punct _ _ _ rfl hk hb, strip_expr_punct _ _ _ rfl hk hb]
    rfl
termination_by ls => 2 * ls.length
decreasing_by all_goals simp only [List.length_cons] at *; omega

theorem strip_named_map (x : String) (pos : Position) : ∀ ls : List Lexeme,
    strip (named (last.map f) x (f pos) (ls.map (Lexeme.mapPos f))) =
      relabel f (Expr.mapPos f) (strip (named last x pos ls))
  | [] => by rw [List.map_nil, strip_named_nil, strip_named_nil]; rfl
  | l :: ls => by
    by_cases ht : l.token = .punct .lparen
    · rw [List.map_cons, strip_named_lparen _ (l.mapPos f) _ x (f pos) ht,
        strip_named_lparen _ _ _ x pos ht, strip_args_map ls]
      exact relabel_map fun _ _ => rfl
    · rw [List.map_cons, strip_named_var _ (l.mapPos f) _ x (f pos) ht,
        strip_named_var _ _ _ x pos ht]
      rfl
termination_by ls => 2 * ls.length + 1
decreasing_by all_goals simp only [List.length_cons] at *; omega

theorem strip_braced_map (ls : List Lexeme) :
    strip (braced (last.map f) (ls.map (Lexeme.mapPos f))) =
      relabel f (Expr.mapPos f) (strip (braced last ls)) := by
  rw [strip_braced, strip_braced, rest_expect_map]
  refine relabelRest_bind fun r₁ h₁ => ?_
  have hlen₁ := length_of_rest_eq_ok (x := expect last .lbrace (.punct .lbrace) ls) (by rw [h₁])
  rw [strip_expr_map r₁]
  refine relabel_bind fun e r₂ _ => ?_
  dsimp only
  rw [rest_expect_map]
  exact relabelRest_bind fun _ _ => rfl
termination_by 2 * ls.length + 1
decreasing_by omega

theorem strip_args_map : ∀ ls : List Lexeme,
    strip (args (last.map f) (ls.map (Lexeme.mapPos f))) =
      relabel f (Expr.mapPosArgs f) (strip (args last ls))
  | [] => by rw [List.map_nil, strip_args_nil, strip_args_nil]; rfl
  | l :: ls => by
    by_cases ht : l.token = .punct .rparen
    · rw [List.map_cons, strip_args_rparen _ (l.mapPos f) _ ht, strip_args_rparen _ _ _ ht]
      rfl
    · rw [List.map_cons, strip_args_item _ (l.mapPos f) _ ht, strip_args_item _ _ _ ht,
        ← List.map_cons, strip_expr_map (l :: ls)]
      refine relabel_bind fun a r₁ h₁ => ?_
      have hlen₁ := length_of_strip_eq_ok (x := expr last (l :: ls)) (by rw [h₁])
      dsimp only
      rw [rest_skipComma_map]
      refine relabelRest_bind fun r₂ h₂ => ?_
      have hlen₂ := length_of_rest_eq_ok (x := skipComma last r₁) (by rw [h₂])
      rw [strip_args_map r₂]
      exact relabel_bind fun _ _ _ => rfl
termination_by ls => 2 * ls.length + 1
decreasing_by all_goals simp only [List.length_cons] at *; omega

end

end

/-! ## Definitions and programs -/

section

variable (f : Position → Position) (last : Option Position)

/-- The look-ahead past balanced parentheses reads tokens only. -/
theorem afterClose_map : ∀ (d : Nat) (ls : List Lexeme),
    afterClose d (ls.map (Lexeme.mapPos f)) = (afterClose d ls).map (List.map (Lexeme.mapPos f))
  | _, [] => rfl
  | d, l :: ls => by
    rw [List.map_cons]
    by_cases h₁ : l.token = .punct .lparen
    · rw [afterClose_cons_lparen (l := l.mapPos f) h₁, afterClose_cons_lparen h₁,
        afterClose_map (d + 1) ls]
    by_cases h₂ : l.token = .punct .rparen
    · cases d with
      | zero =>
        rw [afterClose_cons_rparen_zero (l := l.mapPos f) h₂, afterClose_cons_rparen_zero h₂]
        rfl
      | succ d =>
        rw [afterClose_cons_rparen_succ (l := l.mapPos f) h₂, afterClose_cons_rparen_succ h₂,
          afterClose_map d ls]
    · rw [afterClose_cons_plain (l := l.mapPos f) h₁ h₂, afterClose_cons_plain h₁ h₂,
        afterClose_map d ls]

/-- Whether a definition starts is decided by tokens only. -/
theorem startsDefinition_map (ls : List Lexeme) :
    startsDefinition (last.map f) (ls.map (Lexeme.mapPos f)) =
      (startsDefinition last ls).mapError (SyntaxError.mapPos f) := by
  rcases ls with _ | ⟨⟨t₁, p₁⟩, _ | ⟨⟨t₂, p₂⟩, ls⟩⟩
  · rfl
  · cases t₁ <;> rfl
  · cases t₁ with
    | name x =>
      cases t₂ with
      | punct k =>
        cases k with
        | lparen =>
          -- a name and `(`: the answer is read after the parenthesis that balances it
          simp only [List.map_cons, Lexeme.mapPos, startsDefinition]
          rw [afterClose_map]
          rcases afterClose 0 ls with _ | _ | ⟨⟨t, q⟩, rest⟩
          · rfl
          · rfl
          · cases t with
            | punct k' => cases k' <;> rfl
            | _ => rfl
        | _ => rfl
      | _ => rfl
    | _ => rfl

theorem strip_definition_map (ls : List Lexeme) :
    strip (definition (last.map f) (ls.map (Lexeme.mapPos f))) =
      relabel f (Function.mapPos f) (strip (definition last ls)) := by
  rw [strip_definition, strip_definition, strip_identifier_map]
  refine relabel_bind fun ⟨name, p⟩ r₁ _ => ?_
  dsimp only
  rw [rest_expect_map]
  refine relabelRest_bind fun r₂ _ => ?_
  rw [strip_params_map]
  refine relabel_bind fun ps r₃ _ => ?_
  dsimp only
  rw [rest_expect_map]
  refine relabelRest_bind fun r₄ _ => ?_
  rw [strip_braced_map]
  refine relabel_bind fun body r₅ _ => ?_
  dsimp only
  rw [rest_expect_map]
  exact relabelRest_bind fun _ _ => rfl

theorem definitions_map (t : FunctionTable) (ls : List Lexeme) :
    definitions (last.map f) (t.mapPos f) (ls.map (Lexeme.mapPos f)) =
      relabel f (FunctionTable.mapPos f) (definitions last t ls) := by
  rw [definitions_eq, definitions_eq, startsDefinition_map]
  rcases startsDefinition last ls with e | _ | _
  · rfl
  · rfl
  · dsimp only [Except.mapError, bind, Except.bind, if_true]
    rw [strip_definition_map]
    refine relabel_bind fun fn r h => ?_
    have hlen := length_of_strip_eq_ok (x := definition last ls) (by rw [h])
    rw [← FunctionTable.mapPos_insert, definitions_map (t.insert fn) r]
termination_by ls.length

theorem trailing_map : ∀ ls : List Lexeme,
    trailing (ls.map (Lexeme.mapPos f)) = (trailing ls).mapError (SyntaxError.mapPos f)
  | [] => rfl
  | l :: ls => by
    rw [List.map_cons, trailing, trailing, Lexeme.token_mapPos]
    split
    · exact trailing_map ls
    · rfl

end

end Parse

/-- Parsing lexemes with moved positions gives the program, or the error, of the lexemes with
those positions moved. -/
theorem Program.parse_map_mapPos (f : Position → Position) (ls : List Lexeme) :
    Program.parse (ls.map (Lexeme.mapPos f)) =
      ((Program.parse ls).map (Program.mapPos f)).mapError (SyntaxError.mapPos f) := by
  have hlast : (ls.map (Lexeme.mapPos f)).getLast?.map (·.pos) = (ls.getLast?.map (·.pos)).map f := by
    rw [List.getLast?_map, Option.map_map, Option.map_map]
    rfl
  rw [Program.parse_eq, Program.parse_eq]
  dsimp only
  rw [hlast]
  generalize ls.getLast?.map (·.pos) = last
  have hdefs : Parse.definitions (last.map f) .empty (ls.map (Lexeme.mapPos f)) =
      Parse.relabel f (FunctionTable.mapPos f) (Parse.definitions last .empty ls) :=
    Parse.definitions_map f last .empty ls
  rw [hdefs]
  rcases Parse.definitions last .empty ls with e | ⟨t, r₁⟩
  · rfl
  · simp only [Parse.relabel, bind, Except.bind]
    rw [Parse.strip_expr_map]
    rcases Parse.strip (Parse.expr last r₁) with e | ⟨e, r₂⟩
    · rfl
    · simp only [Parse.relabel]
      rw [Parse.trailing_map]
      rcases Parse.trailing r₂ with e | ⟨⟩ <;> rfl

end Parenthetic
