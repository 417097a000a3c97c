import Mathlib.Data.List.Chain
import Parenthetic.Proofs.Parse.Soundness
import Parenthetic.Proofs.Parse.Lookahead

set_option autoImplicit false

/-! # Every parser moves on

Each parser is given the lexemes from some point on and, when it succeeds, returns those after
a non-empty run of them (`Parse.Advances`): it moves forward and never beyond the end. The
expression parser, the braced expression, both lists closed by `)`, each definition and so the
whole run of definitions read their lexemes off the front. The definition look-ahead either
stops just after the `)` that balances the first `(`, or runs to the end of the lexemes without
finding one; that is the only way it fails.

These are the facts on which the parsers' recursion rests: every parser that hands lexemes to
another hands it those that an earlier parser left, so each nested expression starts strictly
further on, the item loops and the definition loop take at least one lexeme per round, and the
parse of a program ends on every list of lexemes. The definitions say as much in their
`termination_by` clauses, on the number of lexemes left; `Parse.reading_advances` states it of
what the parsers return, and of where a parse of an expression starts the parse of a nested one
(`Parse.Enters`): expression parses nest no deeper than there are lexemes.
-/

namespace Parenthetic

/-! ## Renderings are never empty -/

theorem Spells.ne_nil {e : Expr} {ls : List Lexeme} (h : Spells e ls) : ls ≠ [] := by
  cases h <;> simp

theorem SpellsBraced.ne_nil {e : Expr} {ls : List Lexeme} (h : SpellsBraced e ls) : ls ≠ [] := by
  cases h
  simp

theorem SpellsArgs.ne_nil {as : List Expr} {ls : List Lexeme} (h : SpellsArgs as ls) : ls ≠ [] := by
  cases h with
  | nil => simp
  | cons ha _ _ => simp [ha.ne_nil]

theorem SpellsParams.ne_nil {xs : List String} {ls : List Lexeme} (h : SpellsParams xs ls) :
    ls ≠ [] := by
  cases h <;> simp

theorem SpellsDefinition.ne_nil {f : Function} {ls : List Lexeme} (h : SpellsDefinition f ls) :
    ls ≠ [] := by
  obtain ⟨_, _, _, _, _, _, rfl, -⟩ := h
  simp

namespace Parse

/-- `r` is what is left of `ls` after a non-empty run of its lexemes. -/
def Advances (ls r : List Lexeme) : Prop :=
  ∃ pre, pre ≠ [] ∧ ls = pre ++ r

variable {last : Option Position}

/-! ## Parsers -/

theorem expr_advances {ls : List Lexeme} {e : Expr} {r : Shorter ls}
    (h : expr last ls = .ok (e, r)) : Advances ls r.1 := by
  have hstrip : strip (expr last ls) = .ok (e, r.1) := by rw [h]; rfl
  obtain ⟨pre, hls, hs⟩ := spells_of_expr hstrip
  exact ⟨pre, hs.ne_nil, hls⟩

theorem braced_advances {ls : List Lexeme} {e : Expr} {r : Shorter ls}
    (h : braced last ls = .ok (e, r)) : Advances ls r.1 := by
  have hstrip : strip (braced last ls) = .ok (e, r.1) := by rw [h]; rfl
  obtain ⟨pre, hls, hs⟩ := spellsBraced_of_braced hstrip
  exact ⟨pre, hs.ne_nil, hls⟩

theorem args_advances {ls : List Lexeme} {as : List Expr} {r : Shorter ls}
    (h : args last ls = .ok (as, r)) : Advances ls r.1 := by
  have hstrip : strip (args last ls) = .ok (as, r.1) := by rw [h]; rfl
  obtain ⟨pre, hls, hs⟩ := spellsArgs_of_args hstrip
  exact ⟨pre, hs.ne_nil, hls⟩

theorem params_advances {ls : List Lexeme} {xs : List String} {r : Shorter ls}
    (h : params last ls = .ok (xs, r)) : Advances ls r.1 := by
  have hstrip : strip (params last ls) = .ok (xs, r.1) := by rw [h]; rfl
  obtain ⟨pre, hls, hs⟩ := spellsParams_of_params hstrip
  exact ⟨pre, hs.ne_nil, hls⟩

/-- The definitions at the front are read off it, each from a non-empty run of lexemes. -/
theorem definitions_advance {t t' : FunctionTable} {ls r : List Lexeme}
    (h : definitions last t ls = .ok (t', r)) :
    ∃ dss : List (List Lexeme), (∀ pre ∈ dss, pre ≠ []) ∧ ls = dss.flatten ++ r := by
  obtain ⟨ds, dss, hds, hls, -⟩ := spellsDefinitions_of_definitions h
  refine ⟨dss, ?_, hls⟩
  clear hls
  induction hds with
  | nil => simp
  | cons hf _ ih =>
    intro pre hpre
    rcases List.mem_cons.1 hpre with rfl | hpre
    · exact hf.ne_nil
    · exact ih pre hpre

/-! ## The look-ahead -/

section

variable {d : Nat} {ls r : List Lexeme}

/-- The look-ahead from depth `d` stops just after the `)` that closes the parenthesis opened
`d + 1` levels up: the lexemes before it never close below their starting depth and come back
to it. -/
theorem afterClose_eq_some_iff : afterClose d ls = some r ↔
    ∃ pre c, ls = pre ++ c :: r ∧ c.token = .punct .rparen ∧
      Token.depthAfter d (pre.map Lexeme.token) = some 0 := by
  constructor
  · intro h
    induction ls generalizing d with
    | nil => simp [afterClose] at h
    | cons l ls ih =>
      by_cases h₁ : l.token = .punct .lparen
      · rw [afterClose_cons_lparen h₁] at h
        obtain ⟨pre, c, rfl, hc, hpre⟩ := ih h
        exact ⟨l :: pre, c, rfl, hc, by simpa [h₁] using hpre⟩
      by_cases h₂ : l.token = .punct .rparen
      · cases d with
        | zero =>
          rw [afterClose_cons_rparen_zero h₂, Option.some.injEq] at h
          exact ⟨[], l, by simp [h], h₂, rfl⟩
        | succ d =>
          rw [afterClose_cons_rparen_succ h₂] at h
          obtain ⟨pre, c, rfl, hc, hpre⟩ := ih h
          exact ⟨l :: pre, c, rfl, hc, by simpa [h₂] using hpre⟩
      · rw [afterClose_cons_plain h₁ h₂] at h
        obtain ⟨pre, c, rfl, hc, hpre⟩ := ih h
        exact ⟨l :: pre, c, rfl, hc, by rw [List.map_cons, Token.depthAfter_plain h₁ h₂]; exact hpre⟩
  · rintro ⟨pre, c, rfl, hc, hpre⟩
    rw [afterClose_append hpre, afterClose_cons_rparen_zero hc]

/-- The look-ahead runs out of lexemes exactly when no `)` in them closes below the starting
depth. -/
theorem afterClose_eq_none_iff :
    afterClose d ls = none ↔ (Token.depthAfter d (ls.map Lexeme.token)).isSome := by
  constructor
  · intro h
    induction ls generalizing d with
    | nil => rfl
    | cons l ls ih =>
      by_cases h₁ : l.token = .punct .lparen
      · rw [afterClose_cons_lparen h₁] at h
        simpa [h₁] using ih h
      by_cases h₂ : l.token = .punct .rparen
      · cases d with
        | zero => simp [afterClose_cons_rparen_zero h₂] at h
        | succ d =>
          rw [afterClose_cons_rparen_succ h₂] at h
          simpa [h₂] using ih h
      · rw [afterClose_cons_plain h₁ h₂] at h
        rw [List.map_cons, Token.depthAfter_plain h₁ h₂]
        exact ih h
  · intro h
    cases hclose : afterClose d ls with
    | none => rfl
    | some r =>
      -- a stop would be a `)` that the depth count cannot read past
      obtain ⟨pre, c, rfl, hc, hpre⟩ := afterClose_eq_some_iff.1 hclose
      simp [Token.depthAfter_append, hpre, hc] at h

end

/-! ## Nested expressions -/

/-- `ArgStart last ls r`: the argument list read from `ls`, up to its `)`, starts an argument
at `r`: at `ls` itself when no `)` stands there, or where the arguments after the first one and
its comma start. -/
inductive ArgStart (last : Option Position) : List Lexeme → List Lexeme → Prop
  | here {l : Lexeme} {ls : List Lexeme} :
      l.token ≠ .punct .rparen → ArgStart last (l :: ls) (l :: ls)
  | next {l : Lexeme} {ls r₁ r₂ r : List Lexeme} {a : Expr} :
      l.token ≠ .punct .rparen → strip (expr last (l :: ls)) = .ok (a, r₁) →
      rest (skipComma last r₁) = .ok r₂ → ArgStart last r₂ r → ArgStart last (l :: ls) r

/-- `Enters last ls r`: the parse of an expression from `ls` starts the parse of a nested
expression from `r`, with no expression parse in between. There is one case for each place
where a construct calls the expression parser: the two operands of a binary expression, the
condition and the two branches of a conditional, and the arguments of a call, alone or after
`-`. -/
inductive Enters (last : Option Position) : List Lexeme → List Lexeme → Prop
  | left {l : Lexeme} {ls : List Lexeme} :
      l.token = .punct .lparen → Enters last (l :: ls) ls
  | right {l m : Lexeme} {ls r : List Lexeme} {left : Expr} {o : Operator} :
      l.token = .punct .lparen → strip (expr last ls) = .ok (left, m :: r) → m.token = .op o →
      Enters last (l :: ls) r
  | condition {l : Lexeme} {ls : List Lexeme} :
      l.token = .punct .lbracket → Enters last (l :: ls) ls
  | ifBranch {l : Lexeme} {ls r₁ r₂ r₃ r : List Lexeme} {c : Expr} :
      l.token = .punct .lbracket → strip (expr last ls) = .ok (c, r₁) →
      rest (expect last .rbracket (.punct .rbracket) r₁) = .ok r₂ →
      rest (expect last .question (.punct .question) r₂) = .ok r₃ →
      rest (expect last .lbrace (.punct .lbrace) r₃) = .ok r → Enters last (l :: ls) r
  | elseBranch {l : Lexeme} {ls r₁ r₂ r₃ r₄ r₅ r : List Lexeme} {c a : Expr} :
      l.token = .punct .lbracket → strip (expr last ls) = .ok (c, r₁) →
      rest (expect last .rbracket (.punct .rbracket) r₁) = .ok r₂ →
      rest (expect last .question (.punct .question) r₂) = .ok r₃ →
      strip (braced last r₃) = .ok (a, r₄) →
      rest (expect last .colon (.punct .colon) r₄) = .ok r₅ →
      rest (expect last .lbrace (.punct .lbrace) r₅) = .ok r → Enters last (l :: ls) r
  | argument {l m : Lexeme} {ls r : List Lexeme} {x : String} :
      l.token = .name x → m.token = .punct .lparen → ArgStart last ls r →
      Enters last (l :: m :: ls) r
  | negatedArgument {l m k : Lexeme} {ls r : List Lexeme} {x : String} :
      l.token = .op .sub → m.token = .name x → k.token = .punct .lparen → ArgStart last ls r →
      Enters last (l :: m :: k :: ls) r

/-- An argument starts where the lexemes given to the argument list end. -/
theorem ArgStart.suffix {ls r : List Lexeme} (h : ArgStart last ls r) : ∃ pre, ls = pre ++ r := by
  induction h with
  | here => exact ⟨[], rfl⟩
  | next _ h₁ h₂ _ ih =>
    obtain ⟨pre₁, hls, -⟩ := spells_of_expr h₁
    obtain ⟨c, -, rfl⟩ := eq_append_of_skipComma h₂
    obtain ⟨pre, rfl⟩ := ih
    exact ⟨pre₁ ++ c ++ pre, by simp [hls]⟩

/-- A nested expression starts strictly further on. -/
theorem Enters.advances {ls r : List Lexeme} (h : Enters last ls r) : Advances ls r := by
  cases h with
  | @left l ls _ => exact ⟨[l], by simp, rfl⟩
  | @right l m ls r _ _ _ h₁ _ =>
    obtain ⟨pre, rfl, -⟩ := spells_of_expr h₁
    exact ⟨l :: (pre ++ [m]), by simp, by simp⟩
  | @condition l ls _ => exact ⟨[l], by simp, rfl⟩
  | @ifBranch l ls r₁ r₂ r₃ r _ _ h₁ h₂ h₃ h₄ =>
    obtain ⟨pre, rfl, -⟩ := spells_of_expr h₁
    obtain ⟨q₂, rfl⟩ := eq_cons_of_expect h₂
    obtain ⟨q₃, rfl⟩ := eq_cons_of_expect h₃
    obtain ⟨q₄, rfl⟩ := eq_cons_of_expect h₄
    exact ⟨l :: (pre ++ [⟨.punct .rbracket, q₂⟩, ⟨.punct .question, q₃⟩, ⟨.punct .lbrace, q₄⟩]),
      by simp, by simp⟩
  | @elseBranch l ls r₁ r₂ r₃ r₄ r₅ r _ _ _ h₁ h₂ h₃ h₄ h₅ h₆ =>
    obtain ⟨pre, rfl, -⟩ := spells_of_expr h₁
    obtain ⟨q₂, rfl⟩ := eq_cons_of_expect h₂
    obtain ⟨q₃, rfl⟩ := eq_cons_of_expect h₃
    obtain ⟨pre₄, rfl, -⟩ := spellsBraced_of_braced h₄
    obtain ⟨q₅, rfl⟩ := eq_cons_of_expect h₅
    obtain ⟨q₆, rfl⟩ := eq_cons_of_expect h₆
    exact ⟨l :: (pre ++ ⟨.punct .rbracket, q₂⟩ :: ⟨.punct .question, q₃⟩ ::
      (pre₄ ++ [⟨.punct .colon, q₅⟩, ⟨.punct .lbrace, q₆⟩])), by simp, by simp⟩
  | @argument l m ls r _ _ _ hr =>
    obtain ⟨pre, rfl⟩ := hr.suffix
    exact ⟨l :: m :: pre, by simp, by simp⟩
  | @negatedArgument l m k ls r _ _ _ _ hr =>
    obtain ⟨pre, rfl⟩ := hr.suffix
    exact ⟨l :: m :: k :: pre, by simp, by simp⟩

/-- Expression parses nest at most as deep as there are lexemes: along every chain of nested
parses, each starts at least one lexeme further on than the one that starts it. -/
theorem Enters.chain_length_le {ls : List Lexeme} {lss : List (List Lexeme)}
    (h : (ls :: lss).IsChain (Enters last)) : lss.length ≤ ls.length := by
  induction lss generalizing ls with
  | nil => exact Nat.zero_le _
  | cons r lss ih =>
    obtain ⟨hr, hchain⟩ := List.isChain_cons_cons.1 h
    -- the first nested parse starts past a non-empty run, and the rest of the chain from there
    obtain ⟨pre, hpre, rfl⟩ := hr.advances
    have hrest := ih hchain
    have hlen : 0 < pre.length := List.length_pos_iff.2 hpre
    simp only [List.length_cons, List.length_append]
    omega

/-- Reading moves on. Every parser that succeeds leaves what follows a non-empty run of the
lexemes it was given: the expression parser, the braced expression, the arguments of a call
and the parameters of a definition, each up to its `)`, and the run of definitions, one
non-empty run for each. The definition look-ahead stops just after the `)` that balances the
first `(`, and fails exactly when the lexemes end before any `)` closes it. Every nested
expression parse starts strictly further on, so a chain of nested expression parses is no
longer than the lexemes it starts from. -/
theorem reading_advances (last : Option Position) :
    (∀ ls e (r : Shorter ls), expr last ls = .ok (e, r) → Advances ls r.1) ∧
    (∀ ls e (r : Shorter ls), braced last ls = .ok (e, r) → Advances ls r.1) ∧
    (∀ ls as (r : Shorter ls), args last ls = .ok (as, r) → Advances ls r.1) ∧
    (∀ ls xs (r : Shorter ls), params last ls = .ok (xs, r) → Advances ls r.1) ∧
    (∀ t ls t' r, definitions last t ls = .ok (t', r) →
      ∃ dss : List (List Lexeme), (∀ pre ∈ dss, pre ≠ []) ∧ ls = dss.flatten ++ r) ∧
    (∀ d ls r, afterClose d ls = some r ↔
      ∃ pre c, ls = pre ++ c :: r ∧ c.token = .punct .rparen ∧
        Token.depthAfter d (pre.map Lexeme.token) = some 0) ∧
    (∀ d ls, afterClose d ls = none ↔ (Token.depthAfter d (ls.map Lexeme.token)).isSome) ∧
    (∀ ls r, Enters last ls r → Advances ls r) ∧
    (∀ ls lss, (ls :: lss).IsChain (Enters last) → lss.length ≤ ls.length) :=
  ⟨fun _ _ _ => expr_advances, fun _ _ _ => braced_advances, fun _ _ _ => args_advances,
    fun _ _ _ => params_advances, fun _ _ _ _ => definitions_advance,
    fun _ _ _ => afterClose_eq_some_iff, fun _ _ => afterClose_eq_none_iff,
    fun _ _ => Enters.advances, fun _ _ => Enters.chain_length_le⟩

end Parse

end Parenthetic
