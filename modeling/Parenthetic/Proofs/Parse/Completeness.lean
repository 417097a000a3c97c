import Parenthetic.Proofs.Parse.Lookahead
import Mathlib.Data.List.Forall2

set_option autoImplicit false

/-! # Canonical renderings parse back

The converse of soundness for the canonical text: lexemes whose tokens are `e.tokens` parse back
to `e`, up to positions, and leave whatever follows them. Two things can go wrong in general and
are excluded by the statements: a name followed by `(` would start a call, and a name at the very
end of the input is not read at all, since the parser looks at the next lexeme to decide.

With the look-ahead classifying printed definitions and expressions rightly (`Lookahead`),
`Program.parse_of_tokens` puts the pieces together for a whole program: printed definitions, a
printed expression and line feeds parse to that expression and the table of those definitions.
-/

namespace Parenthetic

namespace Parse

section

variable {last : Option Position}

/-! ## Forward steps -/

theorem strip_expr_binary {l m k : Lexeme} {ls r₂ r : List Lexeme} {left right : Expr}
    {o : Operator} (hl : l.token = .punct .lparen) (h₁ : strip (expr last ls) = .ok (left, m :: r₂))
    (hm : m.token = .op o) (h₂ : strip (expr last r₂) = .ok (right, k :: r))
    (hk : k.token = .punct .rparen) :
    strip (expr last (l :: ls)) = .ok (.binary o left right, r) := by
  rw [strip_expr_lparen last l ls hl, h₁]
  simp only [bind, Except.bind, binaryTail, hm, h₂, rest_expect_cons, hk, if_true, pure,
    Except.pure]

theorem strip_braced_of {l k : Lexeme} {ls r : List Lexeme} {e : Expr}
    (hl : l.token = .punct .lbrace) (h : strip (expr last ls) = .ok (e, k :: r))
    (hk : k.token = .punct .rbrace) : strip (braced last (l :: ls)) = .ok (e, r) := by
  rw [strip_braced]
  simp only [rest_expect_cons, hl, if_true, bind, Except.bind, h, hk, pure, Except.pure]

theorem strip_expr_cond {l k₁ k₂ k₃ : Lexeme} {ls r₃ r₅ r : List Lexeme} {c a b : Expr}
    (hl : l.token = .punct .lbracket) (h₁ : strip (expr last ls) = .ok (c, k₁ :: k₂ :: r₃))
    (hk₁ : k₁.token = .punct .rbracket) (hk₂ : k₂.token = .punct .question)
    (h₂ : strip (braced last r₃) = .ok (a, k₃ :: r₅)) (hk₃ : k₃.token = .punct .colon)
    (h₃ : strip (braced last r₅) = .ok (b, r)) :
    strip (expr last (l :: ls)) = .ok (.cond c a b, r) := by
  rw [strip_expr_lbracket last l ls hl]
  simp only [bind, Except.bind, h₁, rest_expect_cons, hk₁, hk₂, h₂, hk₃, h₃, if_true, pure,
    Except.pure]

theorem strip_named_call {l : Lexeme} {ls r : List Lexeme} {as : List Expr} (x : String)
    (pos : Position) (hl : l.token = .punct .lparen) (h : strip (args last ls) = .ok (as, r)) :
    strip (named last x pos (l :: ls)) = .ok (.call x as pos, r) := by
  rw [strip_named_lparen last l ls x pos hl, h]
  rfl

-- The rest a parser returns is typed by its input, so `simp` cannot rewrite the input in place:
-- these two restate a parse of one spelling of a list for another.
theorem strip_expr_of_eq {ls ls' : List Lexeme} {x : Except SyntaxError (Expr × List Lexeme)}
    (e : ls = ls') (h : strip (expr last ls') = x) : strip (expr last ls) = x := by
  subst e
  exact h

theorem strip_args_of_eq {ls ls' : List Lexeme} {x : Except SyntaxError (List Expr × List Lexeme)}
    (e : ls = ls') (h : strip (args last ls') = x) : strip (args last ls) = x := by
  subst e
  exact h

theorem strip_args_cons {l k : Lexeme} {ls r₁ r : List Lexeme} {a : Expr} {as : List Expr}
    (hl : l.token ≠ .punct .rparen) (h₁ : strip (expr last (l :: ls)) = .ok (a, k :: r₁))
    (hk : k.token = .punct .comma) (h₂ : strip (args last r₁) = .ok (as, r)) :
    strip (args last (l :: ls)) = .ok (a :: as, r) := by
  rw [strip_args_item last l ls hl]
  simp only [bind, Except.bind, h₁, rest_skipComma_cons, hk, if_true, h₂, pure, Except.pure]

end

/-! ## Canonical tokens parse back -/

mutual

/-- Lexemes with the canonical tokens of `e` parse back to `e`, up to positions, provided that
what follows does not start a call and that a trailing name is followed by something. -/
theorem expr_of_tokens (last : Option Position) : ∀ (e : Expr), e.Shaped → ∀ (ls rest : List Lexeme),
    ls.map Lexeme.token = e.tokens → (∀ l ∈ rest.head?, l.token ≠ .punct .lparen) →
    (rest = [] → e.endsInName = false) →
    ∃ e', strip (expr last (ls ++ rest)) = .ok (e', rest) ∧ e'.erase = e.erase
  | .const v _, _, ls, rest, h, _, _ => by
    obtain ⟨l, rfl, hl⟩ := List.map_eq_singleton_iff.1 h
    exact ⟨.const v l.pos, strip_expr_number last l rest hl, rfl⟩
  | .var x _, _, ls, rest, h, hrest, hend => by
    obtain ⟨l, rfl, hl⟩ := List.map_eq_singleton_iff.1 h
    -- a reference is read only once the parser has seen that no `(` follows it
    rcases rest with _ | ⟨m, ms⟩
    · exact absurd (hend rfl) (by simp [Expr.endsInName])
    refine ⟨.var x l.pos, ?_, rfl⟩
    rw [List.singleton_append, strip_expr_name last l _ hl]
    exact strip_named_var last m ms x l.pos (hrest m rfl)
  | .neg e _, hs, ls, rest, h, hrest, hend => by
    obtain ⟨l, ls', rfl, hl, h'⟩ := List.map_eq_cons_iff.1 h
    obtain ⟨hop, hs⟩ := hs
    cases e with
    | const v _ =>
      obtain ⟨m, rfl, hm⟩ := List.map_eq_singleton_iff.1 h'
      exact ⟨_, strip_expr_neg_number last l rest m hl hm, rfl⟩
    | var x _ =>
      obtain ⟨m, rfl, hm⟩ := List.map_eq_singleton_iff.1 h'
      rcases rest with _ | ⟨n, ns⟩
      · exact absurd (hend rfl) (by simp [Expr.endsInName])
      refine ⟨.neg (.var x m.pos) l.pos, ?_, rfl⟩
      rw [List.cons_append, List.singleton_append, strip_expr_neg_name last l _ m hl hm,
        strip_named_var last n ns x m.pos (hrest n rfl)]
      rfl
    | call f args _ =>
      obtain ⟨m, ls'', rfl, hm, h''⟩ := List.map_eq_cons_iff.1 h'
      obtain ⟨k, lsB, rfl, hk, hB⟩ := List.map_eq_cons_iff.1 h''
      obtain ⟨lsA, lsC, rfl, hA, hC⟩ := List.map_eq_append_iff.1 hB
      obtain ⟨c, rfl, hc⟩ := List.map_eq_singleton_iff.1 hC
      obtain ⟨as', has, hase⟩ := args_of_tokens last args hs.2 lsA rest c hc hA
      refine ⟨.neg (.call f as' m.pos) l.pos, ?_, by simp [Expr.erase, hase]⟩
      have e : l :: m :: k :: (lsA ++ [c]) ++ rest = l :: m :: k :: (lsA ++ c :: rest) := by simp
      rw [e, strip_expr_neg_name last l _ m hl hm, strip_named_call f m.pos hk has]
      rfl
    | neg _ _ => exact absurd hop id
    | binary _ _ _ => exact absurd hop id
    | cond _ _ _ => exact absurd hop id
  | .binary o l r, hs, ls, rest, h, _, _ => by
    obtain ⟨l₀, ls', rfl, hl₀, h'⟩ := List.map_eq_cons_iff.1 h
    obtain ⟨ls₁, ls', rfl, h₁, h'⟩ := List.map_eq_append_iff.1 h'
    obtain ⟨m, ls', rfl, hm, h'⟩ := List.map_eq_cons_iff.1 h'
    obtain ⟨ls₂, ls₃, rfl, h₂, h₃⟩ := List.map_eq_append_iff.1 h'
    obtain ⟨k, rfl, hk⟩ := List.map_eq_singleton_iff.1 h₃
    obtain ⟨l', hl', hle⟩ :=
      expr_of_tokens last l hs.1 ls₁ (m :: (ls₂ ++ k :: rest)) h₁ (by simp [hm]) (by simp)
    obtain ⟨r', hr', hre⟩ := expr_of_tokens last r hs.2 ls₂ (k :: rest) h₂ (by simp [hk]) (by simp)
    refine ⟨.binary o l' r', ?_, by simp [Expr.erase, hle, hre]⟩
    exact strip_expr_of_eq (by simp) (strip_expr_binary hl₀ hl' hm hr' hk)
  | .cond c a b, hs, ls, rest, h, _, _ => by
    obtain ⟨l₀, ls', rfl, hl₀, h'⟩ := List.map_eq_cons_iff.1 h
    obtain ⟨ls₁, ls', rfl, h₁, h'⟩ := List.map_eq_append_iff.1 h'
    obtain ⟨k₁, ls', rfl, hk₁, h'⟩ := List.map_eq_cons_iff.1 h'
    obtain ⟨k₂, ls', rfl, hk₂, h'⟩ := List.map_eq_cons_iff.1 h'
    obtain ⟨k₃, ls', rfl, hk₃, h'⟩ := List.map_eq_cons_iff.1 h'
    obtain ⟨ls₂, ls', rfl, h₂, h'⟩ := List.map_eq_append_iff.1 h'
    obtain ⟨k₄, ls', rfl, hk₄, h'⟩ := List.map_eq_cons_iff.1 h'
    obtain ⟨k₅, ls', rfl, hk₅, h'⟩ := List.map_eq_cons_iff.1 h'
    obtain ⟨k₆, ls', rfl, hk₆, h'⟩ := List.map_eq_cons_iff.1 h'
    obtain ⟨ls₃, ls', rfl, h₃, h'⟩ := List.map_eq_append_iff.1 h'
    obtain ⟨k₇, rfl, hk₇⟩ := List.map_eq_singleton_iff.1 h'
    obtain ⟨c', hc', hce⟩ := expr_of_tokens last c hs.1 ls₁
      (k₁ :: k₂ :: k₃ :: (ls₂ ++ k₄ :: k₅ :: k₆ :: (ls₃ ++ k₇ :: rest))) h₁ (by simp [hk₁]) (by simp)
    obtain ⟨a', ha', hae⟩ := expr_of_tokens last a hs.2.1 ls₂
      (k₄ :: k₅ :: k₆ :: (ls₃ ++ k₇ :: rest)) h₂ (by simp [hk₄]) (by simp)
    obtain ⟨b', hb', hbe⟩ := expr_of_tokens last b hs.2.2 ls₃ (k₇ :: rest) h₃ (by simp [hk₇]) (by simp)
    refine ⟨.cond c' a' b', ?_, by simp [Expr.erase, hce, hae, hbe]⟩
    exact strip_expr_of_eq (by simp)
      (strip_expr_cond hl₀ hc' hk₁ hk₂ (strip_braced_of hk₃ ha' hk₄) hk₅ (strip_braced_of hk₆ hb' hk₇))
  | .call f args _, hs, ls, rest, h, _, _ => by
    obtain ⟨l, ls', rfl, hl, h'⟩ := List.map_eq_cons_iff.1 h
    obtain ⟨k, lsB, rfl, hk, hB⟩ := List.map_eq_cons_iff.1 h'
    obtain ⟨lsA, lsC, rfl, hA, hC⟩ := List.map_eq_append_iff.1 hB
    obtain ⟨c, rfl, hc⟩ := List.map_eq_singleton_iff.1 hC
    obtain ⟨as', has, hase⟩ := args_of_tokens last args hs.2 lsA rest c hc hA
    refine ⟨.call f as' l.pos, ?_, by simp [Expr.erase, hase]⟩
    have e : l :: k :: (lsA ++ [c]) ++ rest = l :: k :: (lsA ++ c :: rest) := by simp
    rw [e, strip_expr_name last l _ hl, strip_named_call f l.pos hk has]

/-- The canonical tokens of arguments, each followed by its comma, and a closing `)` parse back
to the arguments, up to positions. -/
theorem args_of_tokens (last : Option Position) : ∀ (as : List Expr), Expr.ShapedArgs as → ∀ (ls rest : List Lexeme)
    (k : Lexeme), k.token = .punct .rparen → ls.map Lexeme.token = Expr.argsTokens as →
    ∃ as', strip (args last (ls ++ k :: rest)) = .ok (as', rest) ∧
      Expr.eraseArgs as' = Expr.eraseArgs as
  | [], _, ls, rest, k, hk, h => by
    obtain rfl : ls = [] := List.map_eq_nil_iff.1 h
    exact ⟨[], strip_args_rparen last k rest hk, rfl⟩
  | a :: as, hs, ls, rest, k, hk, h => by
    obtain ⟨ls₁, ls', rfl, h₁, h'⟩ := List.map_eq_append_iff.1 h
    obtain ⟨c, ls₂, rfl, hc, h₂⟩ := List.map_eq_cons_iff.1 h'
    obtain ⟨a', ha, hae⟩ :=
      expr_of_tokens last a hs.1 ls₁ (c :: (ls₂ ++ k :: rest)) h₁ (by simp [hc]) (by simp)
    obtain ⟨as', has, hase⟩ := args_of_tokens last as hs.2 ls₂ rest k hk h₂
    -- an argument never starts with `)`, so the list goes on with it
    rcases ls₁ with _ | ⟨l, ls₁⟩
    · exact absurd h₁.symm (Expr.tokens_ne_nil a)
    have hl : l.token ≠ .punct .rparen := by
      have := Expr.tokens_head_ne_rparen a
      rw [← h₁] at this
      simpa using this
    refine ⟨a' :: as', ?_, by simp [Expr.eraseArgs, hae, hase]⟩
    exact strip_args_of_eq (by simp) (strip_args_cons hl ha hc has)

end

/-! ## Definitions and programs -/

theorem strip_params_of_tokens (last : Option Position) (k : Lexeme) (rest : List Lexeme)
    (hk : k.token = .punct .rparen) :
    ∀ (xs : List String) (ls : List Lexeme), ls.map Lexeme.token = Function.paramsTokens xs →
      strip (params last (ls ++ k :: rest)) = .ok (xs, rest)
  | [], ls, h => by
    obtain rfl : ls = [] := List.map_eq_nil_iff.1 h
    exact strip_params_rparen last k rest hk
  | [x], ls, h => by
    obtain ⟨l, rfl, hl⟩ := List.map_eq_singleton_iff.1 h
    rw [List.singleton_append, strip_params_item last l _ (by simp [hl])]
    have hc : k.token ≠ .punct .comma := by simp [hk]
    simp only [bind, Except.bind, strip_identifier_cons, hl, rest_skipComma_cons, hc, if_false,
      strip_params_rparen last k rest hk, pure, Except.pure]
  | x :: y :: xs, ls, h => by
    obtain ⟨l, ls, rfl, hl, h⟩ := List.map_eq_cons_iff.1 h
    obtain ⟨c, ls, rfl, hc, h⟩ := List.map_eq_cons_iff.1 h
    rw [List.cons_append, strip_params_item last l _ (by simp [hl]), List.cons_append]
    simp only [bind, Except.bind, strip_identifier_cons, hl, rest_skipComma_cons, hc, if_true,
      strip_params_of_tokens last k rest hk (y :: xs) ls h, pure, Except.pure]

/-- A printed definition parses back to itself, up to the positions in its body. -/
theorem strip_definition_of_tokens (last : Option Position) (f : Function) (hf : f.body.Shaped)
    (ls rest : List Lexeme) (h : ls.map Lexeme.token = f.tokens) :
    ∃ f', strip (definition last (ls ++ rest)) = .ok (f', rest) ∧ f'.erase = f.erase := by
  obtain ⟨l, ls, rfl, hl, h⟩ := List.map_eq_cons_iff.1 h
  obtain ⟨m, ls, rfl, hm, h⟩ := List.map_eq_cons_iff.1 h
  obtain ⟨ps, ls, rfl, hps, h⟩ := List.map_eq_append_iff.1 h
  obtain ⟨k, ls, rfl, hk, h⟩ := List.map_eq_cons_iff.1 h
  obtain ⟨q, ls, rfl, hq, h⟩ := List.map_eq_cons_iff.1 h
  obtain ⟨b, ls, rfl, hb, h⟩ := List.map_eq_cons_iff.1 h
  obtain ⟨bs, ls, rfl, hbs, h⟩ := List.map_eq_append_iff.1 h
  obtain ⟨c, ls, rfl, hc, h⟩ := List.map_eq_cons_iff.1 h
  obtain ⟨n, rfl, hn⟩ := List.map_eq_singleton_iff.1 h
  obtain ⟨body, hbody, hbe⟩ :=
    expr_of_tokens last f.body hf bs (c :: n :: rest) hbs (by simp [hc]) (by simp)
  refine ⟨⟨f.name, f.params, body⟩, ?_, by simp [Function.erase, hbe]⟩
  have e : l :: m :: (ps ++ k :: q :: b :: (bs ++ c :: [n])) ++ rest =
      l :: m :: (ps ++ k :: q :: b :: (bs ++ c :: n :: rest)) := by simp
  rw [e, strip_definition]
  simp only [bind, Except.bind, strip_identifier_cons, hl, rest_expect_cons, hm, hq, hn, if_true,
    strip_params_of_tokens last k _ hk f.params ps hps, strip_braced_of hb hbody hc, pure,
    Except.pure]

/-- Printed definitions, followed by lexemes that do not start a definition, parse to the table
that inserts them from left to right, up to the positions in their bodies. -/
theorem definitions_of_tokens (last : Option Position) (rest : List Lexeme)
    (hrest : startsDefinition last rest = .ok false) {ds : List Function}
    {dls : List (List Lexeme)} (hds : ∀ f ∈ ds, f.body.Shaped)
    (h : List.Forall₂ (fun f ls => ls.map Lexeme.token = f.tokens) ds dls) (t : FunctionTable) :
    ∃ ds' : List Function,
      definitions last t (dls.flatten ++ rest) = .ok (ds'.foldl FunctionTable.insert t, rest) ∧
      ds'.map Function.erase = ds.map Function.erase := by
  induction h generalizing t with
  | nil =>
    refine ⟨[], ?_, rfl⟩
    rw [definitions_eq]
    simp only [bind, Except.bind, hrest, Bool.false_eq_true, if_false, List.flatten_nil, List.nil_append,
      List.foldl_nil, pure, Except.pure]
  | @cons f ls ds dls hf _ ih =>
    obtain ⟨f', hf', hfe⟩ :=
      strip_definition_of_tokens last f (hds f (by simp)) ls (dls.flatten ++ rest) hf
    obtain ⟨ds', hds', hdse⟩ := ih (fun g hg => hds g (by simp [hg])) (t.insert f')
    refine ⟨f' :: ds', ?_, by simp [hfe, hdse]⟩
    rw [List.flatten_cons, List.append_assoc, definitions_eq]
    simp only [bind, Except.bind, startsDefinition_function f ls _ hf, if_true, hf', hds',
      List.foldl_cons]

theorem trailing_newlines {nls : List Lexeme} (h : ∀ l ∈ nls, l.token = .punct .newline) :
    trailing nls = .ok () := by
  induction nls with
  | nil => rfl
  | cons l nls ih =>
    rw [trailing, if_pos (h l (by simp))]
    exact ih fun l hl => h l (by simp [hl])

end Parse

open Parse in
/-- Printed definitions, a printed expression and line feeds parse to the expression and the
table of the definitions, up to positions, unless the text ends right after a name. -/
theorem Program.parse_of_tokens {ds : List Function} {e : Expr} {dls : List (List Lexeme)}
    {ls nls : List Lexeme} (hds : ∀ f ∈ ds, f.body.Shaped) (he : e.Shaped)
    (hdls : List.Forall₂ (fun f ls => ls.map Lexeme.token = f.tokens) ds dls)
    (hls : ls.map Lexeme.token = e.tokens) (hnls : ∀ l ∈ nls, l.token = .punct .newline)
    (hend : nls = [] → e.endsInName = false) :
    ∃ p, Program.parse (dls.flatten ++ ls ++ nls) = .ok p ∧ p.main.erase = e.erase ∧
      p.functions.erase = (FunctionTable.ofList ds).erase := by
  rw [Program.parse_eq, List.append_assoc]
  generalize (dls.flatten ++ (ls ++ nls)).getLast?.map (·.pos) = last
  obtain ⟨ds', hds', hdse⟩ := definitions_of_tokens last (ls ++ nls)
    (startsDefinition_expr e ls nls hls hnls) hds hdls .empty
  have hfirst : ∀ l ∈ nls.head?, l.token ≠ .punct .lparen := by
    intro l hl
    rw [hnls l (List.mem_of_mem_head? hl)]
    simp
  obtain ⟨e', he', hee⟩ := expr_of_tokens last e he ls nls hls hfirst hend
  refine ⟨⟨FunctionTable.ofList ds', e'⟩, ?_, hee, ?_⟩
  · simp only [bind, Except.bind, hds', he', trailing_newlines hnls, pure, Except.pure]
    rfl
  · rw [FunctionTable.erase_ofList, FunctionTable.erase_ofList, hdse]

open Parse in
/-- When the text ends right after a trailing name, the parser asks for the lexeme after it and
reports the end of the input at the last lexeme. -/
theorem Program.parse_of_tokens_endsInName {ds : List Function} {e : Expr}
    {dls : List (List Lexeme)} {ls : List Lexeme} (hds : ∀ f ∈ ds, f.body.Shaped)
    (hdls : List.Forall₂ (fun f ls => ls.map Lexeme.token = f.tokens) ds dls)
    (hls : ls.map Lexeme.token = e.tokens) (hend : e.endsInName = true) :
    Program.parse (dls.flatten ++ ls) =
      .error (.unexpectedEnd ((dls.flatten ++ ls).getLast?.map (·.pos))) := by
  rw [Program.parse_eq]
  generalize (dls.flatten ++ ls).getLast?.map (·.pos) = last
  have hstart : startsDefinition last ls = .ok false := by
    have h : startsDefinition last (ls ++ []) = .ok false := startsDefinition_expr e ls [] hls (by simp)
    simpa using h
  obtain ⟨ds', hds', -⟩ := definitions_of_tokens last ls hstart hds hdls .empty
  -- the expression is a name, or `-` and a name, with nothing after it
  have hexpr : strip (expr last ls) = .error (.unexpectedEnd last) := by
    cases e with
    | var x _ =>
      obtain ⟨l, rfl, hl⟩ := List.map_eq_singleton_iff.1 hls
      rw [strip_expr_name last l [] hl, strip_named_nil]
    | neg e _ =>
      cases e with
      | var x _ =>
        obtain ⟨l, ls, rfl, hl, h⟩ := List.map_eq_cons_iff.1 hls
        obtain ⟨m, rfl, hm⟩ := List.map_eq_singleton_iff.1 h
        rw [strip_expr_neg_name last l [] m hl hm, strip_named_nil]
        rfl
      | _ => simp [Expr.endsInName] at hend
    | _ => simp [Expr.endsInName] at hend
  simp only [bind, Except.bind, hds', hexpr]

end Parenthetic
