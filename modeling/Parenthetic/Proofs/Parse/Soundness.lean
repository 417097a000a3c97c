import Mathlib.Data.List.Forall2
import Parenthetic.Proofs.Parse.Steps

set_option autoImplicit false

/-! # The parser accepts only renderings

A rendering of an expression is its canonical text read as lexemes, except that the comma after
a call argument or a parameter may be left out. `Spells e ls` says that the lexemes `ls` are a
rendering of `e`, and it also fixes where the nodes of `e` stand: a constant, a negation, a
reference and a call carry the position of their first lexeme, so every node carries the
position of the first lexeme of its span that is not `(` or `[` (`Spells.leadPos_eq`).

The relations mirror the parsers one for one (`Spells` for `Parse.expr`, `SpellsBraced` for
`Parse.braced`, `SpellsArgs` and `SpellsParams` for the lists closed by `)`), and each parser is
shown sound for its relation by a strong induction on the number of lexemes. The main statement,
`Program.parse_sound`, splits the lexemes of every parsed program into renderings of its
definitions, a rendering of its expression, and line feeds.
-/

namespace Parenthetic

/-! ## Renderings as a grammar of lexemes -/

/-- What may stand between a list item and the next: nothing, or one comma. -/
def OptComma (c : List Lexeme) : Prop :=
  c = [] ∨ ∃ p, c = [⟨.punct .comma, p⟩]

mutual

/-- `Spells e ls`: the lexemes `ls` are a rendering of `e`, with `e`'s positions taken from them. -/
inductive Spells : Expr → List Lexeme → Prop
  | const (v : Int64) (p : Position) : Spells (.const v p) [⟨.number v, p⟩]
  | neg {e : Expr} {ls : List Lexeme} (p : Position) :
      Spells e ls → Spells (.neg e p) (⟨.op .sub, p⟩ :: ls)
  | binary {l r : Expr} {ls₁ ls₂ : List Lexeme} (o : Operator) (p q s : Position) :
      Spells l ls₁ → Spells r ls₂ →
      Spells (.binary o l r) (⟨.punct .lparen, p⟩ :: (ls₁ ++ ⟨.op o, q⟩ :: (ls₂ ++ [⟨.punct .rparen, s⟩])))
  | cond {c a b : Expr} {ls₁ ls₂ ls₃ : List Lexeme} (p₁ p₂ p₃ p₄ : Position) :
      Spells c ls₁ → SpellsBraced a ls₂ → SpellsBraced b ls₃ →
      Spells (.cond c a b) (⟨.punct .lbracket, p₁⟩ :: (ls₁ ++ ⟨.punct .rbracket, p₂⟩ ::
        ⟨.punct .question, p₃⟩ :: (ls₂ ++ ⟨.punct .colon, p₄⟩ :: ls₃)))
  | var (x : String) (p : Position) : Spells (.var x p) [⟨.name x, p⟩]
  | call {args : List Expr} {ls : List Lexeme} (f : String) (p q : Position) :
      SpellsArgs args ls → Spells (.call f args p) (⟨.name f, p⟩ :: ⟨.punct .lparen, q⟩ :: ls)

/-- `SpellsBraced e ls`: `ls` is a rendering of `e` between braces. -/
inductive SpellsBraced : Expr → List Lexeme → Prop
  | mk {e : Expr} {ls : List Lexeme} (p q : Position) :
      Spells e ls → SpellsBraced e (⟨.punct .lbrace, p⟩ :: (ls ++ [⟨.punct .rbrace, q⟩]))

/-- `SpellsArgs as ls`: `ls` renders the arguments `as`, each followed by at most one comma, and
the closing `)`. -/
inductive SpellsArgs : List Expr → List Lexeme → Prop
  | nil (p : Position) : SpellsArgs [] [⟨.punct .rparen, p⟩]
  | cons {a : Expr} {as : List Expr} {ls₁ c ls₂ : List Lexeme} :
      Spells a ls₁ → OptComma c → SpellsArgs as ls₂ → SpellsArgs (a :: as) (ls₁ ++ (c ++ ls₂))

end

/-- `SpellsParams xs ls`: `ls` renders the parameter names `xs`, each followed by at most one
comma, and the closing `)`. -/
inductive SpellsParams : List String → List Lexeme → Prop
  | nil (p : Position) : SpellsParams [] [⟨.punct .rparen, p⟩]
  | cons {x : String} {xs : List String} {c ls : List Lexeme} (p : Position) :
      OptComma c → SpellsParams xs ls → SpellsParams (x :: xs) (⟨.name x, p⟩ :: (c ++ ls))

/-- `ls` renders the definition `f`: `NAME ( params ) = { body }` and a line feed. -/
def SpellsDefinition (f : Function) (ls : List Lexeme) : Prop :=
  ∃ (p q r s : Position) (ps bs : List Lexeme),
    ls = ⟨.name f.name, p⟩ :: ⟨.punct .lparen, q⟩ ::
      (ps ++ ⟨.punct .equals, r⟩ :: (bs ++ [⟨.punct .newline, s⟩])) ∧
    SpellsParams f.params ps ∧ SpellsBraced f.body bs

/-! ## Positions of nodes -/

/-- The position of the first lexeme that is not `(` or `[`. -/
def leadPos (ls : List Lexeme) : Option Position :=
  (ls.find? fun l => l.token ≠ .punct .lparen ∧ l.token ≠ .punct .lbracket).map (·.pos)

theorem leadPos_append_of_isSome {ls : List Lexeme} (rs : List Lexeme) (h : (leadPos ls).isSome) :
    leadPos (ls ++ rs) = leadPos ls := by
  unfold leadPos at *
  rw [List.find?_append]
  cases hf : ls.find? (fun l => l.token ≠ .punct .lparen ∧ l.token ≠ .punct .lbracket) with
  | none => rw [hf] at h; simp at h
  | some l => rfl

@[simp] theorem leadPos_cons_lparen (p : Position) (ls : List Lexeme) :
    leadPos (⟨.punct .lparen, p⟩ :: ls) = leadPos ls := by
  simp [leadPos]

@[simp] theorem leadPos_cons_lbracket (p : Position) (ls : List Lexeme) :
    leadPos (⟨.punct .lbracket, p⟩ :: ls) = leadPos ls := by
  simp [leadPos]

/-- Every node of a rendered expression stands at the first lexeme of its span that is not `(`
or `[`. -/
theorem Spells.leadPos_eq {e : Expr} {ls : List Lexeme} : Spells e ls → leadPos ls = some e.pos
  | .const v p => by simp [leadPos, Expr.pos]
  | .neg p _ => by simp [leadPos, Expr.pos]
  | .binary o p q s hl _ => by
    have ih := hl.leadPos_eq
    rw [leadPos_cons_lparen, leadPos_append_of_isSome _ (by simp [ih]), ih]
    rfl
  | .cond p₁ p₂ p₃ p₄ hc _ _ => by
    have ih := hc.leadPos_eq
    rw [leadPos_cons_lbracket, leadPos_append_of_isSome _ (by simp [ih]), ih]
    rfl
  | .var x p => by simp [leadPos, Expr.pos]
  | .call f p q _ => by simp [leadPos, Expr.pos]

namespace Parse

variable {last : Option Position}

/-! ## Each parser reads a rendering -/

theorem eq_cons_of_expect {p : Punct} {what : Expectation} {ls r : List Lexeme}
    (h : rest (expect last p what ls) = .ok r) : ∃ q, ls = ⟨.punct p, q⟩ :: r := by
  rcases ls with _ | ⟨⟨t, q⟩, ls⟩
  · rw [rest_expect_nil] at h; cases h
  · rw [rest_expect_cons] at h
    split at h
    · next ht =>
      cases h
      exact ⟨q, by rw [show t = .punct p from ht]⟩
    · cases h

theorem eq_append_of_skipComma {ls r : List Lexeme} (h : rest (skipComma last ls) = .ok r) :
    ∃ c, OptComma c ∧ ls = c ++ r := by
  rcases ls with _ | ⟨⟨t, q⟩, ls⟩
  · rw [rest_skipComma_nil] at h; cases h
  · rw [rest_skipComma_cons] at h
    cases h
    split
    · next ht => exact ⟨[⟨.punct .comma, q⟩], .inr ⟨q, rfl⟩, by rw [show t = .punct .comma from ht]; rfl⟩
    · exact ⟨[], .inl rfl, rfl⟩

theorem eq_cons_of_identifier {ls r : List Lexeme} {x : String} {p : Position}
    (h : strip (identifier last ls) = .ok ((x, p), r)) : ls = ⟨.name x, p⟩ :: r := by
  rcases ls with _ | ⟨⟨t, q⟩, ls⟩
  · rw [strip_identifier_nil] at h; cases h
  · rw [strip_identifier_cons] at h
    cases t <;> cases h
    rfl

theorem spellsParams_of_params : ∀ {ls : List Lexeme} {xs : List String} {r : List Lexeme},
    strip (params last ls) = .ok (xs, r) → ∃ pre, ls = pre ++ r ∧ SpellsParams xs pre
  | [], _, _, h => by rw [strip_params_nil] at h; cases h
  | ⟨t, q⟩ :: ls, xs, r, h => by
    by_cases ht : t = .punct .rparen
    · subst ht
      rw [strip_params_rparen last _ ls rfl] at h
      cases h
      exact ⟨[⟨.punct .rparen, q⟩], rfl, .nil q⟩
    · rw [strip_params_item last _ ls ht] at h
      obtain ⟨⟨⟨x, p⟩, r₁⟩, h₁, h⟩ := bind_eq_ok.1 h
      obtain ⟨r₂, h₂, h⟩ := bind_eq_ok.1 h
      obtain ⟨⟨xs', r₃⟩, h₃, h⟩ := bind_eq_ok.1 h
      cases h
      have hlen₁ := length_of_strip_eq_ok h₁
      obtain ⟨c, hc, rfl⟩ := eq_append_of_skipComma h₂
      obtain ⟨pre, rfl, hs⟩ := spellsParams_of_params h₃
      rw [eq_cons_of_identifier h₁]
      exact ⟨_, by simp, .cons p hc hs⟩
termination_by ls => ls.length
decreasing_by simp only [List.length_append, List.length_cons] at *; omega

mutual

theorem spells_of_expr : ∀ {ls : List Lexeme} {e : Expr} {r : List Lexeme},
    strip (expr last ls) = .ok (e, r) → ∃ pre, ls = pre ++ r ∧ Spells e pre
  | [], _, _, h => by rw [strip_expr_nil] at h; cases h
  | ⟨.number v, p⟩ :: ls, e, r, h => by
    rw [strip_expr_number last _ ls rfl] at h
    cases h
    exact ⟨[⟨.number v, p⟩], rfl, .const v p⟩
  | ⟨.name x, p⟩ :: ls, e, r, h => by
    rw [strip_expr_name last _ ls rfl] at h
    obtain ⟨pre, rfl, hs⟩ := spells_of_named h
    exact ⟨⟨.name x, p⟩ :: pre, rfl, hs⟩
  | [⟨.op o, p⟩], e, r, h => by
    by_cases ho : o = .sub
    · subst ho
      rw [strip_expr_neg_nil last _ rfl] at h; cases h
    · rw [strip_expr_unary last _ [] rfl ho] at h; cases h
  | ⟨.op o, p⟩ :: ⟨t, q⟩ :: ms, e, r, h => by
    by_cases ho : o = .sub
    · subst ho
      cases t with
      | number v =>
        rw [strip_expr_neg_number last _ ms _ rfl rfl] at h
        cases h
        exact ⟨[⟨.op .sub, p⟩, ⟨.number v, q⟩], rfl, .neg p (.const v q)⟩
      | name x =>
        rw [strip_expr_neg_name last _ ms _ rfl rfl] at h
        obtain ⟨⟨e', r'⟩, h', he⟩ := map_eq_ok.1 h
        cases he
        obtain ⟨pre, rfl, hs⟩ := spells_of_named h'
        exact ⟨⟨.op .sub, p⟩ :: ⟨.name x, q⟩ :: pre, rfl, .neg p hs⟩
      | op o' =>
        rw [strip_expr_neg_other last _ ms _ rfl (by simp) (by simp)] at h; cases h
      | punct q' =>
        rw [strip_expr_neg_other last _ ms _ rfl (by simp) (by simp)] at h; cases h
    · rw [strip_expr_unary last _ _ rfl ho] at h; cases h
  | ⟨.punct k, p⟩ :: ls, e, r, h => by
    by_cases hk : k = .lparen
    · subst hk
      rw [strip_expr_lparen last _ ls rfl] at h
      obtain ⟨⟨left, r₁⟩, h₁, h⟩ := bind_eq_ok.1 h
      have hlen₁ := length_of_strip_eq_ok h₁
      rcases r₁ with _ | ⟨⟨t, q⟩, r₂⟩
      · simp [binaryTail] at h
      cases t with
      | op o =>
        simp only [binaryTail] at h
        obtain ⟨⟨right, r₃⟩, h₃, h⟩ := bind_eq_ok.1 h
        obtain ⟨r₄, h₄, h⟩ := bind_eq_ok.1 h
        cases h
        obtain ⟨pre₁, hpre₁, hs₁⟩ := spells_of_expr h₁
        obtain ⟨pre₂, rfl, hs₂⟩ := spells_of_expr h₃
        obtain ⟨s, rfl⟩ := eq_cons_of_expect h₄
        exact ⟨_, by simp [hpre₁], .binary o p q s hs₁ hs₂⟩
      | number v => simp [binaryTail] at h
      | name x => simp [binaryTail] at h
      | punct k' => simp [binaryTail] at h
    by_cases hb : k = .lbracket
    · subst hb
      rw [strip_expr_lbracket last _ ls rfl] at h
      obtain ⟨⟨c, r₁⟩, h₁, h⟩ := bind_eq_ok.1 h
      obtain ⟨r₂, h₂, h⟩ := bind_eq_ok.1 h
      obtain ⟨r₃, h₃, h⟩ := bind_eq_ok.1 h
      obtain ⟨⟨a, r₄⟩, h₄, h⟩ := bind_eq_ok.1 h
      obtain ⟨r₅, h₅, h⟩ := bind_eq_ok.1 h
      obtain ⟨⟨b, r₆⟩, h₆, h⟩ := bind_eq_ok.1 h
      cases h
      have hlen₁ := length_of_strip_eq_ok h₁
      obtain ⟨p₂, rfl⟩ := eq_cons_of_expect h₂
      obtain ⟨p₃, rfl⟩ := eq_cons_of_expect h₃
      have hlen₄ := length_of_strip_eq_ok h₄
      obtain ⟨p₄, rfl⟩ := eq_cons_of_expect h₅
      obtain ⟨pre₁, hpre₁, hs₁⟩ := spells_of_expr h₁
      obtain ⟨pre₄, hpre₄, hs₄⟩ := spellsBraced_of_braced h₄
      obtain ⟨pre₆, rfl, hs₆⟩ := spellsBraced_of_braced h₆
      exact ⟨_, by simp [hpre₁, hpre₄], .cond p p₂ p₃ p₄ hs₁ hs₄ hs₆⟩
    rw [strip_expr_punct last _ ls rfl hk hb] at h; cases h
termination_by ls => 2 * ls.length
decreasing_by all_goals simp only [List.length_cons] at *; omega

theorem spells_of_named : ∀ {x : String} {pos : Position} {ls : List Lexeme} {e : Expr}
    {r : List Lexeme}, strip (named last x pos ls) = .ok (e, r) →
    ∃ pre, ls = pre ++ r ∧ Spells e (⟨.name x, pos⟩ :: pre)
  | _, _, [], _, _, h => by rw [strip_named_nil] at h; cases h
  | x, pos, ⟨t, q⟩ :: ls, e, r, h => by
    by_cases ht : t = .punct .lparen
    · subst ht
      rw [strip_named_lparen last _ ls x pos rfl] at h
      obtain ⟨⟨as, r'⟩, h', he⟩ := map_eq_ok.1 h
      cases he
      obtain ⟨pre, rfl, hs⟩ := spellsArgs_of_args h'
      exact ⟨⟨.punct .lparen, q⟩ :: pre, rfl, .call x pos q hs⟩
    · rw [strip_named_var last _ ls x pos ht] at h
      cases h
      exact ⟨[], rfl, .var x pos⟩
termination_by _ _ ls => 2 * ls.length + 1
decreasing_by all_goals simp only [List.length_cons] at *; omega

theorem spellsBraced_of_braced : ∀ {ls : List Lexeme} {e : Expr} {r : List Lexeme},
    strip (braced last ls) = .ok (e, r) → ∃ pre, ls = pre ++ r ∧ SpellsBraced e pre
  | ls, e, r, h => by
    rw [strip_braced] at h
    obtain ⟨r₁, h₁, h⟩ := bind_eq_ok.1 h
    obtain ⟨⟨e', r₂⟩, h₂, h⟩ := bind_eq_ok.1 h
    obtain ⟨r₃, h₃, h⟩ := bind_eq_ok.1 h
    cases h
    have hlen₁ := length_of_rest_eq_ok h₁
    obtain ⟨pre, rfl, hs⟩ := spells_of_expr h₂
    obtain ⟨p, rfl⟩ := eq_cons_of_expect h₁
    obtain ⟨q, rfl⟩ := eq_cons_of_expect h₃
    exact ⟨_, by simp, .mk p q hs⟩
termination_by ls => 2 * ls.length + 1
decreasing_by omega

theorem spellsArgs_of_args : ∀ {ls : List Lexeme} {as : List Expr} {r : List Lexeme},
    strip (args last ls) = .ok (as, r) → ∃ pre, ls = pre ++ r ∧ SpellsArgs as pre
  | [], _, _, h => by rw [strip_args_nil] at h; cases h
  | ⟨t, q⟩ :: ls, as, r, h => by
    by_cases ht : t = .punct .rparen
    · subst ht
      rw [strip_args_rparen last _ ls rfl] at h
      cases h
      exact ⟨[⟨.punct .rparen, q⟩], rfl, .nil q⟩
    · rw [strip_args_item last _ ls ht] at h
      obtain ⟨⟨a, r₁⟩, h₁, h⟩ := bind_eq_ok.1 h
      obtain ⟨r₂, h₂, h⟩ := bind_eq_ok.1 h
      obtain ⟨⟨as', r₃⟩, h₃, h⟩ := bind_eq_ok.1 h
      cases h
      have hlen₂ : r₂.length < (⟨t, q⟩ :: ls).length :=
        Nat.lt_of_le_of_lt (length_of_rest_eq_ok h₂) (length_of_strip_eq_ok h₁)
      obtain ⟨pre₁, hpre₁, hs₁⟩ := spells_of_expr h₁
      obtain ⟨c, hc, rfl⟩ := eq_append_of_skipComma h₂
      obtain ⟨pre₃, rfl, hs₃⟩ := spellsArgs_of_args h₃
      exact ⟨pre₁ ++ (c ++ pre₃), by rw [hpre₁]; simp, .cons hs₁ hc hs₃⟩
termination_by ls => 2 * ls.length + 1
decreasing_by all_goals simp only [List.length_cons] at *; omega

end

/-! ## Programs -/

theorem spellsDefinition_of_definition {ls : List Lexeme} {f : Function} {r : List Lexeme}
    (h : strip (definition last ls) = .ok (f, r)) : ∃ pre, ls = pre ++ r ∧ SpellsDefinition f pre := by
  rw [strip_definition] at h
  obtain ⟨⟨⟨name, p⟩, r₁⟩, h₁, h⟩ := bind_eq_ok.1 h
  obtain ⟨r₂, h₂, h⟩ := bind_eq_ok.1 h
  obtain ⟨⟨ps, r₃⟩, h₃, h⟩ := bind_eq_ok.1 h
  obtain ⟨r₄, h₄, h⟩ := bind_eq_ok.1 h
  obtain ⟨⟨body, r₅⟩, h₅, h⟩ := bind_eq_ok.1 h
  obtain ⟨r₆, h₆, h⟩ := bind_eq_ok.1 h
  cases h
  obtain rfl := eq_cons_of_identifier h₁
  obtain ⟨q, rfl⟩ := eq_cons_of_expect h₂
  obtain ⟨preP, rfl, hP⟩ := spellsParams_of_params h₃
  obtain ⟨s, rfl⟩ := eq_cons_of_expect h₄
  obtain ⟨preB, rfl, hB⟩ := spellsBraced_of_braced h₅
  obtain ⟨u, rfl⟩ := eq_cons_of_expect h₆
  exact ⟨⟨.name name, p⟩ :: ⟨.punct .lparen, q⟩ ::
      (preP ++ ⟨.punct .equals, s⟩ :: (preB ++ [⟨.punct .newline, u⟩])),
    by simp, p, q, s, u, preP, preB, rfl, hP, hB⟩

theorem spellsDefinitions_of_definitions : ∀ {ls : List Lexeme} {t t' : FunctionTable}
    {r : List Lexeme}, definitions last t ls = .ok (t', r) →
    ∃ ds dss, List.Forall₂ SpellsDefinition ds dss ∧ ls = dss.flatten ++ r ∧
      t' = ds.foldl FunctionTable.insert t
  | ls, t, t', r, h => by
    rw [definitions_eq] at h
    obtain ⟨b, hb, h⟩ := bind_eq_ok.1 h
    cases b with
    | true =>
      rw [if_pos rfl] at h
      obtain ⟨⟨f, r₁⟩, h₁, h⟩ := bind_eq_ok.1 h
      have hlen₁ := length_of_strip_eq_ok h₁
      obtain ⟨ds, dss, hds, rfl, rfl⟩ := spellsDefinitions_of_definitions h
      obtain ⟨pre, rfl, hpre⟩ := spellsDefinition_of_definition h₁
      exact ⟨f :: ds, pre :: dss, .cons hpre hds, by simp, rfl⟩
    | false =>
      cases h
      exact ⟨[], [], .nil, rfl, rfl⟩
termination_by ls => ls.length

theorem newline_of_trailing : ∀ {ls : List Lexeme}, trailing ls = .ok () →
    ∀ l ∈ ls, l.token = .punct .newline
  | [], _ => by simp
  | l :: ls, h => by
    rw [trailing] at h
    split at h
    · next hl =>
      intro l' hl'
      rcases List.mem_cons.1 hl' with rfl | hl'
      · exact hl
      · exact newline_of_trailing h l' hl'
    · cases h

end Parse

/-- Every program the parser accepts is read from renderings: its lexemes are those of its
definitions, each `NAME ( params ) = { body }` and a line feed, then those of its expression,
then line feeds only, where a comma after a parameter or an argument may be missing. The table
holds the definitions inserted from left to right. Every node of the expression and of the
bodies is read from a rendering of its own, nested in those of the nodes around it, and each
rendering leads, past its `(` and `[`, with the lexeme whose position the node carries. -/
theorem Program.parse_sound {ts : List Lexeme} {p : Program} (h : Program.parse ts = .ok p) :
    (∃ (ds : List Function) (dss : List (List Lexeme)) (main nls : List Lexeme),
      ts = dss.flatten ++ main ++ nls ∧ List.Forall₂ SpellsDefinition ds dss ∧
      Spells p.main main ∧ (∀ l ∈ nls, l.token = .punct .newline) ∧
      p.functions = FunctionTable.ofList ds) ∧
    ∀ (e : Expr) (ls : List Lexeme), Spells e ls → leadPos ls = some e.pos := by
  refine ⟨?_, fun _ _ he => he.leadPos_eq⟩
  rw [Program.parse_eq] at h
  obtain ⟨⟨t, r₁⟩, h₁, h⟩ := Parse.bind_eq_ok.1 h
  obtain ⟨⟨e, r₂⟩, h₂, h⟩ := Parse.bind_eq_ok.1 h
  obtain ⟨u, h₃, h⟩ := Parse.bind_eq_ok.1 h
  cases h
  obtain ⟨ds, dss, hds, rfl, rfl⟩ := Parse.spellsDefinitions_of_definitions h₁
  obtain ⟨main, rfl, hmain⟩ := Parse.spells_of_expr h₂
  exact ⟨ds, dss, main, r₂, by simp, hds, hmain, Parse.newline_of_trailing h₃, rfl⟩

/-- The definition `f(x)={x}` and the call `f(1)`, read back as renderings. -/
theorem Program.parse_sound_call :
    Program.parse [⟨.name "f", ⟨1, 2⟩⟩, ⟨.punct .lparen, ⟨1, 2⟩⟩, ⟨.name "x", ⟨1, 4⟩⟩,
        ⟨.punct .rparen, ⟨1, 4⟩⟩, ⟨.punct .equals, ⟨1, 5⟩⟩, ⟨.punct .lbrace, ⟨1, 6⟩⟩,
        ⟨.name "x", ⟨1, 8⟩⟩, ⟨.punct .rbrace, ⟨1, 8⟩⟩, ⟨.punct .newline, ⟨1, 9⟩⟩,
        ⟨.name "f", ⟨2, 2⟩⟩, ⟨.punct .lparen, ⟨2, 2⟩⟩, ⟨.number 1, ⟨2, 4⟩⟩,
        ⟨.punct .rparen, ⟨2, 4⟩⟩] =
      .ok ⟨.ofList [⟨"f", ["x"], .var "x" ⟨1, 8⟩⟩], .call "f" [.const 1 ⟨2, 4⟩] ⟨2, 2⟩⟩ ∧
    ∃ (ds : List Function) (dss : List (List Lexeme)) (main nls : List Lexeme),
      [⟨.name "f", ⟨1, 2⟩⟩, ⟨.punct .lparen, ⟨1, 2⟩⟩, ⟨.name "x", ⟨1, 4⟩⟩,
        ⟨.punct .rparen, ⟨1, 4⟩⟩, ⟨.punct .equals, ⟨1, 5⟩⟩, ⟨.punct .lbrace, ⟨1, 6⟩⟩,
        ⟨.name "x", ⟨1, 8⟩⟩, ⟨.punct .rbrace, ⟨1, 8⟩⟩, ⟨.punct .newline, ⟨1, 9⟩⟩,
        ⟨.name "f", ⟨2, 2⟩⟩, ⟨.punct .lparen, ⟨2, 2⟩⟩, ⟨.number 1, ⟨2, 4⟩⟩,
        ⟨.punct .rparen, ⟨2, 4⟩⟩] = dss.flatten ++ main ++ nls ∧
      List.Forall₂ SpellsDefinition ds dss ∧ Spells (.call "f" [.const 1 ⟨2, 4⟩] ⟨2, 2⟩) main ∧
      (∀ l ∈ nls, l.token = .punct .newline) ∧
      FunctionTable.ofList [⟨"f", ["x"], .var "x" ⟨1, 8⟩⟩] = FunctionTable.ofList ds := by
  have h : Program.parse [⟨.name "f", ⟨1, 2⟩⟩, ⟨.punct .lparen, ⟨1, 2⟩⟩, ⟨.name "x", ⟨1, 4⟩⟩,
        ⟨.punct .rparen, ⟨1, 4⟩⟩, ⟨.punct .equals, ⟨1, 5⟩⟩, ⟨.punct .lbrace, ⟨1, 6⟩⟩,
        ⟨.name "x", ⟨1, 8⟩⟩, ⟨.punct .rbrace, ⟨1, 8⟩⟩, ⟨.punct .newline, ⟨1, 9⟩⟩,
        ⟨.name "f", ⟨2, 2⟩⟩, ⟨.punct .lparen, ⟨2, 2⟩⟩, ⟨.number 1, ⟨2, 4⟩⟩,
        ⟨.punct .rparen, ⟨2, 4⟩⟩] =
      .ok ⟨.ofList [⟨"f", ["x"], .var "x" ⟨1, 8⟩⟩], .call "f" [.const 1 ⟨2, 4⟩] ⟨2, 2⟩⟩ := by
    simp [Program.parse, Parse.definitions, Parse.startsDefinition, Parse.afterClose,
      Parse.definition, Parse.identifier, Parse.expect, Parse.params, Parse.braced, Parse.expr,
      Parse.named, Parse.args, Parse.trailing, Parse.skipComma, Parse.tail, FunctionTable.ofList,
      bind, Except.bind, pure, Except.pure]
  exact ⟨h, (Program.parse_sound h).1⟩

end Parenthetic
