import Parenthetic.Program.Parse

set_option autoImplicit false

/-! # Canonical renderings

The vocabulary of the round trip between printing and reading. `Expr.tokens` is the sequence of
tokens that the canonical text of an expression (`Expr.render`) consists of, and
`Function.tokens` that of a definition written `name(p₁,…,pₖ)={body}` with its line feed.
`Token.spelling` is the text of one token, and the canonical text is the spelling of the
canonical tokens one after the other (`Expr.toList_render`, `Function.toList_render`).
`Expr.erase` forgets where the nodes stand, so that two expressions can be compared up to
positions.

Not every expression can be read back from its text: a negative constant prints a `-`, a name
with a digit splits into two tokens, and the parser accepts `-` only in front of a number, a
name or a call. `Expr.Shaped` names the expressions the parser builds, which are exactly the ones
the round trip is about.
-/

namespace Parenthetic

/-- The characters that write a token in a canonical text. -/
def Token.spelling : Token → List Char
  | .number v => (toString v.toInt).toList
  | .name x => x.toList
  | .op o => [o.symbol]
  | .punct p => [p.symbol]

/-- A name that is read back as one name: a nonempty run of ASCII letters and underscores. -/
def IsName (x : String) : Prop :=
  x.toList ≠ [] ∧ ∀ c ∈ x.toList, Token.isNameChar c = true

namespace Expr

mutual

/-- The tokens of the canonical text. -/
def tokens : Expr → List Token
  | const v _ => [.number v]
  | neg e _ => .op .sub :: tokens e
  | binary o l r => .punct .lparen :: (tokens l ++ .op o :: (tokens r ++ [.punct .rparen]))
  | cond c a b =>
    .punct .lbracket :: (tokens c ++ .punct .rbracket :: .punct .question :: .punct .lbrace ::
      (tokens a ++ .punct .rbrace :: .punct .colon :: .punct .lbrace ::
        (tokens b ++ [.punct .rbrace])))
  | var x _ => [.name x]
  | call f args _ => .name f :: .punct .lparen :: (argsTokens args ++ [.punct .rparen])

/-- The tokens of call arguments, each followed by a comma. -/
def argsTokens : List Expr → List Token
  | [] => []
  | a :: as => tokens a ++ .punct .comma :: argsTokens as

end

mutual

/-- The expression with every position set to the start of the text. -/
def erase : Expr → Expr
  | const v _ => const v .start
  | neg e _ => neg (erase e) .start
  | binary o l r => binary o (erase l) (erase r)
  | cond c a b => cond (erase c) (erase a) (erase b)
  | var x _ => var x .start
  | call f args _ => call f (eraseArgs args) .start

/-- `erase` on each argument. -/
def eraseArgs : List Expr → List Expr
  | [] => []
  | a :: as => erase a :: eraseArgs as

end

/-- The operands that the parser accepts after a unary `-`. -/
def IsOperand : Expr → Prop
  | const .. | var .. | call .. => True
  | _ => False

mutual

/-- The expressions the parser builds: constants are not negative, `-` stands only in front of
a constant, a reference or a call, and every name is a name the scanner reads back whole. -/
def Shaped : Expr → Prop
  | const v _ => 0 ≤ v.toInt
  | neg e _ => IsOperand e ∧ Shaped e
  | binary _ l r => Shaped l ∧ Shaped r
  | cond c a b => Shaped c ∧ Shaped a ∧ Shaped b
  | var x _ => IsName x
  | call f args _ => IsName f ∧ ShapedArgs args

/-- `Shaped` for each argument. -/
def ShapedArgs : List Expr → Prop
  | [] => True
  | a :: as => Shaped a ∧ ShapedArgs as

end

/-- Whether the canonical text ends with a name: the parser reads a trailing name only when some
lexeme follows it, to see whether a call begins. -/
def endsInName : Expr → Bool
  | var .. => true
  | neg (var ..) _ => true
  | _ => false

mutual

/-- The canonical text is the spelling of the canonical tokens, one after the other. -/
theorem toList_render : ∀ e : Expr, e.render.toList = e.tokens.flatMap Token.spelling
  | const _ _ => by simp [render, tokens, Token.spelling]
  | neg e _ => by simp [render, tokens, Token.spelling, toList_render e, Operator.symbol]
  | binary o l r => by simp [render, tokens, Token.spelling, toList_render l, toList_render r, Punct.symbol]
  | cond c a b => by
    simp [render, tokens, Token.spelling, toList_render c, toList_render a, toList_render b,
      Punct.symbol]
  | var _ _ => by simp [render, tokens, Token.spelling]
  | call f args _ => by
    simp [render, tokens, Token.spelling, toList_renderArgs args, Punct.symbol]

theorem toList_renderArgs : ∀ as : List Expr, (renderArgs as).toList = (argsTokens as).flatMap Token.spelling
  | [] => by simp [renderArgs, argsTokens]
  | a :: as => by
    simp [renderArgs, argsTokens, Token.spelling, toList_render a, toList_renderArgs as, Punct.symbol]

end

theorem tokens_ne_nil (e : Expr) : e.tokens ≠ [] := by
  cases e <;> simp [tokens]

/-- No canonical text starts with `)`. -/
theorem tokens_head_ne_rparen (e : Expr) : e.tokens.head? ≠ some (.punct .rparen) := by
  cases e <;> simp [tokens]

end Expr

namespace Function

/-- Parameter names separated by commas. -/
def paramsTokens : List String → List Token
  | [] => []
  | [x] => [.name x]
  | x :: xs => .name x :: .punct .comma :: paramsTokens xs

/-- The tokens of `name(p₁,…,pₖ)={body}` and the line feed after it. -/
def tokens (f : Function) : List Token :=
  .name f.name :: .punct .lparen :: (paramsTokens f.params ++ .punct .rparen :: .punct .equals ::
    .punct .lbrace :: (f.body.tokens ++ [.punct .rbrace, .punct .newline]))

/-- The text `name(p₁,…,pₖ)={body}`. -/
def render (f : Function) : String :=
  f.name ++ "(" ++ ",".intercalate f.params ++ ")=\x7b" ++ f.body.render ++ "\x7d"

/-- The definition with the positions in its body erased. -/
def erase (f : Function) : Function := { f with body := f.body.erase }

/-- A definition whose text reads back: its names are names and its body is `Expr.Shaped`. -/
def Shaped (f : Function) : Prop :=
  IsName f.name ∧ (∀ x ∈ f.params, IsName x) ∧ f.body.Shaped

@[simp] theorem name_erase (f : Function) : f.erase.name = f.name := rfl

theorem flatMap_spelling_paramsTokens (xs : List String) :
    (paramsTokens xs).flatMap Token.spelling = (",".intercalate xs).toList := by
  induction xs with
  | nil => rfl
  | cons x xs ih =>
    cases xs with
    | nil => simp [paramsTokens, Token.spelling]
    | cons y ys =>
      simp only [paramsTokens] at ih ⊢
      simp [Token.spelling, Punct.symbol, ih, String.toList_intercalate]

/-- A printed definition with its line feed is the spelling of its tokens. -/
theorem toList_render (f : Function) :
    (f.render ++ "\n").toList = f.tokens.flatMap Token.spelling := by
  simp [render, tokens, Token.spelling, flatMap_spelling_paramsTokens, Expr.toList_render,
    Punct.symbol]

end Function

namespace FunctionTable

/-- The table with the positions in every body erased. -/
def erase (t : FunctionTable) : FunctionTable := ⟨t.toList.map Function.erase⟩

theorem map_erase_insertInto (f : Function) (gs : List Function) :
    (insertInto f gs).map Function.erase = insertInto f.erase (gs.map Function.erase) := by
  induction gs with
  | nil => rfl
  | cons g gs ih =>
    unfold insertInto
    by_cases h : f.name = g.name
    · simp [h]
    · by_cases h' : f.name < g.name
      · simp [h, h']
      · simp [h, h', ih]

/-- Erasing positions commutes with building a table: insertion looks at names only. -/
theorem erase_ofList (ds : List Function) :
    (ofList ds).erase = ofList (ds.map Function.erase) := by
  suffices ∀ t : FunctionTable, (ds.foldl insert t).erase = (ds.map Function.erase).foldl insert t.erase by
    exact this empty
  induction ds with
  | nil => intro t; rfl
  | cons d ds ih =>
    intro t
    simp only [List.foldl_cons, List.map_cons]
    rw [ih]
    congr 1
    simp only [erase, insert, map_erase_insertInto]

end FunctionTable

end Parenthetic
