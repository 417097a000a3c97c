import Parenthetic.Proofs.Parse.Completeness
import Parenthetic.Proofs.Scan.Spelling

set_option autoImplicit false

/-! # Reading a printed program back

`canonicalText ds e m` is the text of a program as the printer writes it: each definition of
`ds` as `name(p₁,…,pₖ)={body}` and a line feed, then the expression `e`, then `m` line feeds.
`Program.ofSource_canonicalText` reads it back: when the names are names, the constants are not
negative and every `-` stands before a constant, a reference or a call, the program read has
the main expression `e` and the table that inserts `ds` from left to right, both up to
positions. The one exception is a text that ends right after a name (`m = 0` and `e` a
reference, or `-` and a reference): the parser then reports the end of the input.

The proof goes through the tokens. The text is the spelling of the printed tokens
(`canonicalText_toList`), which the scanner reads back since no two neighbours join
(`isChain_canonicalTokens`), and the parser reads the printed tokens back
(`Program.parse_of_tokens`).
-/

namespace Parenthetic

open Token

/-- The text of definitions, each with its line feed, an expression and `m` line feeds. -/
def canonicalText (ds : List Function) (e : Expr) (m : Nat) : String :=
  String.join (ds.map fun f => f.render ++ "\n") ++ e.render ++ String.ofList (List.replicate m '\n')

/-- The tokens of `canonicalText ds e m`. -/
def canonicalTokens (ds : List Function) (e : Expr) (m : Nat) : List Token :=
  ds.flatMap Function.tokens ++ e.tokens ++ List.replicate m (.punct .newline)

theorem canonicalText_toList (ds : List Function) (e : Expr) (m : Nat) :
    (canonicalText ds e m).toList = (canonicalTokens ds e m).flatMap spelling := by
  simp [canonicalText, canonicalTokens, String.toList_join, List.flatMap_assoc,
    ← Function.toList_render, Expr.toList_render, spelling, Punct.symbol, List.flatMap_replicate,
    List.flatMap_map]

/-! ## Neighbours in printed tokens

Only numbers and names can run together, and in a printed text every number or name stands
next to punctuation, an operator or a line feed.
-/

namespace Expr

mutual

theorem isChain_tokens : ∀ e : Expr, e.tokens.IsChain fun t t' => Joins t t' = false
  | const _ _ | var _ _ => List.isChain_singleton _
  | neg e _ => by simp [tokens, List.isChain_cons, isChain_tokens e]
  | binary _ l r => by
    simp [tokens, List.isChain_cons, List.isChain_append, isChain_tokens l, isChain_tokens r]
  | cond c a b => by
    simp [tokens, List.isChain_cons, List.isChain_append, isChain_tokens c, isChain_tokens a,
      isChain_tokens b]
  | call _ args _ => by
    simp [tokens, List.isChain_cons, List.isChain_append, isChain_argsTokens args]

theorem isChain_argsTokens : ∀ as : List Expr, (argsTokens as).IsChain fun t t' => Joins t t' = false
  | [] => List.isChain_nil
  | a :: as => by
    simp [argsTokens, List.isChain_cons, List.isChain_append, isChain_tokens a,
      isChain_argsTokens as]

end

mutual

theorem spellable_tokens : ∀ e : Expr, e.Shaped → ∀ t ∈ e.tokens, t.Spellable
  | const _ _, h => by simpa [tokens, Spellable, Shaped] using h
  | neg e _, h => by
    simpa [tokens, Spellable] using spellable_tokens e h.2
  | binary _ l r, h => by
    simpa [tokens, Spellable, or_imp, forall_and] using
      And.intro (spellable_tokens l h.1) (spellable_tokens r h.2)
  | cond c a b, h => by
    simpa [tokens, Spellable, or_imp, forall_and] using
      And.intro (spellable_tokens c h.1) (And.intro (spellable_tokens a h.2.1) (spellable_tokens b h.2.2))
  | var _ _, h => by simpa [tokens, Spellable, Shaped] using h
  | call _ args _, h => by
    simpa [tokens, Spellable, or_imp, forall_and] using And.intro h.1 (spellable_argsTokens args h.2)

theorem spellable_argsTokens : ∀ as : List Expr, ShapedArgs as → ∀ t ∈ argsTokens as, t.Spellable
  | [], _ => by simp [argsTokens]
  | a :: as, h => by
    simpa [argsTokens, Spellable, or_imp, forall_and] using
      And.intro (spellable_tokens a h.1) (spellable_argsTokens as h.2)

end

end Expr

namespace Function

theorem isChain_paramsTokens (xs : List String) :
    (paramsTokens xs).IsChain fun t t' => Joins t t' = false := by
  induction xs with
  | nil => exact List.isChain_nil
  | cons x xs ih =>
    cases xs with
    | nil => exact List.isChain_singleton _
    | cons y ys =>
      simp only [paramsTokens] at ih ⊢
      simp [List.isChain_cons, ih]

theorem spellable_paramsTokens {xs : List String} (h : ∀ x ∈ xs, IsName x) :
    ∀ t ∈ paramsTokens xs, t.Spellable := by
  induction xs with
  | nil => simp [paramsTokens]
  | cons x xs ih =>
    have hx : IsName x := h x (by simp)
    have hxs := ih fun y hy => h y (by simp [hy])
    cases xs with
    | nil => simpa [paramsTokens, Spellable] using hx
    | cons y ys =>
      simp only [paramsTokens] at hxs ⊢
      intro t ht
      rcases List.mem_cons.1 ht with rfl | ht
      · exact hx
      rcases List.mem_cons.1 ht with rfl | ht
      · trivial
      · exact hxs t ht

theorem isChain_tokens (f : Function) : f.tokens.IsChain fun t t' => Joins t t' = false := by
  simp [tokens, List.isChain_cons, List.isChain_append, isChain_paramsTokens, Expr.isChain_tokens]

theorem spellable_tokens {f : Function} (h : f.Shaped) : ∀ t ∈ f.tokens, t.Spellable := by
  obtain ⟨hname, hparams, hbody⟩ := h
  have hps := spellable_paramsTokens hparams
  have hb := Expr.spellable_tokens f.body hbody
  intro t ht
  simp only [tokens, List.mem_cons, List.mem_append, List.not_mem_nil, or_false] at ht
  rcases ht with rfl | rfl | ht | rfl | rfl | rfl | ht | rfl | rfl
  · exact hname
  · trivial
  · exact hps t ht
  · trivial
  · trivial
  · trivial
  · exact hb t ht
  · trivial
  · trivial

/-- A printed definition ends with its line feed. -/
theorem getLast?_tokens (f : Function) : f.tokens.getLast? = some (.punct .newline) := by
  simp [tokens, List.getLast?_cons, List.getLast?_append]

end Function

/-! ## The text of a program -/

theorem getLast?_flatMap_tokens (ds : List Function) :
    ∀ t ∈ (ds.flatMap Function.tokens).getLast?, t = .punct .newline := by
  induction ds with
  | nil => simp
  | cons f ds ih =>
    intro t ht
    rw [List.flatMap_cons, List.getLast?_append, Function.getLast?_tokens] at ht
    cases h : (ds.flatMap Function.tokens).getLast? with
    | none =>
      rw [h, Option.none_or, Option.mem_some_iff] at ht
      exact ht.symm
    | some u =>
      rw [h, Option.some_or] at ht
      exact ih t (by rw [h]; exact ht)

theorem isChain_flatMap_tokens (ds : List Function) :
    (ds.flatMap Function.tokens).IsChain fun t t' => Joins t t' = false := by
  induction ds with
  | nil => exact List.isChain_nil
  | cons f ds ih =>
    rw [List.flatMap_cons, List.isChain_append]
    refine ⟨f.isChain_tokens, ih, ?_⟩
    -- a definition ends with a line feed, which joins nothing
    intro x hx y _
    rw [Function.getLast?_tokens, Option.mem_some_iff] at hx
    rw [← hx]
    exact joins_punct_left _ _

theorem isChain_canonicalTokens (ds : List Function) (e : Expr) (m : Nat) :
    (canonicalTokens ds e m).IsChain fun t t' => Joins t t' = false := by
  rw [canonicalTokens, List.isChain_append, List.isChain_append]
  refine ⟨⟨isChain_flatMap_tokens ds, e.isChain_tokens, ?_⟩,
    List.isChain_replicate_of_rel m (joins_punct_left _ _), ?_⟩
  · intro x hx y _
    rw [getLast?_flatMap_tokens ds x hx]
    exact joins_punct_left _ _
  · intro x _ y hy
    rw [List.eq_of_mem_replicate (List.mem_of_mem_head? hy)]
    exact joins_punct_right _ _

theorem spellable_canonicalTokens {ds : List Function} {e : Expr} (hds : ∀ f ∈ ds, f.Shaped)
    (he : e.Shaped) (m : Nat) : ∀ t ∈ canonicalTokens ds e m, t.Spellable := by
  intro t ht
  simp only [canonicalTokens, List.mem_append, List.mem_flatMap] at ht
  rcases ht with (⟨f, hf, ht⟩ | ht) | ht
  · exact Function.spellable_tokens (hds f hf) t ht
  · exact Expr.spellable_tokens e he t ht
  · rw [List.eq_of_mem_replicate ht]
    trivial

/-- Lexemes whose tokens are those of a run of definitions split into the lexemes of each. -/
theorem lexemes_of_flatMap_tokens :
    ∀ (ds : List Function) (ls : List Lexeme), ls.map Lexeme.token = ds.flatMap Function.tokens →
      ∃ dls : List (List Lexeme), ls = dls.flatten ∧
        List.Forall₂ (fun f ls => ls.map Lexeme.token = f.tokens) ds dls
  | [], ls, h => ⟨[], List.map_eq_nil_iff.1 h, .nil⟩
  | f :: ds, ls, h => by
    rw [List.flatMap_cons] at h
    obtain ⟨ls₁, ls₂, rfl, h₁, h₂⟩ := List.map_eq_append_iff.1 h
    obtain ⟨dls, rfl, hdls⟩ := lexemes_of_flatMap_tokens ds ls₂ h₂
    exact ⟨ls₁ :: dls, rfl, .cons h₁ hdls⟩

/-! ## The round trip -/

/-- Printing definitions and an expression and reading the text back gives the expression and
the table of the definitions, up to positions, unless the text ends right after a name; then
the end of the input is reported. -/
theorem Program.ofSource_canonicalText (ds : List Function) (e : Expr) (m : Nat)
    (hds : ∀ f ∈ ds, f.Shaped) (he : e.Shaped) :
    (1 ≤ m ∨ e.endsInName = false →
      ∃ p, Program.ofSource (canonicalText ds e m) = .ok p ∧ p.main.erase = e.erase ∧
        p.functions.erase = (FunctionTable.ofList ds).erase) ∧
    (m = 0 → e.endsInName = true →
      ∃ pos, Program.ofSource (canonicalText ds e m) = .error (.unexpectedEnd (some pos))) := by
  obtain ⟨ls, hscan, hmap⟩ := scanFrom_flatMap_spelling (spellable_canonicalTokens hds he m)
    (isChain_canonicalTokens ds e m) Position.start
  have hsource : Program.ofSource (canonicalText ds e m) = Program.parse ls := by
    rw [Program.ofSource, Lexeme.scan, canonicalText_toList, hscan]
    rfl
  rw [hsource]
  -- cut the lexemes where the definitions, the expression and the line feeds meet
  obtain ⟨lsDE, lsN, rfl, hDE, hN⟩ := List.map_eq_append_iff.1 hmap
  obtain ⟨lsD, lsE, rfl, hD, hE⟩ := List.map_eq_append_iff.1 hDE
  obtain ⟨dls, rfl, hdls⟩ := lexemes_of_flatMap_tokens ds lsD hD
  have hbodies : ∀ f ∈ ds, f.body.Shaped := fun f hf => (hds f hf).2.2
  have hnewlines : ∀ l ∈ lsN, l.token = .punct .newline := by
    intro l hl
    have h : l.token ∈ lsN.map Lexeme.token := List.mem_map_of_mem hl
    rw [hN] at h
    exact List.eq_of_mem_replicate h
  have hlen : lsN.length = m := by simpa using congrArg List.length hN
  constructor
  · intro hm
    refine Program.parse_of_tokens hbodies he hdls hE hnewlines fun hnil => ?_
    rw [hnil, List.length_nil] at hlen
    rcases hm with hm | hm
    · omega
    · exact hm
  · intro hm hend
    obtain rfl : lsN = [] := List.eq_nil_of_length_eq_zero (hlen.trans hm)
    rw [List.append_nil, Program.parse_of_tokens_endsInName hbodies hdls hE hend]
    -- the expression has lexemes, so the text has a last one
    obtain ⟨l, hl⟩ : ∃ l, (dls.flatten ++ lsE).getLast? = some l := by
      have hne : lsE ≠ [] := fun h => e.tokens_ne_nil (by rw [← hE, h, List.map_nil])
      rw [List.getLast?_append, List.getLast?_eq_some_getLast hne]
      exact ⟨_, rfl⟩
    exact ⟨l.pos, by rw [hl]; rfl⟩

/-- The call `f((f(1,)+2),)` after a definition of `f` and a line feed reads back, and is not
taken for a definition. -/
theorem Program.ofSource_canonicalText_nested :
    (∀ f ∈ [⟨"f", ["x"], .var "x" .start⟩], Function.Shaped f) ∧
      (Expr.call "f" [.binary .add (.call "f" [.const 1 .start] .start) (.const 2 .start)]
        .start).Shaped ∧
      ∃ p, Program.ofSource (canonicalText [⟨"f", ["x"], .var "x" .start⟩]
          (.call "f" [.binary .add (.call "f" [.const 1 .start] .start) (.const 2 .start)] .start)
          1) = .ok p ∧
        p.main.erase = (Expr.call "f" [.binary .add (.call "f" [.const 1 .start] .start)
          (.const 2 .start)] .start).erase ∧
        p.functions.erase = (FunctionTable.ofList [⟨"f", ["x"], .var "x" .start⟩]).erase := by
  have hf : ∀ f ∈ [(⟨"f", ["x"], .var "x" .start⟩ : Function)], f.Shaped := by
    simp [Function.Shaped, Expr.Shaped, IsName, Token.isNameChar]
  have he : (Expr.call "f" [.binary .add (.call "f" [.const 1 .start] .start) (.const 2 .start)]
      .start).Shaped := by
    simp [Expr.Shaped, Expr.ShapedArgs, IsName, Token.isNameChar]
  exact ⟨hf, he, (Program.ofSource_canonicalText _ _ 1 hf he).1 (Or.inl le_rfl)⟩

end Parenthetic
