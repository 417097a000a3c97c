import Parenthetic.Proofs.Canonical
import Parenthetic.Proofs.Parse.Steps

set_option autoImplicit false

/-! # The definition look-ahead on canonical texts

`Parse.startsDefinition` decides whether a definition starts by skipping to the `)` that
balances the first `(` and looking at what follows. On canonical tokens that skip is exact: the
parentheses of every printed expression and parameter list are balanced (`Token.depthAfter`
comes back to the depth it started from), so the look-ahead passes over them whatever follows.
Hence a printed definition is always recognised as one, and a printed expression followed by
line feeds never is, even a call whose arguments hold parentheses of their own.
-/

namespace Parenthetic

namespace Token

/-- The depth at which a reader that starts at depth `d` leaves the tokens, counting `(` up and
`)` down, or `none` when a `)` closes a parenthesis opened before them. -/
def depthAfter : Nat → List Token → Option Nat
  | d, [] => some d
  | d, t :: ts =>
    match t, d with
    | .punct .lparen, _ => depthAfter (d + 1) ts
    | .punct .rparen, 0 => none
    | .punct .rparen, d + 1 => depthAfter d ts
    | _, _ => depthAfter d ts

section

variable {t : Token} {ts us : List Token} {d : Nat}

@[simp] theorem depthAfter_nil : depthAfter d [] = some d := rfl

@[simp] theorem depthAfter_lparen :
    depthAfter d (.punct .lparen :: ts) = depthAfter (d + 1) ts := rfl

@[simp] theorem depthAfter_rparen_zero : depthAfter 0 (.punct .rparen :: ts) = none := rfl

@[simp] theorem depthAfter_rparen_succ :
    depthAfter (d + 1) (.punct .rparen :: ts) = depthAfter d ts := rfl

theorem depthAfter_plain (h₁ : t ≠ .punct .lparen) (h₂ : t ≠ .punct .rparen) :
    depthAfter d (t :: ts) = depthAfter d ts := by
  rw [depthAfter.eq_def]
  dsimp only
  split <;> simp_all

/-- Reading two lists is reading the first and then, from where it left, the second. -/
theorem depthAfter_append : depthAfter d (ts ++ us) = (depthAfter d ts).bind (depthAfter · us) := by
  induction ts generalizing d with
  | nil => rfl
  | cons t ts ih =>
    by_cases h₁ : t = .punct .lparen
    · subst h₁
      simp [ih]
    by_cases h₂ : t = .punct .rparen
    · subst h₂
      cases d <;> simp [ih]
    · simp only [List.cons_append, depthAfter_plain h₁ h₂, ih]

end

end Token

open Token

namespace Expr

mutual

/-- The parentheses of a printed expression are balanced. -/
theorem depthAfter_tokens : ∀ (e : Expr) (d : Nat), depthAfter d e.tokens = some d
  | .const .., _ | .var .., _ => rfl
  | .neg e _, d => by
    rw [tokens, depthAfter_plain (by simp) (by simp), depthAfter_tokens e d]
  | .binary o l r, d => by
    simp [tokens, depthAfter_append, depthAfter_plain, depthAfter_tokens l, depthAfter_tokens r]
  | .cond c a b, d => by
    simp [tokens, depthAfter_append, depthAfter_plain, depthAfter_tokens c, depthAfter_tokens a,
      depthAfter_tokens b]
  | .call f args _, d => by
    simp [tokens, depthAfter_append, depthAfter_plain, depthAfter_argsTokens args]

theorem depthAfter_argsTokens : ∀ (as : List Expr) (d : Nat), depthAfter d (argsTokens as) = some d
  | [], _ => rfl
  | a :: as, d => by
    simp [argsTokens, depthAfter_append, depthAfter_plain, depthAfter_tokens a,
      depthAfter_argsTokens as]

end

end Expr

theorem Function.depthAfter_paramsTokens (xs : List String) (d : Nat) :
    depthAfter d (Function.paramsTokens xs) = some d := by
  induction xs with
  | nil => rfl
  | cons x xs ih =>
    cases xs with
    | nil => rfl
    | cons y ys => simp [Function.paramsTokens, depthAfter_plain, ← ih]

namespace Parse

section

variable {l m k : Lexeme} {ls rest : List Lexeme} {d : Nat}

theorem afterClose_cons_lparen (h : l.token = .punct .lparen) :
    afterClose d (l :: ls) = afterClose (d + 1) ls := by
  simp only [afterClose, h]

theorem afterClose_cons_rparen_zero (h : l.token = .punct .rparen) :
    afterClose 0 (l :: ls) = some ls := by
  simp only [afterClose, h]

theorem afterClose_cons_rparen_succ (h : l.token = .punct .rparen) :
    afterClose (d + 1) (l :: ls) = afterClose d ls := by
  simp only [afterClose, h]

theorem afterClose_cons_plain (h₁ : l.token ≠ .punct .lparen) (h₂ : l.token ≠ .punct .rparen) :
    afterClose d (l :: ls) = afterClose d ls := by
  rw [afterClose.eq_def]
  dsimp only
  split <;> simp_all

/-- The look-ahead passes over lexemes whose parentheses do not close one opened before them,
and goes on at the depth they leave it. -/
theorem afterClose_append {d' : Nat} (h : depthAfter d (ls.map Lexeme.token) = some d') :
    afterClose d (ls ++ rest) = afterClose d' rest := by
  induction ls generalizing d with
  | nil =>
    obtain rfl : d = d' := by simpa using h
    rfl
  | cons l ls ih =>
    rw [List.map_cons] at h
    rw [List.cons_append]
    by_cases h₁ : l.token = .punct .lparen
    · rw [h₁, depthAfter_lparen] at h
      rw [afterClose_cons_lparen h₁, ih h]
    by_cases h₂ : l.token = .punct .rparen
    · rw [h₂] at h
      cases d with
      | zero => simp at h
      | succ d =>
        rw [depthAfter_rparen_succ] at h
        rw [afterClose_cons_rparen_succ h₂, ih h]
    · rw [depthAfter_plain h₁ h₂] at h
      rw [afterClose_cons_plain h₁ h₂, ih h]

variable {last : Option Position}

theorem startsDefinition_equals {x : String} {r : List Lexeme} (hl : l.token = .name x)
    (hm : m.token = .punct .lparen) (h : afterClose 0 ls = some (k :: r))
    (hk : k.token = .punct .equals) : startsDefinition last (l :: m :: ls) = .ok true := by
  rcases l with ⟨_, _⟩
  rcases m with ⟨_, _⟩
  rcases k with ⟨_, _⟩
  subst hl hm hk
  simp only [startsDefinition, h]

theorem startsDefinition_not_equals {x : String} {r : List Lexeme} (hl : l.token = .name x)
    (hm : m.token = .punct .lparen) (h : afterClose 0 ls = some r)
    (hr : ∀ k ∈ r.head?, k.token ≠ .punct .equals) :
    startsDefinition last (l :: m :: ls) = .ok false := by
  rcases l with ⟨_, _⟩
  rcases m with ⟨_, _⟩
  subst hl hm
  simp only [startsDefinition, h]
  split <;> simp_all

/-- Lexemes that do not start with a name and `(` never start a definition. -/
theorem startsDefinition_not_call
    (h : ∀ x, l.token = .name x → ∀ m ∈ ls.head?, m.token ≠ .punct .lparen) :
    startsDefinition last (l :: ls) = .ok false := by
  rcases l with ⟨t, p⟩
  rcases t with _ | x | _ | _
  · rfl
  · rcases ls with _ | ⟨⟨t', q⟩, ls⟩
    · rfl
    have ht' : t' ≠ .punct .lparen := h x rfl _ rfl
    rcases t' with _ | _ | _ | p'
    · rfl
    · rfl
    · rfl
    · cases p' with
      | lparen => exact absurd rfl ht'
      | _ => rfl
  · rfl
  · rfl

/-- The look-ahead recognises a printed definition, whatever follows it. -/
theorem startsDefinition_function (f : Function) (ls rest : List Lexeme)
    (h : ls.map Lexeme.token = f.tokens) : startsDefinition last (ls ++ rest) = .ok true := by
  obtain ⟨l, ls, rfl, hl, h⟩ := List.map_eq_cons_iff.1 h
  obtain ⟨m, ls, rfl, hm, h⟩ := List.map_eq_cons_iff.1 h
  obtain ⟨ps, ls, rfl, hps, h⟩ := List.map_eq_append_iff.1 h
  obtain ⟨k, ls, rfl, hk, h⟩ := List.map_eq_cons_iff.1 h
  obtain ⟨q, ls, rfl, hq, -⟩ := List.map_eq_cons_iff.1 h
  -- the parameters are balanced, so the look-ahead stops at the `)` after them
  have hclose : afterClose 0 (ps ++ k :: q :: ls ++ rest) = some (q :: (ls ++ rest)) := by
    rw [List.append_assoc, afterClose_append (by rw [hps]; exact Function.depthAfter_paramsTokens _ 0),
      List.cons_append, afterClose_cons_rparen_zero hk, List.cons_append]
  exact startsDefinition_equals hl hm hclose hq

/-- The look-ahead does not take a printed expression followed by line feeds for a definition,
not even a call: what follows the `)` that closes its arguments is a line feed or nothing. -/
theorem startsDefinition_expr (e : Expr) (ls nls : List Lexeme)
    (h : ls.map Lexeme.token = e.tokens) (hn : ∀ l ∈ nls, l.token = .punct .newline) :
    startsDefinition last (ls ++ nls) = .ok false := by
  have hnl : ∀ l ∈ nls.head?, l.token ≠ .punct .lparen ∧ l.token ≠ .punct .equals := by
    intro l hl
    rw [hn l (List.mem_of_mem_head? hl)]
    simp
  cases e with
  | call f args _ =>
    obtain ⟨l, ls, rfl, hl, h⟩ := List.map_eq_cons_iff.1 h
    obtain ⟨m, ls, rfl, hm, h⟩ := List.map_eq_cons_iff.1 h
    obtain ⟨as, ls, rfl, has, h⟩ := List.map_eq_append_iff.1 h
    obtain ⟨c, rfl, hc⟩ := List.map_eq_singleton_iff.1 h
    have hclose : afterClose 0 (as ++ [c] ++ nls) = some nls := by
      rw [List.append_assoc, afterClose_append (by rw [has]; exact Expr.depthAfter_argsTokens _ 0),
        List.singleton_append, afterClose_cons_rparen_zero hc]
    exact startsDefinition_not_equals hl hm hclose (fun k hk => (hnl k hk).2)
  | var x _ =>
    obtain ⟨l, rfl, hl⟩ := List.map_eq_singleton_iff.1 h
    exact startsDefinition_not_call fun _ _ m hm => (hnl m hm).1
  | const _ _ | neg _ _ | binary _ _ _ | cond _ _ _ =>
    obtain ⟨l, ls, rfl, hl, -⟩ := List.map_eq_cons_iff.1 h
    exact startsDefinition_not_call fun x hx => absurd (hl.symm.trans hx) (by simp)

end

end Parse

end Parenthetic
