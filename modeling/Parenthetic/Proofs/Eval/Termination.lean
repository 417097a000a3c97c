import Parenthetic.Proofs.Scoping

set_option autoImplicit false

/-! # Only recursion runs out of depth

Evaluation is bounded by the depth to which calls may nest, and a call beyond the bound is
`exhausted`. When the call graph that an expression reaches has no cycle, calls nest no deeper
than the table has functions, so the bound is never met: from that depth on, every bound gives
one and the same outcome, a value or a runtime error.

* `Expr.CallsNestWithin F k e`: every chain of calls that starts in `e` and goes through bodies
  of defined functions has at most `k` calls of defined functions.
* `Expr.callsNestWithin_of_acyclic`: with no cycle, `k` can be the number of functions the
  expression may still call, one fewer with each call, since a body never calls back into its
  own function.
* `Expr.eval_settles_of_acyclic`: the main statement.

The proofs follow the evaluator's two recursions: the expression within one level
(`evalWith_ne_exhausted`), and the bound on calls across levels; together they are the
lexicographic order of the remaining call height and the size of the expression.
-/

namespace Parenthetic

/-- The call graph of a table: an edge from `f` to `g` when the body of `f` calls `g` and `g`
is defined. -/
def FunctionTable.CallEdge (F : FunctionTable) (f g : String) : Prop :=
  F.Calls f g ∧ ∃ gn, F.find? g = some gn

namespace FunctionTable

variable {F : FunctionTable} {f g : String}

/-- A run of calls that ends at a defined function runs through defined functions only. -/
theorem transGen_callEdge_of_calls (h : Relation.TransGen F.Calls f g)
    (hg : ∃ gn, F.find? g = some gn) : Relation.TransGen F.CallEdge f g := by
  induction h with
  | single hfg => exact .single ⟨hfg, hg⟩
  | tail _ hbc ih =>
    -- the middle function calls the last one, so it is defined
    have ⟨bn, hbn, _⟩ := hbc
    exact .tail (ih ⟨bn, hbn⟩) ⟨hbc, hg⟩

/-- A defined function's name is among the names of the table. -/
theorem mem_names_of_find? {fn : Function} (h : F.find? f = some fn) :
    f ∈ F.toList.map (·.name) := by
  have hname : fn.name = f := by simpa using List.find?_some h
  exact List.mem_map.2 ⟨fn, List.mem_of_find?_eq_some h, hname⟩

end FunctionTable

namespace Outcome

theorem bind_ne_exhausted {α β : Type} {x : Outcome α} {f : α → Outcome β}
    (hx : x ≠ .exhausted) (hf : ∀ a, f a ≠ .exhausted) : x >>= f ≠ .exhausted := by
  cases x with
  | done a => exact hf a
  | failed e => simp
  | exhausted => exact absurd rfl hx

end Outcome

namespace Expr

variable {F : FunctionTable}

/-- What a body reaches, the function reaches after one call. -/
theorem transGen_calls_of_body {f g : String} {fn : Function} (hfn : F.find? f = some fn)
    (h : fn.body.Reaches F g) : Relation.TransGen F.Calls f g := by
  obtain ⟨h₀, hh₀, hrt⟩ := h
  exact Relation.TransGen.head' ⟨fn, hfn, hh₀⟩ hrt

/-- Calls from `e` nest at most `k` deep in `F`: with `k = 0` it calls no defined function, and
with `k + 1` the body of every defined function it calls nests at most `k` deep. -/
def CallsNestWithin (F : FunctionTable) : Nat → Expr → Prop
  | 0, e => ∀ f ∈ e.callees, F.find? f = none
  | k + 1, e => ∀ f ∈ e.callees, ∀ fn, F.find? f = some fn → CallsNestWithin F k fn.body

section

variable {body : Frame → Expr → Outcome Int64}

mutual

/-- One level of evaluation runs out of depth only where the evaluation of a called body does. -/
theorem evalWith_ne_exhausted (σ : Frame) : ∀ e : Expr,
    (∀ f ∈ e.callees, ∀ fn, F.find? f = some fn → ∀ τ, body τ fn.body ≠ .exhausted) →
    evalWith F body σ e ≠ .exhausted
  | const _ _, _ => by simp [evalWith]
  | neg e _, h => by
    simp only [evalWith]
    exact Outcome.bind_ne_exhausted (evalWith_ne_exhausted σ e h) fun _ => by simp
  | binary o l r, h => by
    simp only [evalWith]
    refine Outcome.bind_ne_exhausted
      (evalWith_ne_exhausted σ l fun f hf => h f (List.mem_append_left _ hf)) fun a => ?_
    refine Outcome.bind_ne_exhausted
      (evalWith_ne_exhausted σ r fun f hf => h f (List.mem_append_right _ hf)) fun b => ?_
    cases o.apply a b <;> simp
  | cond c a b, h => by
    simp only [evalWith]
    refine Outcome.bind_ne_exhausted
      (evalWith_ne_exhausted σ c fun f hf => h f (by simp [callees, hf])) fun v => ?_
    split
    · exact evalWith_ne_exhausted σ a fun f hf => h f (by simp [callees, hf])
    · exact evalWith_ne_exhausted σ b fun f hf => h f (by simp [callees, hf])
  | var x _, _ => by
    simp only [evalWith]
    cases σ.get? x <;> simp
  | call f args pos, h => by
    simp only [evalWith]
    cases hfind : F.find? f with
    | none => simp
    | some fn =>
      simp only
      split
      · exact Outcome.bind_ne_exhausted
          (evalArgsWith_ne_exhausted σ args fun g hg => h g (by simp [callees, hg]))
          fun _ => h f (by simp [callees]) fn hfind _
      · simp

theorem evalArgsWith_ne_exhausted (σ : Frame) : ∀ as : List Expr,
    (∀ f ∈ calleesArgs as, ∀ fn, F.find? f = some fn → ∀ τ, body τ fn.body ≠ .exhausted) →
    evalArgsWith F body σ as ≠ .exhausted
  | [], _ => by simp [evalArgsWith]
  | a :: as, h => by
    simp only [evalArgsWith]
    refine Outcome.bind_ne_exhausted
      (evalWith_ne_exhausted σ a fun f hf => h f (List.mem_append_left _ hf)) fun v => ?_
    exact Outcome.bind_ne_exhausted
      (evalArgsWith_ne_exhausted σ as fun f hf => h f (List.mem_append_right _ hf)) fun _ => by simp

end

end

/-- An expression whose calls nest at most `k` deep does not run out of depth at the bound `k`. -/
theorem eval_ne_exhausted_of_callsNestWithin :
    ∀ {k : Nat} {e : Expr}, CallsNestWithin F k e → ∀ σ, e.eval F k σ ≠ .exhausted
  | 0, e, h, σ => evalWith_ne_exhausted σ e fun f hf fn hfn => by simp [h f hf] at hfn
  | k + 1, e, h, σ => evalWith_ne_exhausted σ e fun f hf fn hfn τ =>
      eval_ne_exhausted_of_callsNestWithin (h f hf fn hfn) τ

/-- An expression whose calls nest at most `k` deep has the same outcome at every bound from
`k` on. -/
theorem eval_eq_of_callsNestWithin :
    ∀ {k : Nat} {e : Expr}, CallsNestWithin F k e → ∀ d, k ≤ d → ∀ σ, e.eval F d σ = e.eval F k σ
  | 0, e, h, d, _, σ => by
    -- no defined function is called, so the evaluation of bodies is never consulted
    cases d <;> exact evalWith_congr e σ σ (fun _ _ => rfl) (fun _ _ => rfl)
      fun f hf fn hfn => by simp [h f hf] at hfn
  | k + 1, e, h, d + 1, hd, σ =>
    evalWith_congr e σ σ (fun _ _ => rfl) (fun _ _ => rfl) fun f hf fn hfn τ =>
      eval_eq_of_callsNestWithin (h f hf fn hfn) d (by omega) τ

/-- With no cycle among the functions an expression reaches, its calls nest at most as deep as
there are names in any list `A` that holds every defined function it reaches. The induction is
on the length of `A`: past a call of `g`, the body reaches only functions other than `g`, so
`A` without `g` holds them. -/
theorem callsNestWithin_of_acyclic : ∀ (k : Nat) (A : List String) (e : Expr), A.length ≤ k →
    (∀ f, e.Reaches F f → ¬ Relation.TransGen F.CallEdge f f) →
    (∀ f fn, e.Reaches F f → F.find? f = some fn → f ∈ A) → CallsNestWithin F k e
  | 0, A, e, hA, _, hdef => by
    intro f hf
    cases hfind : F.find? f with
    | none => rfl
    | some fn =>
      obtain rfl : A = [] := List.eq_nil_of_length_eq_zero (Nat.le_zero.1 hA)
      exact absurd (hdef f fn (.of_mem hf) hfind) List.not_mem_nil
  | k + 1, A, e, hA, hacyclic, hdef => by
    intro g hg fn hfn
    have hgA : g ∈ A := hdef g fn (.of_mem hg) hfn
    refine callsNestWithin_of_acyclic k (A.erase g) fn.body ?_ ?_ ?_
    · rw [List.length_erase_of_mem hgA]
      omega
    · exact fun f hf => hacyclic f (.of_body hg hfn hf)
    · intro f fn' hf hfn'
      -- the body does not reach back to `g`: that would be a cycle through `g`
      have hne : f ≠ g := by
        rintro rfl
        exact hacyclic f (.of_mem hg)
          (FunctionTable.transGen_callEdge_of_calls (transGen_calls_of_body hfn hf) ⟨fn, hfn⟩)
      exact (List.mem_erase_of_ne hne).2 (hdef f fn' (.of_body hg hfn hf) hfn')

/-- Only recursion runs out of depth. When no function that `e` reaches lies on a cycle of the
call graph, evaluation of `e` settles, in every frame, on a value or a runtime error: every bound
on the depth of calls at least the number of functions of the table gives that outcome, and so
does `evaluate` when the table has no more functions than its bound. -/
theorem eval_settles_of_acyclic {e : Expr}
    (hacyclic : ∀ f, e.Reaches F f → ¬ Relation.TransGen F.CallEdge f f) (σ : Frame) :
    ∃ r : Outcome Int64, ((∃ v, r = .done v) ∨ ∃ ε, r = .failed ε) ∧
      (∀ d, F.toList.length ≤ d → e.eval F d σ = r) ∧
      (F.toList.length ≤ callDepthLimit → e.evaluate F σ = r) := by
  have hnest : CallsNestWithin F F.toList.length e :=
    callsNestWithin_of_acyclic _ (F.toList.map (·.name)) e (by simp) hacyclic
      fun _ _ _ hfn => FunctionTable.mem_names_of_find? hfn
  refine ⟨e.eval F F.toList.length σ, ?_, fun d hd => eval_eq_of_callsNestWithin hnest d hd σ,
    fun hd => eval_eq_of_callsNestWithin hnest _ hd σ⟩
  cases h : e.eval F F.toList.length σ with
  | done v => exact .inl ⟨v, rfl⟩
  | failed ε => exact .inr ⟨ε, rfl⟩
  | exhausted => exact absurd h (eval_ne_exhausted_of_callsNestWithin hnest σ)

/-- `f(41)` with `f(x)={g(x)}` and `g(y)={(y+1)}`: `f` calls `g` and `g` calls nothing, so
evaluation settles from the bound 2 on. -/
theorem eval_settles_of_acyclic_chain :
    (∀ f, (call "f" [const 41 .start] .start).Reaches
        ⟨[⟨"f", ["x"], call "g" [var "x" .start] .start⟩,
          ⟨"g", ["y"], binary .add (var "y" .start) (const 1 .start)⟩]⟩ f →
      ¬ Relation.TransGen (FunctionTable.CallEdge
        ⟨[⟨"f", ["x"], call "g" [var "x" .start] .start⟩,
          ⟨"g", ["y"], binary .add (var "y" .start) (const 1 .start)⟩]⟩) f f) ∧
    ∃ r : Outcome Int64, ((∃ v, r = .done v) ∨ ∃ ε, r = .failed ε) ∧
      (∀ d, 2 ≤ d → (call "f" [const 41 .start] .start).eval
        ⟨[⟨"f", ["x"], call "g" [var "x" .start] .start⟩,
          ⟨"g", ["y"], binary .add (var "y" .start) (const 1 .start)⟩]⟩ d .empty = r) ∧
      (2 ≤ callDepthLimit → (call "f" [const 41 .start] .start).evaluate
        ⟨[⟨"f", ["x"], call "g" [var "x" .start] .start⟩,
          ⟨"g", ["y"], binary .add (var "y" .start) (const 1 .start)⟩]⟩ .empty = r) := by
  -- the only edge of the call graph goes from `f` to `g`
  have hedge : ∀ a b, FunctionTable.CallEdge
      ⟨[⟨"f", ["x"], call "g" [var "x" .start] .start⟩,
        ⟨"g", ["y"], binary .add (var "y" .start) (const 1 .start)⟩]⟩ a b → a = "f" ∧ b = "g" := by
    rintro a b ⟨⟨fn, hfn, hb⟩, -⟩
    simp only [FunctionTable.find?, List.find?_cons, List.find?_nil] at hfn
    split at hfn
    · next h =>
      cases hfn
      simp [callees, calleesArgs] at hb
      exact ⟨(beq_iff_eq.1 h).symm, hb⟩
    · split at hfn
      · cases hfn
        simp [callees] at hb
      · cases hfn
  have hacyclic : ∀ f, (call "f" [const 41 .start] .start).Reaches
      ⟨[⟨"f", ["x"], call "g" [var "x" .start] .start⟩,
        ⟨"g", ["y"], binary .add (var "y" .start) (const 1 .start)⟩]⟩ f →
      ¬ Relation.TransGen (FunctionTable.CallEdge
        ⟨[⟨"f", ["x"], call "g" [var "x" .start] .start⟩,
          ⟨"g", ["y"], binary .add (var "y" .start) (const 1 .start)⟩]⟩) f f := by
    intro f _ hcycle
    obtain ⟨b, hfb, hbf⟩ := Relation.TransGen.head'_iff.1 hcycle
    obtain ⟨rfl, rfl⟩ := hedge _ _ hfb
    rcases Relation.ReflTransGen.cases_head hbf with h | ⟨c, hgc, -⟩
    · exact absurd h (by decide)
    · exact absurd (hedge _ _ hgc).1 (by decide)
  exact ⟨hacyclic, eval_settles_of_acyclic hacyclic .empty⟩

end Expr

end Parenthetic
