import Mathlib.Data.List.Forall2
import Parenthetic.Eval

set_option autoImplicit false

/-! # Where runtime errors come from

A runtime error is raised by one node, and every node around it passes it on as it is: no
negation, binary operation, conditional or call replaces an error from below or wraps it in
one of its own.

* `Expr.Reached F σ e τ n`: evaluating `e` in the frame `σ` comes to evaluate the node `n` in the
  frame `τ`. A node is reached when everything evaluated before it has a value: the right operand
  after the left one, a branch after the condition that selects it, an argument after those
  before it, and the body of a called function, in the frame of its parameters, after all
  arguments; the lookup of the function and the count of its arguments come first.
* `Expr.Raises F τ n ε`: the node `n`, evaluated in `τ`, raises `ε` itself. A reference raises
  `unboundName` when `τ` does not bind it; a call raises `undefinedFunction` or `arityMismatch`;
  a binary operation whose operands have values raises the fault of its operator, quoting its
  own text and row.

`Expr.evaluate_failed_origin`: when an evaluation fails with `ε`, some reached node raises
exactly `ε`, and that node stands in the expression or in the body of a function of the table.
The proof follows the two recursions of the evaluator, the expression within one level and the
bound on calls across levels, as `Expr.eval_congr` does.
-/

namespace Parenthetic

/-- A bind fails when its first step fails, or when the first step has a value and the rest
fails. -/
theorem Outcome.bind_eq_failed {α β : Type} {x : Outcome α} {f : α → Outcome β}
    {e : RuntimeError} : x >>= f = .failed e ↔ x = .failed e ∨ ∃ a, x = .done a ∧ f a = .failed e := by
  cases x <;> simp

namespace Expr

mutual

/-- The nodes of an expression: itself, and the nodes of its parts and of its arguments. -/
def nodes : Expr → List Expr
  | const v pos => [const v pos]
  | neg e pos => neg e pos :: nodes e
  | binary o l r => binary o l r :: (nodes l ++ nodes r)
  | cond c a b => cond c a b :: (nodes c ++ nodes a ++ nodes b)
  | var x pos => [var x pos]
  | call f args pos => call f args pos :: nodesArgs args

/-- The nodes of each argument. -/
def nodesArgs : List Expr → List Expr
  | [] => []
  | a :: as => nodes a ++ nodesArgs as

end

theorem mem_nodes_self (e : Expr) : e ∈ e.nodes := by
  cases e <;> simp [nodes]

theorem nodes_subset_nodesArgs {a : Expr} : ∀ {as : List Expr}, a ∈ as → a.nodes ⊆ nodesArgs as
  | _ :: _, .head _ => fun _ hn => by simp [nodesArgs, hn]
  | _ :: _, .tail _ h => fun _ hn => by simp [nodesArgs, nodes_subset_nodesArgs h hn]

/-- `e` evaluates to `v` in `σ` under some bound on calls. -/
def Yields (F : FunctionTable) (σ : Frame) (e : Expr) (v : Int64) : Prop :=
  ∃ depth, e.eval F depth σ = .done v

/-- Evaluating `e` in `σ` comes to evaluate the node `n` in `τ`. -/
inductive Reached (F : FunctionTable) : Frame → Expr → Frame → Expr → Prop
  /-- The expression itself. -/
  | self (σ : Frame) (e : Expr) : Reached F σ e σ e
  /-- Within the operand of a negation. -/
  | neg {σ τ : Frame} {e n : Expr} {pos : Position} :
      Reached F σ e τ n → Reached F σ (.neg e pos) τ n
  /-- Within the left operand. -/
  | left {σ τ : Frame} {o : Operator} {l r n : Expr} :
      Reached F σ l τ n → Reached F σ (.binary o l r) τ n
  /-- Within the right operand, once the left one has a value. -/
  | right {σ τ : Frame} {o : Operator} {l r n : Expr} {a : Int64} :
      Yields F σ l a → Reached F σ r τ n → Reached F σ (.binary o l r) τ n
  /-- Within the condition. -/
  | condition {σ τ : Frame} {c a b n : Expr} :
      Reached F σ c τ n → Reached F σ (.cond c a b) τ n
  /-- Within the first branch, when the condition is nonzero. -/
  | ifBranch {σ τ : Frame} {c a b n : Expr} {v : Int64} :
      Yields F σ c v → v ≠ 0 → Reached F σ a τ n → Reached F σ (.cond c a b) τ n
  /-- Within the second branch, when the condition is zero. -/
  | elseBranch {σ τ : Frame} {c a b n : Expr} :
      Yields F σ c 0 → Reached F σ b τ n → Reached F σ (.cond c a b) τ n
  /-- Within an argument of a call of a function that is defined and takes that many arguments,
  once the arguments before it have values. -/
  | arg {σ τ : Frame} {f : String} {args before after : List Expr} {a n : Expr} {pos : Position}
      {fn : Function} {vs : List Int64} :
      F.find? f = some fn → args.length = fn.arity → args = before ++ a :: after →
      List.Forall₂ (Yields F σ) before vs → Reached F σ a τ n → Reached F σ (.call f args pos) τ n
  /-- Within the body of the called function, in the frame that binds its parameters to the
  values of the arguments. -/
  | body {σ τ : Frame} {f : String} {args : List Expr} {n : Expr} {pos : Position} {fn : Function}
      {vs : List Int64} :
      F.find? f = some fn → args.length = fn.arity → List.Forall₂ (Yields F σ) args vs →
      Reached F (Frame.ofList (fn.params.zip vs)) fn.body τ n → Reached F σ (.call f args pos) τ n

/-- The node `n`, evaluated in `τ`, raises `ε` itself. -/
inductive Raises (F : FunctionTable) (τ : Frame) : Expr → RuntimeError → Prop
  /-- A reference to a name the frame does not bind. -/
  | unboundName {x : String} {pos : Position} :
      τ.get? x = none → Raises F τ (.var x pos) (.unboundName x pos.row)
  /-- A call of a function the table does not define. -/
  | undefinedFunction {f : String} {args : List Expr} {pos : Position} :
      F.find? f = none → Raises F τ (.call f args pos) (.undefinedFunction f pos.row)
  /-- A call with another number of arguments than the function has parameters. -/
  | arityMismatch {f : String} {args : List Expr} {pos : Position} {fn : Function} :
      F.find? f = some fn → args.length ≠ fn.arity →
      Raises F τ (.call f args pos) (.arityMismatch f fn.arity args.length pos.row)
  /-- A binary operation whose operator faults on the values of its operands. -/
  | arithmetic {o : Operator} {l r : Expr} {a b : Int64} {fault : ArithFault} :
      Yields F τ l a → Yields F τ r b → o.apply a b = .error fault →
      Raises F τ (.binary o l r) (.arithmetic (Expr.binary o l r).render fault (Expr.binary o l r).row)

/-- A reached node is a node of the expression or of the body of a function of the table. -/
theorem Reached.mem_nodes {F : FunctionTable} {σ τ : Frame} {e n : Expr}
    (h : Reached F σ e τ n) :
    n ∈ e.nodes ∨ ∃ f fn, F.find? f = some fn ∧ n ∈ fn.body.nodes := by
  induction h with
  | self σ e => exact .inl (mem_nodes_self e)
  | neg _ ih => exact ih.imp_left fun hn => by simp [nodes, hn]
  | left _ ih => exact ih.imp_left fun hn => by simp [nodes, hn]
  | right _ _ ih => exact ih.imp_left fun hn => by simp [nodes, hn]
  | condition _ ih => exact ih.imp_left fun hn => by simp [nodes, hn]
  | ifBranch _ _ _ ih => exact ih.imp_left fun hn => by simp [nodes, hn]
  | elseBranch _ _ ih => exact ih.imp_left fun hn => by simp [nodes, hn]
  | arg _ _ hargs _ _ ih =>
    refine ih.imp_left fun hn => List.mem_cons_of_mem _ (nodes_subset_nodesArgs ?_ hn)
    simp [hargs]
  | @body _ _ f _ _ _ fn _ hfn _ _ _ ih => exact .inr (ih.elim (fun hn => ⟨f, fn, hfn, hn⟩) id)

section

variable {F : FunctionTable}

/-- Arguments that evaluate to values yield them one by one. -/
theorem forall₂_yields_of_evalArgsWith {d : Nat} {body : Frame → Expr → Outcome Int64}
    (hyield : ∀ σ e, evalWith F body σ e = e.eval F d σ) (σ : Frame) :
    ∀ {as : List Expr} {vs : List Int64}, evalArgsWith F body σ as = .done vs →
      List.Forall₂ (Yields F σ) as vs
  | [], vs, h => by
    obtain rfl : [] = vs := by simpa [evalArgsWith] using h
    exact .nil
  | a :: as, vs, h => by
    simp only [evalArgsWith] at h
    cases ha : evalWith F body σ a with
    | failed _ | exhausted => simp [ha] at h
    | done v =>
      rw [ha, Outcome.done_bind] at h
      cases has : evalArgsWith F body σ as with
      | failed _ | exhausted => simp [has] at h
      | done ws =>
        obtain rfl : v :: ws = vs := by simpa [has] using h
        exact .cons ⟨d, (hyield σ a).symm.trans ha⟩ (forall₂_yields_of_evalArgsWith hyield σ has)

mutual

/-- One level of evaluation fails only at a reached node that raises the error itself, given that
the evaluation of bodies does. -/
theorem origin_of_evalWith {d : Nat} {body : Frame → Expr → Outcome Int64}
    (hyield : ∀ σ e, evalWith F body σ e = e.eval F d σ)
    (hbody : ∀ σ e ε, body σ e = .failed ε → ∃ τ n, Reached F σ e τ n ∧ Raises F τ n ε) :
    ∀ (σ : Frame) (e : Expr) (ε : RuntimeError), evalWith F body σ e = .failed ε →
      ∃ τ n, Reached F σ e τ n ∧ Raises F τ n ε
  | σ, const _ _, ε, h => by simp [evalWith] at h
  | σ, neg e _, ε, h => by
    simp only [evalWith] at h
    obtain he | ⟨_, _, h⟩ := Outcome.bind_eq_failed.1 h
    · obtain ⟨τ, n, hreach, hraise⟩ := origin_of_evalWith hyield hbody σ e ε he
      exact ⟨τ, n, .neg hreach, hraise⟩
    · simp at h
  | σ, binary o l r, ε, h => by
    simp only [evalWith] at h
    obtain hl | ⟨a, ha, h⟩ := Outcome.bind_eq_failed.1 h
    · obtain ⟨τ, n, hreach, hraise⟩ := origin_of_evalWith hyield hbody σ l ε hl
      exact ⟨τ, n, .left hreach, hraise⟩
    have hya : Yields F σ l a := ⟨d, (hyield σ l).symm.trans ha⟩
    obtain hr | ⟨b, hb, h⟩ := Outcome.bind_eq_failed.1 h
    · obtain ⟨τ, n, hreach, hraise⟩ := origin_of_evalWith hyield hbody σ r ε hr
      exact ⟨τ, n, .right hya hreach, hraise⟩
    have hyb : Yields F σ r b := ⟨d, (hyield σ r).symm.trans hb⟩
    -- both operands have values: the operator itself faults, at this node
    cases happ : o.apply a b with
    | ok v => simp [happ] at h
    | error f =>
      obtain rfl : RuntimeError.arithmetic (binary o l r).render f (binary o l r).row = ε := by
        simpa [happ] using h
      exact ⟨σ, _, .self σ _, .arithmetic hya hyb happ⟩
  | σ, cond c a b, ε, h => by
    simp only [evalWith] at h
    obtain hc | ⟨v, hv, h⟩ := Outcome.bind_eq_failed.1 h
    · obtain ⟨τ, n, hreach, hraise⟩ := origin_of_evalWith hyield hbody σ c ε hc
      exact ⟨τ, n, .condition hreach, hraise⟩
    have hyv : Yields F σ c v := ⟨d, (hyield σ c).symm.trans hv⟩
    by_cases hz : v = 0
    · rw [if_neg (not_not.2 hz)] at h
      obtain ⟨τ, n, hreach, hraise⟩ := origin_of_evalWith hyield hbody σ b ε h
      exact ⟨τ, n, .elseBranch (hz ▸ hyv) hreach, hraise⟩
    · rw [if_pos hz] at h
      obtain ⟨τ, n, hreach, hraise⟩ := origin_of_evalWith hyield hbody σ a ε h
      exact ⟨τ, n, .ifBranch hyv hz hreach, hraise⟩
  | σ, var x pos, ε, h => by
    simp only [evalWith] at h
    cases hx : σ.get? x with
    | some v => simp [hx] at h
    | none =>
      obtain rfl : RuntimeError.unboundName x pos.row = ε := by simpa [hx] using h
      exact ⟨σ, _, .self σ _, .unboundName hx⟩
  | σ, call f args pos, ε, h => by
    simp only [evalWith] at h
    cases hf : F.find? f with
    | none =>
      obtain rfl : RuntimeError.undefinedFunction f pos.row = ε := by simpa [hf] using h
      exact ⟨σ, _, .self σ _, .undefinedFunction hf⟩
    | some fn =>
      simp only [hf] at h
      by_cases hlen : args.length = fn.arity
      · rw [if_pos hlen] at h
        obtain hargs | ⟨vs, hvs, h⟩ := Outcome.bind_eq_failed.1 h
        · obtain ⟨before, a, after, ws, hsplit, hbefore, τ, n, hreach, hraise⟩ :=
            origin_of_evalArgsWith hyield hbody σ args ε hargs
          exact ⟨τ, n, .arg hf hlen hsplit hbefore hreach, hraise⟩
        · -- the arguments have values: the body fails, in the frame of the parameters
          obtain ⟨τ, n, hreach, hraise⟩ := hbody _ _ ε h
          exact ⟨τ, n, .body hf hlen (forall₂_yields_of_evalArgsWith hyield σ hvs) hreach, hraise⟩
      · rw [if_neg hlen] at h
        cases h
        exact ⟨σ, _, .self σ _, .arityMismatch hf hlen⟩

/-- Arguments fail only at one of them, the ones before it having values. -/
theorem origin_of_evalArgsWith {d : Nat} {body : Frame → Expr → Outcome Int64}
    (hyield : ∀ σ e, evalWith F body σ e = e.eval F d σ)
    (hbody : ∀ σ e ε, body σ e = .failed ε → ∃ τ n, Reached F σ e τ n ∧ Raises F τ n ε) :
    ∀ (σ : Frame) (as : List Expr) (ε : RuntimeError), evalArgsWith F body σ as = .failed ε →
      ∃ before a after vs, as = before ++ a :: after ∧ List.Forall₂ (Yields F σ) before vs ∧
        ∃ τ n, Reached F σ a τ n ∧ Raises F τ n ε
  | σ, [], ε, h => by simp [evalArgsWith] at h
  | σ, a :: as, ε, h => by
    simp only [evalArgsWith] at h
    obtain ha | ⟨v, hv, h⟩ := Outcome.bind_eq_failed.1 h
    · exact ⟨[], a, as, [], rfl, .nil, origin_of_evalWith hyield hbody σ a ε ha⟩
    obtain has | ⟨_, _, h⟩ := Outcome.bind_eq_failed.1 h
    · obtain ⟨before, b, after, vs, rfl, hbefore, hrest⟩ :=
        origin_of_evalArgsWith hyield hbody σ as ε has
      exact ⟨a :: before, b, after, v :: vs, rfl,
        .cons ⟨d, (hyield σ a).symm.trans hv⟩ hbefore, hrest⟩
    · simp at h

end

/-- At every bound on calls, a failed evaluation fails at a reached node that raises the error
itself. -/
theorem origin_of_eval : ∀ (d : Nat) (σ : Frame) (e : Expr) (ε : RuntimeError),
    e.eval F d σ = .failed ε → ∃ τ n, Reached F σ e τ n ∧ Raises F τ n ε
  | 0 => origin_of_evalWith (d := 0) (fun _ _ => rfl) fun _ _ _ h => by cases h
  | d + 1 => origin_of_evalWith (d := d + 1) (fun _ _ => rfl) (origin_of_eval d)

end

/-- Runtime errors are raised at one node and pass through the nodes around it unchanged: when
an evaluation fails with `ε`, at any bound `d` on the depth of calls (`evaluate`'s bound
`callDepthLimit` among them), a node of the expression or of the body of a function of the
table is reached, in some frame, and raises `ε` itself. -/
theorem evaluate_failed_origin {F : FunctionTable} {σ : Frame} {e : Expr} {ε : RuntimeError}
    (d : Nat) (h : e.eval F d σ = .failed ε) :
    ∃ τ n, Reached F σ e τ n ∧ Raises F τ n ε ∧
      (n ∈ e.nodes ∨ ∃ f fn, F.find? f = some fn ∧ n ∈ fn.body.nodes) := by
  obtain ⟨τ, n, hreach, hraise⟩ := origin_of_eval d σ e ε h
  exact ⟨τ, n, hreach, hraise, hreach.mem_nodes⟩

/-- `g(10,0)` on row 2, with `g(a,b)={(a/b)}` on row 1: the division in the body raises the
error, quoting its own text and row. -/
theorem evaluate_failed_origin_call :
    (call "g" [const 10 ⟨2, 5⟩, const 0 ⟨2, 8⟩] ⟨2, 2⟩).evaluate
        ⟨[⟨"g", ["a", "b"], binary .div (var "a" ⟨1, 10⟩) (var "b" ⟨1, 12⟩)⟩]⟩ .empty =
      .failed (.arithmetic "(a/b)" .divisionByZero 1) ∧
    ∃ τ n, Reached ⟨[⟨"g", ["a", "b"], binary .div (var "a" ⟨1, 10⟩) (var "b" ⟨1, 12⟩)⟩]⟩ .empty
        (call "g" [const 10 ⟨2, 5⟩, const 0 ⟨2, 8⟩] ⟨2, 2⟩) τ n ∧
      Raises ⟨[⟨"g", ["a", "b"], binary .div (var "a" ⟨1, 10⟩) (var "b" ⟨1, 12⟩)⟩]⟩ τ n
        (.arithmetic "(a/b)" .divisionByZero 1) ∧
      (n ∈ (call "g" [const 10 ⟨2, 5⟩, const 0 ⟨2, 8⟩] ⟨2, 2⟩).nodes ∨
        ∃ f fn, FunctionTable.find?
          ⟨[⟨"g", ["a", "b"], binary .div (var "a" ⟨1, 10⟩) (var "b" ⟨1, 12⟩)⟩]⟩ f = some fn ∧
          n ∈ fn.body.nodes) := by
  have h : (call "g" [const 10 ⟨2, 5⟩, const 0 ⟨2, 8⟩] ⟨2, 2⟩).evaluate
      ⟨[⟨"g", ["a", "b"], binary .div (var "a" ⟨1, 10⟩) (var "b" ⟨1, 12⟩)⟩]⟩ .empty =
      .failed (.arithmetic "(a/b)" .divisionByZero 1) := by
    decide +kernel
  exact ⟨h, evaluate_failed_origin callDepthLimit h⟩

end Expr

end Parenthetic
