import Parenthetic.Eval
import Parenthetic.Proofs.Canonical
import Parenthetic.Proofs.Arith.Exact

set_option autoImplicit false

/-! # Closed expressions evaluate over the integers

An expression with no reference and no call (`Expr.Closed`) has a value fixed by its constants.
`Expr.exactEval` computes it over the integers: each operator as `Operator.checkedSpec` says,
negation exactly, and a conditional by its condition and then only the branch it selects. The
first operation to fail, its operands before it and the left operand before the right, is the
error, quoted by its canonical text and its row.

`Expr.evaluate_closed_eq_exactEval`: for the expressions the parser builds (`Expr.Shaped`),
evaluation on 64-bit values gives exactly this, whatever the function table and the frame. There
negation stands only in front of a constant, which is not negative, so its wrapping never shows.

The proof follows the expression; `Outcome.map_bind_ofExcept` carries the agreement of the two
evaluations through each step that goes on with a value.
-/

namespace Parenthetic

namespace Outcome

/-- The outcome of a computation with no bound on calls: a value or an error. -/
def ofExcept {α : Type} : Except RuntimeError α → Outcome α
  | .ok v => .done v
  | .error e => .failed e

variable {α β γ δ : Type}

@[simp] theorem map_done (f : α → β) (v : α) : f <$> done v = done (f v) := rfl

@[simp] theorem map_failed (f : α → β) (e : RuntimeError) : f <$> (failed e : Outcome α) = failed e :=
  rfl

@[simp] theorem map_exhausted (f : α → β) : f <$> (exhausted : Outcome α) = exhausted := rfl

@[simp] theorem ofExcept_ok (v : α) : ofExcept (.ok v) = done v := rfl

@[simp] theorem ofExcept_error (e : RuntimeError) : (ofExcept (.error e) : Outcome α) = failed e :=
  rfl

/-- A computation that agrees through `f` with one over other values keeps agreeing after a
step that does the same on both sides. -/
theorem map_bind_ofExcept {f : α → γ} {g : β → δ} {x : Outcome α} {r : Except RuntimeError γ}
    {k : α → Outcome β} {k' : γ → Except RuntimeError δ} (hx : f <$> x = ofExcept r)
    (hk : ∀ a, g <$> k a = ofExcept (k' (f a))) : g <$> (x >>= k) = ofExcept (r >>= k') := by
  cases x with
  | done a =>
    cases r with
    | ok c =>
      obtain rfl : f a = c := by simpa [ofExcept] using hx
      exact hk a
    | error e => simp [ofExcept] at hx
  | failed e =>
    cases r with
    | ok c => simp [ofExcept] at hx
    | error e' =>
      obtain rfl : e = e' := by simpa [ofExcept] using hx
      rfl
  | exhausted => cases r <;> simp [ofExcept] at hx

end Outcome

/-- Negating a value above `-2^63` is exact. -/
theorem toInt_negate {a : Int64} (h : minValue < a.toInt) : (negate a).toInt = -a.toInt := by
  have hlt := Int64.toInt_lt a
  simp only [minValue] at h
  rw [negate, Int64.toInt_neg]
  exact Int.bmod_eq_of_le (by omega) (by omega)

namespace Expr

/-- An expression with no reference and no call. -/
def Closed : Expr → Prop
  | const .. => True
  | neg e _ => Closed e
  | binary _ l r => Closed l ∧ Closed r
  | cond c a b => Closed c ∧ Closed a ∧ Closed b
  | var .. | call .. => False

/-- The value of an expression over the integers, or the error of the first operation that
fails. References and calls, which closed expressions do not have, fail as they would with no
name bound and no function defined. -/
def exactEval : Expr → Except RuntimeError Int
  | const v _ => .ok v.toInt
  | neg e _ => (exactEval e).map fun v => -v
  | binary o l r => do
    let a ← exactEval l
    let b ← exactEval r
    match o.checkedSpec a b with
    | .ok v => pure v
    | .error f => .error (.arithmetic (binary o l r).render f (binary o l r).row)
  | cond c a b => do
    let v ← exactEval c
    if v ≠ 0 then exactEval a else exactEval b
  | var x pos => .error (.unboundName x pos.row)
  | call f _ pos => .error (.undefinedFunction f pos.row)

/-- One level of evaluation of a closed shaped expression is its evaluation over the integers,
whatever evaluates the bodies of calls. -/
theorem map_toInt_evalWith_of_closed (F : FunctionTable) (body : Frame → Expr → Outcome Int64)
    (σ : Frame) : ∀ e : Expr, e.Shaped → e.Closed →
      Int64.toInt <$> evalWith F body σ e = .ofExcept e.exactEval
  | const _ _, _, _ => rfl
  | neg e _, hs, hc => by
    obtain ⟨hop, hs⟩ := hs
    -- a closed operand of `-` is a constant, and the parser reads only non-negative ones
    cases e with
    | const v _ =>
      have hv : minValue < v.toInt := by
        simp only [Shaped] at hs
        simp only [minValue]
        omega
      simp [evalWith, exactEval, Except.map, toInt_negate hv]
    | neg | binary | cond => exact hop.elim
    | var | call => exact hc.elim
  | binary o l r, hs, hc => by
    obtain ⟨sl, sr⟩ := hs
    obtain ⟨cl, cr⟩ := hc
    simp only [evalWith, exactEval]
    refine Outcome.map_bind_ofExcept (map_toInt_evalWith_of_closed F body σ l sl cl) fun a => ?_
    refine Outcome.map_bind_ofExcept (map_toInt_evalWith_of_closed F body σ r sr cr) fun b => ?_
    -- the operator on the values is its specification on their integers
    have hspec := Operator.map_toInt_apply o a b
    cases happ : o.apply a b with
    | ok v =>
      rw [happ] at hspec
      rw [← hspec]
      rfl
    | error f =>
      rw [happ] at hspec
      rw [← hspec]
      rfl
  | cond c a b, hs, hc => by
    obtain ⟨sc, sa, sb⟩ := hs
    obtain ⟨cc, ca, cb⟩ := hc
    simp only [evalWith, exactEval]
    refine Outcome.map_bind_ofExcept (map_toInt_evalWith_of_closed F body σ c sc cc) fun v => ?_
    by_cases hv : v = 0
    · simp only [hv, ne_eq, not_true_eq_false, if_false, Int64.toInt_zero]
      exact map_toInt_evalWith_of_closed F body σ b sb cb
    · simp only [hv, ne_eq, not_false_eq_true, if_true, toInt_eq_zero_iff]
      exact map_toInt_evalWith_of_closed F body σ a sa ca
  | var .., _, hc => hc.elim
  | call .., _, hc => hc.elim

/-- At every bound on calls, evaluation is one level of evaluation with some evaluation of
bodies. -/
theorem eval_eq_evalWith (F : FunctionTable) (depth : Nat) :
    ∃ body, eval F depth = evalWith F body := by
  cases depth <;> exact ⟨_, rfl⟩

/-- Closed expressions evaluate over the integers: for an expression the parser builds with no
reference and no call, in any function table and frame, evaluation gives the integer value when
every operation it reaches has one, and otherwise fails at the first operation that has none,
quoting it; negation never wraps. -/
theorem evaluate_closed_eq_exactEval (F : FunctionTable) (σ : Frame) {e : Expr} (hs : e.Shaped)
    (hc : e.Closed) : Int64.toInt <$> e.evaluate F σ = .ofExcept e.exactEval := by
  obtain ⟨body, hbody⟩ := eval_eq_evalWith F callDepthLimit
  rw [evaluate, hbody]
  exact map_toInt_evalWith_of_closed F body σ e hs hc

/-- `(-7/0)` is shaped and closed, so it evaluates as over the integers. -/
theorem evaluate_closed_eq_exactEval_div :
    (binary .div (neg (const 7 .start) .start) (const 0 .start)).Shaped ∧
    (binary .div (neg (const 7 .start) .start) (const 0 .start)).Closed ∧
    Int64.toInt <$> (binary .div (neg (const 7 .start) .start) (const 0 .start)).evaluate .empty .empty =
      .ofExcept (binary .div (neg (const 7 .start) .start) (const 0 .start)).exactEval := by
  have hs : (binary .div (neg (const 7 .start) .start) (const 0 .start)).Shaped :=
    ⟨⟨trivial, (by decide : (0 : Int) ≤ (7 : Int64).toInt)⟩,
      (by decide : (0 : Int) ≤ (0 : Int64).toInt)⟩
  have hc : (binary .div (neg (const 7 .start) .start) (const 0 .start)).Closed :=
    ⟨trivial, trivial⟩
  exact ⟨hs, hc, evaluate_closed_eq_exactEval _ _ hs hc⟩

end Expr

end Parenthetic
