import Parenthetic.Program
import Parenthetic.Frame
import Parenthetic.Outcome

set_option autoImplicit false

/-! # Evaluation

An expression is evaluated against a function table and a frame. Constants are their value,
negation wraps (`-(-2^63) = -2^63`), a binary operation evaluates its left operand, then its
right, then applies its operator with checked arithmetic, and a conditional evaluates its
condition and then only the branch it selects: the first when the condition is nonzero.

A call looks its function up, then checks the number of arguments, then evaluates the
arguments from left to right in the caller's frame, and then evaluates the body in a new frame
that binds only the parameters. Scoping is flat: a body never sees its caller's names.

`Expr.evalWith` is one level of this, with the evaluation of callee bodies passed in;
`Expr.eval` ties the knot with a bound on how deep calls may nest, so that it is total, and
`exhausted` is the outcome of a call beyond the bound.
-/

namespace Parenthetic

namespace Expr

mutual

/-- Evaluates an expression in `σ`; a call evaluates its callee's body with `body`. -/
def evalWith (F : FunctionTable) (body : Frame → Expr → Outcome Int64) (σ : Frame) :
    Expr → Outcome Int64
  | const v _ => .done v
  | neg e _ => do
    let v ← evalWith F body σ e
    pure (negate v)
  | binary o l r => do
    let a ← evalWith F body σ l
    let b ← evalWith F body σ r
    match o.apply a b with
    | .ok v => pure v
    | .error f => .failed (.arithmetic (binary o l r).render f (binary o l r).row)
  | cond c a b => do
    let v ← evalWith F body σ c
    if v ≠ 0 then evalWith F body σ a else evalWith F body σ b
  | var x pos =>
    match σ.get? x with
    | some v => .done v
    | none => .failed (.unboundName x pos.row)
  | call f args pos =>
    match F.find? f with
    | none => .failed (.undefinedFunction f pos.row)
    | some fn =>
      if args.length = fn.arity then do
        let vs ← evalArgsWith F body σ args
        body (Frame.ofList (fn.params.zip vs)) fn.body
      else .failed (.arityMismatch f fn.arity args.length pos.row)

/-- Evaluates call arguments from left to right; the first failure stops the rest. -/
def evalArgsWith (F : FunctionTable) (body : Frame → Expr → Outcome Int64) (σ : Frame) :
    List Expr → Outcome (List Int64)
  | [] => pure []
  | a :: as => do
    let v ← evalWith F body σ a
    let vs ← evalArgsWith F body σ as
    pure (v :: vs)

end

/-- Evaluates with calls nested at most `depth` deep; a deeper call is `exhausted`. -/
def eval (F : FunctionTable) : (depth : Nat) → Frame → Expr → Outcome Int64
  | 0 => evalWith F (fun _ _ => .exhausted)
  | depth + 1 => evalWith F (eval F depth)

/-- How deep calls may nest in a run. -/
def callDepthLimit : Nat := 1000000

/-- Evaluates an expression against a function table and a frame of given names. -/
def evaluate (F : FunctionTable) (σ : Frame) (e : Expr) : Outcome Int64 :=
  e.eval F callDepthLimit σ

end Expr

/-- The value of a program: its expression evaluated with no names bound. -/
def Program.evaluate (p : Program) : Outcome Int64 :=
  p.main.evaluate p.functions .empty

end Parenthetic
