import Parenthetic.RuntimeError

set_option autoImplicit false

/-! # Outcomes

The result of evaluating with a bound on the depth of nested calls: a value, a runtime error,
or `exhausted` when the calls nest deeper than the bound allows. Outcomes form a monad in which
an error or exhaustion stops everything after it.
-/

namespace Parenthetic

/-- The result of a bounded evaluation. -/
inductive Outcome (α : Type) where
  /-- Evaluation finished with this value. -/
  | done (v : α)
  /-- Evaluation stopped at this error. -/
  | failed (e : RuntimeError)
  /-- Calls nested deeper than the bound. -/
  | exhausted
deriving DecidableEq, Repr, Inhabited

namespace Outcome

/-- Goes on with `f` after a value; an error or exhaustion stays as it is. -/
def bind {α β : Type} : Outcome α → (α → Outcome β) → Outcome β
  | done v, f => f v
  | failed e, _ => failed e
  | exhausted, _ => exhausted

instance : Monad Outcome where
  pure := done
  bind := bind

@[simp] theorem pure_eq {α : Type} (v : α) : (pure v : Outcome α) = done v := rfl

@[simp] theorem done_bind {α β : Type} (v : α) (f : α → Outcome β) : (done v >>= f) = f v := rfl

@[simp] theorem failed_bind {α β : Type} (e : RuntimeError) (f : α → Outcome β) :
    (failed e >>= f) = failed e := rfl

@[simp] theorem exhausted_bind {α β : Type} (f : α → Outcome β) :
    (exhausted >>= f) = exhausted := rfl

end Outcome

end Parenthetic
