import Parenthetic.Arith

set_option autoImplicit false

/-! # Runtime errors

Why the evaluation of a parsed program fails: a name that is not a parameter in scope, a call of
a function that is not defined, a call with the wrong number of arguments, or an arithmetic
fault of a binary operation. Each error keeps the row of the node that raised it;
`RuntimeError.message` writes the line a run reports.
-/

namespace Parenthetic

/-- Why an evaluation fails. -/
inductive RuntimeError where
  /-- A reference to `name` where no parameter of that name is in scope. -/
  | unboundName (name : String) (row : Nat)
  /-- A call of a function that the program does not define. -/
  | undefinedFunction (name : String) (row : Nat)
  /-- A call of `name` with `found` arguments, where the function has `expected` parameters. -/
  | arityMismatch (name : String) (expected found : Nat) (row : Nat)
  /-- A binary operation, quoted by its canonical text, whose operator faults. -/
  | arithmetic (expression : String) (fault : ArithFault) (row : Nat)
deriving DecidableEq, Repr, Inhabited

namespace RuntimeError

/-- The row of the node that raised the error. -/
def row : RuntimeError → Nat
  | unboundName _ r | undefinedFunction _ r | arityMismatch _ _ _ r | arithmetic _ _ r => r

/-- The line a run reports for the error. -/
def message : RuntimeError → String
  | unboundName x r => "PARAMETER NOT FOUND " ++ x ++ ":" ++ toString r
  | undefinedFunction f r => "FUNCTION NOT FOUND " ++ f ++ ":" ++ toString r
  | arityMismatch f _ _ r => "ARGUMENT NUMBER MISMATCH " ++ f ++ ":" ++ toString r
  | arithmetic e _ r => "RUNTIME ERROR " ++ e ++ ":" ++ toString r

example : (arithmetic "(1/0)" .divisionByZero 3).message = "RUNTIME ERROR (1/0):3" := by decide

end RuntimeError

end Parenthetic
