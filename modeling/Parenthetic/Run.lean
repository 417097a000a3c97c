import Parenthetic.Program.Parse
import Parenthetic.Eval

set_option autoImplicit false

/-! # Running a source text

A run scans, parses and evaluates a source text. It ends in a value or in one failure, which
is reported by a single line: `SYNTAX ERROR` for every scanning or parsing error, the error's
own line for a runtime error.
-/

namespace Parenthetic

/-- Why a run of a source text gives no value. -/
inductive Failure where
  /-- The text is not a program. -/
  | syntaxError (e : SyntaxError)
  /-- Evaluation failed. -/
  | runtime (e : RuntimeError)
  /-- Calls nested deeper than a run allows. -/
  | tooDeep
deriving DecidableEq, Repr, Inhabited

namespace Failure

/-- Whether the text was not a program. -/
def isSyntax : Failure → Bool
  | syntaxError _ => true
  | _ => false

/-- The line a run reports. -/
def line : Failure → String
  | syntaxError _ => "SYNTAX ERROR"
  | runtime e => e.message
  | tooDeep => "CALLS NESTED TOO DEEP"

end Failure

/-- A value, or the failure of an evaluation. -/
def Outcome.toExcept : Outcome Int64 → Except Failure Int64
  | .done v => .ok v
  | .failed e => .error (.runtime e)
  | .exhausted => .error .tooDeep

/-- The value of a source text, or why it has none. -/
def resultOf (source : String) : Except Failure Int64 :=
  match Program.ofSource source with
  | .error e => .error (.syntaxError e)
  | .ok p => p.evaluate.toExcept

/-- The line a run of a source text reports: the value in decimal, or the failure's line. -/
def run (source : String) : String :=
  match resultOf source with
  | .ok v => toString v.toInt
  | .error f => f.line

end Parenthetic
