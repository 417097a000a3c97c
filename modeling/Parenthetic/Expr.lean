import Parenthetic.Position
import Parenthetic.Operator

set_option autoImplicit false

/-! # Expressions

An expression is a constant, a negation, a binary operation, a conditional, a parameter
reference or a call. Constants, negations, references and calls carry the position of their
first token; a binary operation and a conditional have no position of their own and take that
of their left operand and of their condition (`Expr.pos`), so a node is never placed anywhere
else.

`Expr.render` writes the canonical text of an expression: every binary operation in
parentheses, a conditional as `[c]?{a}:{b}` with braces, a call with a comma after every
argument. Runtime errors quote a failing node by this text.
-/

namespace Parenthetic

/-- An expression of the language. -/
inductive Expr where
  /-- A decimal literal. -/
  | const (value : Int64) (pos : Position)
  /-- `-x`: the negation of a literal, a reference or a call; `pos` is that of the `-`. -/
  | neg (operand : Expr) (pos : Position)
  /-- `(l op r)`. -/
  | binary (op : Operator) (left right : Expr)
  /-- `[c]?{a}:{b}`: `a` when `c` is nonzero, else `b`. -/
  | cond (condition ifBranch elseBranch : Expr)
  /-- A reference to a parameter (or, at the top level, to a given symbol). -/
  | var (name : String) (pos : Position)
  /-- `f(a, b, …)`: a call of a defined function. -/
  | call (name : String) (args : List Expr) (pos : Position)
deriving Repr, Inhabited

namespace Expr

/-- The position of an expression: that of its first token which is not `(` or `[`. -/
def pos : Expr → Position
  | const _ pos | neg _ pos | var _ pos | call _ _ pos => pos
  | binary _ l _ => l.pos
  | cond c _ _ => c.pos

/-- The row of an expression, by which runtime errors place it. -/
def row (e : Expr) : Nat := e.pos.row

mutual

/-- The canonical text of an expression. -/
def render : Expr → String
  | const v _ => toString v.toInt
  | neg e _ => "-" ++ render e
  | binary o l r => "(" ++ render l ++ o.symbol.toString ++ render r ++ ")"
  | cond c a b =>
    "[" ++ render c ++ "]?\x7b" ++ render a ++ "\x7d:\x7b" ++ render b ++ "\x7d"
  | var x _ => x
  | call f args _ => f ++ "(" ++ renderArgs args ++ ")"

/-- Call arguments, each followed by a comma. -/
def renderArgs : List Expr → String
  | [] => ""
  | a :: as => render a ++ "," ++ renderArgs as

end

example : (Expr.call "f" [.const 1 .start, .var "x" .start] .start).render = "f(1,x,)" := by
  decide +kernel

end Expr

end Parenthetic
