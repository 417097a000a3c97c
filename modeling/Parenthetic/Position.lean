set_option autoImplicit false

/-! # Source positions

A position names a character of the source text by its row and column. Both count from 1;
columns count characters (Unicode scalar values), not bytes, and start again at 1 after every
line feed. Error texts write a position as `row:column`.
-/

namespace Parenthetic

/-- A place in the source text: a 1-based row and a 1-based column counted in characters. -/
structure Position where
  /-- The row, one more than the number of line feeds before the place. -/
  row : Nat
  /-- The column, one more than the number of characters since the last line feed. -/
  column : Nat
deriving DecidableEq, Repr, Inhabited

namespace Position

/-- The first character of the text. -/
def start : Position := ⟨1, 1⟩

/-- The place `n` characters further along the same row. -/
def advance (p : Position) (n : Nat) : Position := ⟨p.row, p.column + n⟩

/-- The first column of the row after a line feed. -/
def nextRow (p : Position) : Position := ⟨p.row + 1, 1⟩

/-- The text `row:column` used in error explanations. -/
def render (p : Position) : String := toString p.row ++ ":" ++ toString p.column

@[simp] theorem row_advance (p : Position) (n : Nat) : (p.advance n).row = p.row := rfl

@[simp] theorem column_advance (p : Position) (n : Nat) :
    (p.advance n).column = p.column + n := rfl

@[simp] theorem row_nextRow (p : Position) : p.nextRow.row = p.row + 1 := rfl

@[simp] theorem column_nextRow (p : Position) : p.nextRow.column = 1 := rfl

example : (Position.mk 2 14).render = "2:14" := by decide

end Position

end Parenthetic
