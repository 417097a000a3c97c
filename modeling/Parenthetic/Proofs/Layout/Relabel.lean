import Parenthetic.Run

set_option autoImplicit false

/-! # Moving positions

Positions are data: the scanner puts them on lexemes, the parser passes them on to nodes and to
syntax errors, and nothing is decided by them. `mapPos f` moves every position of a lexeme, a
syntax error, an expression, a function, a function table, a program or a failure by `f`.

A runtime error keeps only the row of the node that raises it, and the canonical text of a node
has no positions, so moving positions within their rows changes no outcome of an evaluation
(`Expr.eval_mapPos`, `Program.evaluate_mapPos`). `Position.rowStart` moves a position to the
start of its row: two things that are equal after it agree up to columns.
-/

namespace Parenthetic

/-- The first column of the row of `p`. -/
def Position.rowStart (p : Position) : Position := ⟨p.row, 1⟩

@[simp] theorem Position.row_rowStart (p : Position) : p.rowStart.row = p.row := rfl

namespace Lexeme

/-- The lexeme with its position moved by `f`. -/
def mapPos (f : Position → Position) (l : Lexeme) : Lexeme := ⟨l.token, f l.pos⟩

@[simp] theorem token_mapPos (f : Position → Position) (l : Lexeme) : (l.mapPos f).token = l.token :=
  rfl

@[simp] theorem pos_mapPos (f : Position → Position) (l : Lexeme) : (l.mapPos f).pos = f l.pos := rfl

end Lexeme

/-- The error with its position moved by `f`. -/
def SyntaxError.mapPos (f : Position → Position) : SyntaxError → SyntaxError
  | unexpectedToken e t p => unexpectedToken e t (f p)
  | unexpectedEnd p => unexpectedEnd (p.map f)
  | unsupportedUnary o p => unsupportedUnary o (f p)
  | nothingParsed t p => nothingParsed t (f p)
  | trailingTokens t p => trailingTokens t (f p)
  | literalTooLarge d p => literalTooLarge d (f p)

namespace Expr

mutual

/-- The expression with every position moved by `f`. -/
def mapPos (f : Position → Position) : Expr → Expr
  | const v p => const v (f p)
  | neg e p => neg (mapPos f e) (f p)
  | binary o l r => binary o (mapPos f l) (mapPos f r)
  | cond c a b => cond (mapPos f c) (mapPos f a) (mapPos f b)
  | var x p => var x (f p)
  | call g args p => call g (mapPosArgs f args) (f p)

/-- `mapPos` on each argument. -/
def mapPosArgs (f : Position → Position) : List Expr → List Expr
  | [] => []
  | a :: as => mapPos f a :: mapPosArgs f as

end

variable (f : Position → Position)

mutual

/-- Moving positions leaves the canonical text as it is. -/
@[simp] theorem render_mapPos : ∀ e : Expr, (e.mapPos f).render = e.render
  | const .. | var .. => rfl
  | neg e _ => by rw [mapPos, render, render, render_mapPos e]
  | binary o l r => by rw [mapPos, render, render, render_mapPos l, render_mapPos r]
  | cond c a b => by rw [mapPos, render, render, render_mapPos c, render_mapPos a, render_mapPos b]
  | call g args _ => by rw [mapPos, render, render, renderArgs_mapPosArgs args]

theorem renderArgs_mapPosArgs : ∀ as : List Expr, renderArgs (mapPosArgs f as) = renderArgs as
  | [] => rfl
  | a :: as => by rw [mapPosArgs, renderArgs, renderArgs, render_mapPos a, renderArgs_mapPosArgs as]

end

@[simp] theorem pos_mapPos : ∀ e : Expr, (e.mapPos f).pos = f e.pos
  | const .. | neg .. | var .. | call .. => rfl
  | binary _ l _ => pos_mapPos l
  | cond c _ _ => pos_mapPos c

@[simp] theorem length_mapPosArgs : ∀ as : List Expr, (mapPosArgs f as).length = as.length
  | [] => rfl
  | _ :: as => by rw [mapPosArgs, List.length_cons, List.length_cons, length_mapPosArgs as]

end Expr

/-- The function with the positions of its body moved by `f`. -/
def Function.mapPos (f : Position → Position) (fn : Function) : Function :=
  { fn with body := fn.body.mapPos f }

/-- The table with the positions of every body moved by `f`. -/
def FunctionTable.mapPos (f : Position → Position) (t : FunctionTable) : FunctionTable :=
  ⟨t.toList.map (Function.mapPos f)⟩

/-- The program with every position moved by `f`. -/
def Program.mapPos (f : Position → Position) (p : Program) : Program :=
  ⟨p.functions.mapPos f, p.main.mapPos f⟩

/-- The failure with the position of a syntax error moved by `f`; runtime errors have none. -/
def Failure.mapPos (f : Position → Position) : Failure → Failure
  | .syntaxError e => .syntaxError (e.mapPos f)
  | e => e

namespace FunctionTable

variable (f : Position → Position)

/-- Moving positions keeps every function under its name. -/
theorem find?_mapPos (t : FunctionTable) (x : String) :
    (t.mapPos f).find? x = (t.find? x).map (Function.mapPos f) := by
  simp only [find?, mapPos, List.find?_map]
  rfl

theorem mapPos_insertInto (fn : Function) :
    ∀ gs : List Function,
      (insertInto fn gs).map (Function.mapPos f) = insertInto (fn.mapPos f) (gs.map (Function.mapPos f))
  | [] => rfl
  | g :: gs => by
    -- insertion looks only at names, which moving positions keeps
    have hname : ∀ h : Function, (h.mapPos f).name = h.name := fun _ => rfl
    simp only [insertInto, List.map_cons, hname]
    split
    · rfl
    · split
      · rfl
      · rw [List.map_cons, mapPos_insertInto fn gs]

theorem mapPos_insert (t : FunctionTable) (fn : Function) :
    (t.insert fn).mapPos f = (t.mapPos f).insert (fn.mapPos f) := by
  simp only [insert, mapPos, mapPos_insertInto]

end FunctionTable

/-! ## Evaluation sees rows only -/

namespace Expr

section

variable {f : Position → Position}

theorem row_mapPos (hf : ∀ p, (f p).row = p.row) (e : Expr) : (e.mapPos f).row = e.row := by
  rw [row, row, pos_mapPos, hf]

mutual

/-- One level of evaluation of an expression with moved positions, in a table with moved
positions, is that of the expression, when positions stay in their rows and the bodies of calls
evaluate alike. -/
theorem evalWith_mapPos (hf : ∀ p, (f p).row = p.row) {F : FunctionTable}
    {body body' : Frame → Expr → Outcome Int64} (hbody : ∀ σ e, body' σ (e.mapPos f) = body σ e) :
    ∀ (σ : Frame) (e : Expr), evalWith (F.mapPos f) body' σ (e.mapPos f) = evalWith F body σ e
  | _, const _ _ => rfl
  | σ, neg e _ => by
    rw [mapPos, evalWith, evalWith, evalWith_mapPos hf hbody σ e]
  | σ, binary o l r => by
    -- the error of the operation quotes its text and row, which moving positions keeps
    have hquote := render_mapPos f (binary o l r)
    have hrow := row_mapPos hf (binary o l r)
    rw [mapPos] at hquote hrow
    rw [mapPos, evalWith, evalWith, evalWith_mapPos hf hbody σ l, evalWith_mapPos hf hbody σ r,
      hquote, hrow]
  | σ, cond c a b => by
    rw [mapPos, evalWith, evalWith, evalWith_mapPos hf hbody σ c, evalWith_mapPos hf hbody σ a,
      evalWith_mapPos hf hbody σ b]
  | σ, var x pos => by
    rw [mapPos, evalWith, evalWith, hf]
  | σ, call g args pos => by
    rw [mapPos, evalWith, evalWith, FunctionTable.find?_mapPos, hf]
    cases F.find? g with
    | none => rfl
    | some fn =>
      simp only [Option.map_some, Function.mapPos, Function.arity, length_mapPosArgs,
        evalArgsWith_mapPos hf hbody σ args, hbody]
      rfl

theorem evalArgsWith_mapPos (hf : ∀ p, (f p).row = p.row) {F : FunctionTable}
    {body body' : Frame → Expr → Outcome Int64} (hbody : ∀ σ e, body' σ (e.mapPos f) = body σ e) :
    ∀ (σ : Frame) (as : List Expr),
      evalArgsWith (F.mapPos f) body' σ (mapPosArgs f as) = evalArgsWith F body σ as
  | _, [] => rfl
  | σ, a :: as => by
    rw [mapPosArgs, evalArgsWith, evalArgsWith, evalWith_mapPos hf hbody σ a,
      evalArgsWith_mapPos hf hbody σ as]

end

/-- At every bound on calls, moving positions within their rows changes no outcome. -/
theorem eval_mapPos (hf : ∀ p, (f p).row = p.row) (F : FunctionTable) :
    ∀ (depth : Nat) (σ : Frame) (e : Expr), (e.mapPos f).eval (F.mapPos f) depth σ = e.eval F depth σ
  | 0 => evalWith_mapPos hf fun _ _ => rfl
  | depth + 1 => evalWith_mapPos hf (eval_mapPos hf F depth)

end

end Expr

/-- A program with its positions moved within their rows has the same outcome. -/
theorem Program.evaluate_mapPos {f : Position → Position} (hf : ∀ p, (f p).row = p.row)
    (p : Program) : (p.mapPos f).evaluate = p.evaluate :=
  Expr.eval_mapPos hf p.functions Expr.callDepthLimit .empty p.main

end Parenthetic
