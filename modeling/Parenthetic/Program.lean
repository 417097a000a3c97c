import Parenthetic.Expr

set_option autoImplicit false

/-! # Programs

A program is a table of function definitions and one expression. The table holds at most one
function of each name and keeps them sorted by name: `FunctionTable.insert` replaces a function
of the same name where it stands, so a later definition of a name wins
(`find?_insert_self`, `find?_insert_of_ne`).
-/

namespace Parenthetic

/-- A function definition `name(p₁, …, pₖ)={body}`. Parameters may repeat. -/
structure Function where
  /-- The name calls use. -/
  name : String
  /-- The parameter names, in order. -/
  params : List String
  /-- The expression a call evaluates. -/
  body : Expr
deriving Repr, Inhabited

/-- The number of arguments a call must pass. -/
def Function.arity (f : Function) : Nat := f.params.length

/-- Functions by name, sorted by name. -/
structure FunctionTable where
  /-- The functions, sorted by name. -/
  toList : List Function := []
deriving Repr, Inhabited

namespace FunctionTable

/-- The table with no function. -/
def empty : FunctionTable := {}

/-- Puts `f` in its place by name, replacing a function of the same name. -/
def insertInto (f : Function) : List Function → List Function
  | [] => [f]
  | g :: gs =>
    if f.name = g.name then f :: gs
    else if f.name < g.name then f :: g :: gs
    else g :: insertInto f gs

/-- Adds `f`, replacing a function of the same name. -/
def insert (t : FunctionTable) (f : Function) : FunctionTable := ⟨insertInto f t.toList⟩

/-- The function named `name`. -/
def find? (t : FunctionTable) (name : String) : Option Function :=
  t.toList.find? (·.name == name)

/-- The table of a list of definitions, inserted from left to right. -/
def ofList (fs : List Function) : FunctionTable := fs.foldl insert empty

theorem find?_insertInto_self (f : Function) (gs : List Function) :
    (insertInto f gs).find? (·.name == f.name) = some f := by
  induction gs with
  | nil => simp [insertInto]
  | cons g gs ih =>
    unfold insertInto
    by_cases h : f.name = g.name
    · simp [h]
    · by_cases h' : f.name < g.name
      · simp [h, h']
      · have hg : (g.name == f.name) = false := by simp [Ne.symm h]
        simp [h, h', hg, ih]

theorem find?_insertInto_of_ne (f : Function) (gs : List Function) (name : String)
    (h : f.name ≠ name) :
    (insertInto f gs).find? (·.name == name) = gs.find? (·.name == name) := by
  induction gs with
  | nil => simp [insertInto, h]
  | cons g gs ih =>
    unfold insertInto
    have hf : (f.name == name) = false := by simp [h]
    by_cases hg : f.name = g.name
    · have hg' : (g.name == name) = false := by simp [← hg, h]
      simp only [hg, if_true, List.find?_cons, hg']
    · by_cases hlt : f.name < g.name
      · simp [hg, hlt, hf]
      · simp only [hg, hlt, if_false, List.find?_cons, ih]

/-- A function just inserted is the one found by its name. -/
@[simp] theorem find?_insert_self (t : FunctionTable) (f : Function) :
    (t.insert f).find? f.name = some f :=
  find?_insertInto_self f t.toList

/-- Inserting a function leaves the other names as they were. -/
theorem find?_insert_of_ne (t : FunctionTable) (f : Function) (name : String)
    (h : f.name ≠ name) : (t.insert f).find? name = t.find? name :=
  find?_insertInto_of_ne f t.toList name h

end FunctionTable

/-- Function definitions and the expression to evaluate. -/
structure Program where
  /-- The defined functions. -/
  functions : FunctionTable
  /-- The expression whose value the program computes. -/
  main : Expr
deriving Repr, Inhabited

end Parenthetic
