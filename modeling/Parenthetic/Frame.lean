set_option autoImplicit false

/-! # Frames

A frame gives values to the names in scope: the parameters of the function being evaluated,
or the symbols a caller supplies to the top-level expression. Binding a name again hides its
earlier value, so a frame built from a list of bindings gives each name its last value
(`get?_ofList`).
-/

namespace Parenthetic

/-- Values of the names in scope; the latest binding of a name is the one seen. -/
structure Frame where
  /-- The bindings, latest first. -/
  bindings : List (String × Int64) := []
deriving Repr, Inhabited

namespace Frame

/-- The frame that binds nothing. -/
def empty : Frame := {}

/-- The value of `x`, if `x` is bound. -/
def get? (σ : Frame) (x : String) : Option Int64 := σ.bindings.lookup x

/-- Binds `x` to `v`, hiding an earlier binding of `x`. -/
def bind (σ : Frame) (x : String) (v : Int64) : Frame := ⟨(x, v) :: σ.bindings⟩

/-- The frame of a list of bindings, bound from left to right. -/
def ofList (xs : List (String × Int64)) : Frame := xs.foldl (fun σ b => σ.bind b.1 b.2) empty

@[simp] theorem get?_empty (x : String) : empty.get? x = none := rfl

@[simp] theorem get?_bind_self (σ : Frame) (x : String) (v : Int64) :
    (σ.bind x v).get? x = some v := by
  simp [bind, get?]

theorem get?_bind_of_ne (σ : Frame) {x y : String} (v : Int64) (h : x ≠ y) :
    (σ.bind x v).get? y = σ.get? y := by
  have : (y == x) = false := by simp [Ne.symm h]
  simp [bind, get?, List.lookup_cons, this]

/-- Binding a list of pairs from left to right puts them in front, the last pair first. -/
theorem bindings_foldl_bind (xs : List (String × Int64)) (σ : Frame) :
    (xs.foldl (fun σ b => σ.bind b.1 b.2) σ).bindings = xs.reverse ++ σ.bindings := by
  induction xs generalizing σ with
  | nil => rfl
  | cons b xs ih =>
    rw [List.foldl_cons, ih]
    simp [bind]

/-- A frame built from a list of bindings looks a name up from the end of the list. -/
theorem get?_ofList (xs : List (String × Int64)) (x : String) :
    (ofList xs).get? x = xs.reverse.lookup x := by
  simp [ofList, get?, bindings_foldl_bind, empty]

end Frame

end Parenthetic
