import Parenthetic.Operator

set_option autoImplicit false

/-! # Checked 64-bit arithmetic

Values of the language are signed 64-bit integers. An operator computes its exact result over
the integers and keeps it only when it fits in 64 bits; otherwise the operation fails with
`ArithFault.overflow`. A zero divisor fails with `ArithFault.divisionByZero` before anything
else is looked at.

Division truncates toward zero (`Int.tdiv`) and the remainder takes the sign of the dividend
(`Int.tmod`). A remainder is defined only when its quotient is: so `-2^63 % -1` fails with
`overflow` although its exact value, 0, fits. The comparisons give 1 or 0. Negation alone wraps:
the negation of `-2^63` is `-2^63`.

## Main definitions

* `Parenthetic.Operator.apply`: an operator on two values.
* `Parenthetic.negate`: wrapping negation.
-/

namespace Parenthetic

/-- Why an operator has no value on its operands. -/
inductive ArithFault where
  /-- The divisor of `/` or `%` is zero. -/
  | divisionByZero
  /-- The exact result, or the quotient behind a remainder, does not fit in 64 bits. -/
  | overflow
deriving DecidableEq, Repr, Inhabited

/-- The words that name a fault. -/
def ArithFault.describe : ArithFault → String
  | .divisionByZero => "division by zero"
  | .overflow => "integer overflow"

/-- The least value, `-2^63`. -/
def minValue : Int := -9223372036854775808

/-- The greatest value, `2^63 - 1`. -/
def maxValue : Int := 9223372036854775807

/-- An integer fits when it lies between `minValue` and `maxValue`. -/
def Fits (r : Int) : Prop := minValue ≤ r ∧ r ≤ maxValue

instance (r : Int) : Decidable (Fits r) := inferInstanceAs (Decidable (_ ∧ _))

/-- Every value fits. -/
theorem fits_toInt (a : Int64) : Fits a.toInt := by
  have h1 := Int64.le_toInt a
  have h2 := Int64.toInt_lt a
  simp only [Fits, minValue, maxValue]
  omega

/-- The exact result `r` as a value, or `overflow` when it does not fit. -/
def checked (r : Int) : Except ArithFault Int64 :=
  if Fits r then .ok (Int64.ofInt r) else .error .overflow

/-- A result that fits is kept exactly. -/
theorem checked_eq_ok_iff {r : Int} {v : Int64} : checked r = .ok v ↔ Fits r ∧ v.toInt = r := by
  unfold checked
  split
  · rename_i h
    have e : (Int64.ofInt r).toInt = r := by
      simp only [Fits, minValue, maxValue] at h
      exact Int64.toInt_ofInt_of_le (by omega) (by omega)
    constructor
    · intro hv
      cases hv
      exact ⟨h, e⟩
    · rintro ⟨_, hv⟩
      rw [← Int64.toInt_inj.mp (hv.trans e.symm)]
  · rename_i h
    simp only [reduceCtorEq, false_iff]
    exact fun ⟨hf, _⟩ => h hf

/-- A result fails exactly when it does not fit, and then with `overflow`. -/
theorem checked_eq_error_iff {r : Int} {f : ArithFault} :
    checked r = .error f ↔ ¬ Fits r ∧ f = .overflow := by
  unfold checked
  split
  · rename_i h
    simp only [reduceCtorEq, false_iff]
    exact fun ⟨hf, _⟩ => hf h
  · rename_i h
    simp only [Except.error.injEq]
    exact ⟨fun e => ⟨h, e.symm⟩, fun ⟨_, e⟩ => e.symm⟩

/-- One for a true comparison and zero for a false one. -/
def ofBool (b : Bool) : Int64 := if b then 1 else 0

/-- The truncated quotient of `a` by a nonzero `b`; it fails only for `-2^63 / -1`. -/
def quotient (a b : Int64) : Except ArithFault Int64 :=
  checked (a.toInt.tdiv b.toInt)

/-- The remainder of `a` by a nonzero `b`, defined when the quotient is. -/
def remainder (a b : Int64) : Except ArithFault Int64 := do
  let _ ← quotient a b
  checked (a.toInt.tmod b.toInt)

namespace Operator

/-- The value of `(a op b)`, or the fault that stops it. -/
def apply : Operator → Int64 → Int64 → Except ArithFault Int64
  | add, a, b => checked (a.toInt + b.toInt)
  | sub, a, b => checked (a.toInt - b.toInt)
  | mul, a, b => checked (a.toInt * b.toInt)
  | div, a, b => if b = 0 then .error .divisionByZero else quotient a b
  | rem, a, b => if b = 0 then .error .divisionByZero else remainder a b
  | lt, a, b => .ok (ofBool (decide (a.toInt < b.toInt)))
  | gt, a, b => .ok (ofBool (decide (a.toInt > b.toInt)))

end Operator

/-- Negation, wrapping at 64 bits: only `-2^63` has no negation that fits, and it maps to itself. -/
def negate (a : Int64) : Int64 := -a

example : Operator.apply .div (-7) 2 = .ok (-3) := rfl
example : Operator.apply .rem (-7) 2 = .ok (-1) := rfl
example : Operator.apply .rem (-9223372036854775808) (-1) = .error .overflow := rfl
example : Operator.apply .div 1 0 = .error .divisionByZero := rfl
example : negate (-9223372036854775808) = -9223372036854775808 := by decide

end Parenthetic
