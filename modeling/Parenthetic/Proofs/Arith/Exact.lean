import Parenthetic.Arith

set_option autoImplicit false

/-! # Checked operators are exact integer arithmetic

An operator works on 64-bit values, but what it computes is decided on the integers.
`Operator.exact` is the value of `a op b` over the integers: `/` truncates toward zero, `%` is
`a - b * (a / b)`, and the comparisons give 1 or 0. `Operator.checkedSpec` reads off from the
integers alone what the language makes of it: a zero divisor of `/` or `%` is `divisionByZero`;
otherwise the exact result is the value when it fits in 64 bits and the operation is not
`-2^63 % -1`; every other case is `overflow`.

* `Operator.map_toInt_apply`: an operator on two values is `Operator.checkedSpec` on their
  integers.
* `Operator.div_rem_identity`: a quotient and a remainder that both exist satisfy the division
  identity, with a remainder smaller than the divisor and of the sign of the dividend.

`-2^63 % -1` overflows although its exact value, 0, fits: a remainder exists only together with
its quotient, and `-2^63 / -1 = 2^63` does not fit.
-/

namespace Parenthetic

/-! ## Truncated division within 64 bits -/

/-- Of two values, the truncated quotient fits unless it is `-2^63 / -1`. -/
theorem fits_tdiv_iff {a b : Int} (ha : Fits a) (hb : b ≠ 0) :
    Fits (a.tdiv b) ↔ ¬(a = minValue ∧ b = -1) := by
  simp only [Fits, minValue, maxValue] at *
  have habs : (a.tdiv b).natAbs = a.natAbs / b.natAbs := Int.natAbs_tdiv a b
  constructor
  · rintro hq ⟨rfl, rfl⟩
    have : (-9223372036854775808 : Int).tdiv (-1) = 9223372036854775808 := by decide
    omega
  · intro hx
    by_cases hb1 : b.natAbs = 1
    · -- dividing by `1` or `-1` keeps or negates the dividend
      rcases (show b = 1 ∨ b = -1 by omega) with rfl | rfl
      · rw [Int.tdiv_one]
        omega
      · rw [Int.tdiv_neg, Int.tdiv_one]
        omega
    · have hhalf : a.natAbs / b.natAbs ≤ a.natAbs / 2 := Nat.div_le_div_left (by omega) (by omega)
      have : a.natAbs / 2 ≤ 2 ^ 62 := by omega
      omega

/-- Of two values, the truncated remainder always fits: it is smaller than the divisor. -/
theorem fits_tmod {a b : Int} (hb : Fits b) (hb0 : b ≠ 0) : Fits (a.tmod b) := by
  simp only [Fits, minValue, maxValue] at *
  have habs : (a.tmod b).natAbs = a.natAbs % b.natAbs := Int.natAbs_tmod a b
  have hlt : a.natAbs % b.natAbs < b.natAbs := Nat.mod_lt _ (by omega)
  omega

/-! ## The specification on the integers -/

namespace Operator

/-- Whether the operator divides, and so fails on a zero divisor. -/
def divides : Operator → Bool
  | div | rem => true
  | _ => false

/-- The value of `a op b` over the integers. -/
def exact : Operator → Int → Int → Int
  | add, a, b => a + b
  | sub, a, b => a - b
  | mul, a, b => a * b
  | div, a, b => a.tdiv b
  | rem, a, b => a - b * a.tdiv b
  | lt, a, b => if a < b then 1 else 0
  | gt, a, b => if a > b then 1 else 0

/-- What the language makes of `a op b`, decided on the integers: a zero divisor first, then
the exact result when it fits and the operation is not `-2^63 % -1`, else an overflow. -/
def checkedSpec (o : Operator) (a b : Int) : Except ArithFault Int :=
  if o.divides ∧ b = 0 then .error .divisionByZero
  else if Fits (o.exact a b) ∧ ¬(o = rem ∧ a = minValue ∧ b = -1) then .ok (o.exact a b)
  else .error .overflow

example : checkedSpec rem minValue (-1) = .error .overflow := rfl
example : exact rem minValue (-1) = 0 := by decide

/-- A successful result of the specification is the exact result, of a nonzero divisor when the
operator divides. -/
theorem eq_exact_of_checkedSpec_eq_ok {o : Operator} {a b v : Int}
    (h : o.checkedSpec a b = .ok v) : v = o.exact a b ∧ ¬(o.divides ∧ b = 0) := by
  unfold checkedSpec at h
  split at h
  · cases h
  · rename_i hz
    split at h
    · cases h
      exact ⟨rfl, hz⟩
    · cases h

end Operator

/-! ## Values against the specification -/

/-- A checked result read as an integer: the exact result when it fits, else an overflow. -/
theorem map_toInt_checked (r : Int) :
    (checked r).map Int64.toInt = if Fits r then .ok r else .error .overflow := by
  unfold checked
  split
  · rename_i h
    have e : (Int64.ofInt r).toInt = r := by
      simp only [Fits, minValue, maxValue] at h
      exact Int64.toInt_ofInt_of_le (by omega) (by omega)
    simp only [Except.map, e]
  · rfl

@[simp] theorem toInt_ofBool (c : Bool) : (ofBool c).toInt = if c then 1 else 0 := by
  cases c <;> rfl

theorem toInt_eq_zero_iff {b : Int64} : b.toInt = 0 ↔ b = 0 := by
  rw [← Int64.toInt_zero, Int64.toInt_inj]

/-- A remainder by a nonzero divisor is the exact remainder, unless its quotient overflows. -/
theorem map_toInt_remainder {a b : Int64} (hb : b.toInt ≠ 0) :
    (remainder a b).map Int64.toInt =
      if Fits (a.toInt.tdiv b.toInt) then .ok (a.toInt.tmod b.toInt) else .error .overflow := by
  unfold remainder quotient
  rcases hq : checked (a.toInt.tdiv b.toInt) with e | q
  · obtain ⟨hfit, rfl⟩ := checked_eq_error_iff.1 hq
    rw [if_neg hfit]
    rfl
  · have hfit := (checked_eq_ok_iff.1 hq).1
    have hr := map_toInt_checked (a.toInt.tmod b.toInt)
    rw [if_pos (fits_tmod (fits_toInt b) hb)] at hr
    rw [if_pos hfit, ← hr]
    rfl

namespace Operator

variable (a b : Int64)

theorem map_toInt_apply_div :
    (div.apply a b).map Int64.toInt = div.checkedSpec a.toInt b.toInt := by
  by_cases hb : b = 0
  · simp [apply, checkedSpec, divides, hb, Except.map]
  · have hb' : b.toInt ≠ 0 := fun h => hb (toInt_eq_zero_iff.1 h)
    simp only [apply, hb, if_false, quotient, map_toInt_checked, checkedSpec, divides, exact,
      true_and, hb', reduceCtorEq, false_and, not_false_eq_true, and_true]

theorem map_toInt_apply_rem :
    (rem.apply a b).map Int64.toInt = rem.checkedSpec a.toInt b.toInt := by
  by_cases hb : b = 0
  · simp [apply, checkedSpec, divides, hb, Except.map]
  · have hb' : b.toInt ≠ 0 := fun h => hb (toInt_eq_zero_iff.1 h)
    -- the remainder always fits, so only `-2^63 % -1`, whose quotient does not, fails
    have hr := fits_tmod (a := a.toInt) (fits_toInt b) hb'
    have hspec : rem.checkedSpec a.toInt b.toInt =
        if ¬(a.toInt = minValue ∧ b.toInt = -1) then .ok (a.toInt.tmod b.toInt)
        else .error .overflow := by
      simp [checkedSpec, divides, exact, ← Int.tmod_def, hb', hr]
    simp only [apply, hb, if_false, map_toInt_remainder hb', hspec,
      fits_tdiv_iff (fits_toInt a) hb']

/-- An operator on two values is its specification on their integers. -/
theorem map_toInt_apply (o : Operator) (a b : Int64) :
    (o.apply a b).map Int64.toInt = o.checkedSpec a.toInt b.toInt := by
  cases o with
  | div => exact map_toInt_apply_div a b
  | rem => exact map_toInt_apply_rem a b
  | add | sub | mul => simp [apply, checkedSpec, divides, exact, map_toInt_checked]
  | lt =>
    by_cases h : a.toInt < b.toInt <;>
      simp [apply, checkedSpec, divides, exact, h, Fits, minValue, maxValue, Except.map]
  | gt =>
    by_cases h : b.toInt < a.toInt <;>
      simp [apply, checkedSpec, divides, exact, h, Fits, minValue, maxValue, Except.map]

/-- When `a / b` and `a % b` are `q` and `r`, then `a = b * q + r`, the remainder is smaller
than the divisor, and it is zero or has the sign of the dividend. -/
theorem div_rem_identity {a b q r : Int64} (hq : div.apply a b = .ok q)
    (hr : rem.apply a b = .ok r) :
    a.toInt = b.toInt * q.toInt + r.toInt ∧ r.toInt.natAbs < b.toInt.natAbs ∧
      (r.toInt = 0 ∨ r.toInt.sign = a.toInt.sign) := by
  have hq' : div.checkedSpec a.toInt b.toInt = .ok q.toInt := by
    rw [← map_toInt_apply, hq]
    rfl
  have hr' : rem.checkedSpec a.toInt b.toInt = .ok r.toInt := by
    rw [← map_toInt_apply, hr]
    rfl
  obtain ⟨hqv, hb⟩ := eq_exact_of_checkedSpec_eq_ok hq'
  have hb0 : b.toInt ≠ 0 := by simpa [divides] using hb
  have hrv : r.toInt = a.toInt.tmod b.toInt := by
    rw [(eq_exact_of_checkedSpec_eq_ok hr').1, exact, Int.tmod_def]
  refine ⟨?_, ?_, ?_⟩
  · rw [hqv, exact, hrv, Int.mul_tdiv_add_tmod]
  · rw [hrv, Int.natAbs_tmod]
    exact Nat.mod_lt _ (Int.natAbs_pos.2 hb0)
  · -- the remainder vanishes exactly on a multiple of the divisor
    by_cases hd : b.toInt ∣ a.toInt
    · exact .inl (hrv ▸ Int.tmod_eq_zero_of_dvd hd)
    · exact .inr (by rw [hrv, Int.sign_tmod, if_neg hd])

/-- The checked operators: each operator on two values is its specification on their integers,
and where a quotient and a remainder both exist they satisfy the division identity, with the
remainder smaller than the divisor and of the sign of the dividend. -/
theorem apply_eq_checkedSpec_and_div_rem (a b : Int64) :
    (∀ o : Operator, (o.apply a b).map Int64.toInt = o.checkedSpec a.toInt b.toInt) ∧
    ∀ q r : Int64, div.apply a b = .ok q → rem.apply a b = .ok r →
      a.toInt = b.toInt * q.toInt + r.toInt ∧ r.toInt.natAbs < b.toInt.natAbs ∧
        (r.toInt = 0 ∨ r.toInt.sign = a.toInt.sign) :=
  ⟨fun o => map_toInt_apply o a b, fun _ _ => div_rem_identity⟩

end Operator

end Parenthetic
