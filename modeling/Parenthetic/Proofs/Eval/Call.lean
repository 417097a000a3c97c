import Mathlib.Data.List.Forall2
import Parenthetic.Proofs.Scoping

set_option autoImplicit false

/-! # Calls

A call is checked before any part of it is evaluated: the function must be defined, and the call
must pass as many arguments as the function has parameters. A call that fails a check fails
whatever its arguments are, even arguments that would fail or nest calls too deep. Past the
checks the arguments are evaluated from left to right in the caller's frame, the first one
that fails ends the call with its error, and the body is evaluated in a new frame of the
parameters alone. A parameter name may stand twice; the frame binds it to the argument at its
last position (`Frame.BindsLast`).

`Expr.eval_call_checks_first_binds_last` states this at every bound on the depth of calls. It
fixes the frame of the body only through what the frame binds, which is all that evaluation
reads of a frame (`Expr.eval_congr`).
-/

namespace Parenthetic

/-- Looking a key up from the end of a list of pairs finds the pair where the key stands last. -/
theorem lookup_reverse_eq_of_last {α β : Type} [BEq α] [LawfulBEq α] :
    ∀ {xs : List (α × β)} {i : Nat} {a : α} {b : β}, xs[i]? = some (a, b) →
      (∀ j, i < j → ∀ c, xs[j]? ≠ some (a, c)) → xs.reverse.lookup a = some b
  | [], _, _, _, hi, _ => by simp at hi
  | x :: xs, 0, a, b, hi, hlast => by
    obtain rfl : x = (a, b) := by simpa using hi
    -- the key does not stand in the rest, so the lookup passes over all of it
    have hnone : xs.reverse.lookup a = none := by
      rw [List.lookup_eq_none_iff]
      intro p hp
      obtain ⟨j, hj⟩ := List.mem_iff_getElem?.1 (List.mem_reverse.1 hp)
      have hne := hlast (j + 1) (Nat.succ_pos j) p.2
      rw [List.getElem?_cons_succ, hj] at hne
      rw [bne_iff_ne]
      rintro rfl
      exact hne rfl
    simp [List.lookup_append, hnone]
  | x :: xs, i + 1, a, b, hi, hlast => by
    have ih := lookup_reverse_eq_of_last (i := i) (by simpa using hi)
      fun j hj c => by simpa using hlast (j + 1) (by omega) c
    simp [List.lookup_append, ih]

namespace Frame

/-- `τ` binds exactly the names of `ps`, each to the value that `vs` has at the last position
of the name in `ps`. -/
def BindsLast (τ : Frame) (ps : List String) (vs : List Int64) : Prop :=
  (∀ p, τ.get? p = none ↔ p ∉ ps) ∧
    ∀ (i : Nat) p, ps[i]? = some p → (∀ j, i < j → ps[j]? ≠ some p) → τ.get? p = vs[i]?

/-- Every member of a list stands at a last position in it. -/
theorem exists_last_of_mem {ps : List String} {p : String} (h : p ∈ ps) :
    ∃ i : Nat, ps[i]? = some p ∧ ∀ j, i < j → ps[j]? ≠ some p := by
  induction ps with
  | nil => simp at h
  | cons q ps ih =>
    by_cases hp : p ∈ ps
    · obtain ⟨i, hi, hlast⟩ := ih hp
      refine ⟨i + 1, by simpa using hi, fun j hj => ?_⟩
      obtain ⟨j, rfl⟩ : ∃ j', j = j' + 1 := ⟨j - 1, by omega⟩
      simpa using hlast j (by omega)
    · obtain rfl : p = q := by simpa [hp] using h
      refine ⟨0, rfl, fun j hj => ?_⟩
      obtain ⟨j, rfl⟩ : ∃ j', j = j' + 1 := ⟨j - 1, by omega⟩
      exact fun hj' => hp (List.mem_of_getElem? (by simpa using hj'))

/-- Two frames that bind the same parameters at their last positions agree on every name. -/
theorem BindsLast.get?_eq {τ₁ τ₂ : Frame} {ps : List String} {vs : List Int64}
    (h₁ : τ₁.BindsLast ps vs) (h₂ : τ₂.BindsLast ps vs) (p : String) : τ₁.get? p = τ₂.get? p := by
  by_cases hp : p ∈ ps
  · obtain ⟨i, hi, hlast⟩ := exists_last_of_mem hp
    rw [h₁.2 i p hi hlast, h₂.2 i p hi hlast]
  · rw [(h₁.1 p).2 hp, (h₂.1 p).2 hp]

/-- The frame a call builds from its parameters and as many values binds each parameter at its
last position. -/
theorem bindsLast_ofList_zip {ps : List String} {vs : List Int64} (h : ps.length = vs.length) :
    (ofList (ps.zip vs)).BindsLast ps vs := by
  refine ⟨fun p => ?_, fun i p hi hlast => ?_⟩
  · rw [get?_ofList, List.lookup_eq_none_iff]
    have hkeys : (ps.zip vs).map Prod.fst = ps := List.map_fst_zip (Nat.le_of_eq h)
    conv_rhs => rw [← hkeys]
    simp only [List.mem_reverse, bne_iff_ne, ne_eq, List.mem_map, not_exists, not_and]
    exact ⟨fun hne q hq hq₁ => hne q hq hq₁.symm, fun hne q hq hq₁ => hne q hq hq₁.symm⟩
  · obtain ⟨v, hv⟩ : ∃ v, vs[i]? = some v := by
      have : i < vs.length := h ▸ (List.getElem?_eq_some_iff.1 hi).1
      exact ⟨vs[i], List.getElem?_eq_getElem this⟩
    rw [get?_ofList, hv]
    refine lookup_reverse_eq_of_last (i := i) (List.getElem?_zip_eq_some.2 ⟨hi, hv⟩) ?_
    exact fun j hj c hc => hlast j hj (List.getElem?_zip_eq_some.1 hc).1

end Frame

namespace Expr

section

variable {F : FunctionTable} {body : Frame → Expr → Outcome Int64} {σ : Frame}

/-- Arguments that all have values evaluate to the list of them. -/
theorem evalArgsWith_of_forall₂ {as : List Expr} {vs : List Int64}
    (h : List.Forall₂ (fun a v => evalWith F body σ a = .done v) as vs) :
    evalArgsWith F body σ as = .done vs := by
  induction h with
  | nil => rfl
  | cons ha _ ih => simp [evalArgsWith, ha, ih]

/-- The first argument that fails ends the evaluation of the arguments with its error; the
arguments after it are not evaluated. -/
theorem evalArgsWith_of_failed {before after : List Expr} {a : Expr} {vs : List Int64}
    {ε : RuntimeError} (hbefore : List.Forall₂ (fun b v => evalWith F body σ b = .done v) before vs)
    (ha : evalWith F body σ a = .failed ε) :
    evalArgsWith F body σ (before ++ a :: after) = .failed ε := by
  induction hbefore with
  | nil => simp [evalArgsWith, ha]
  | cons hb _ ih => simp [evalArgsWith, hb, ih]

variable {f : String} {args : List Expr} {pos : Position} {fn : Function}

theorem evalWith_call_of_find?_none (h : F.find? f = none) :
    evalWith F body σ (call f args pos) = .failed (.undefinedFunction f pos.row) := by
  simp [evalWith, h]

theorem evalWith_call_of_length_ne (hf : F.find? f = some fn) (hlen : args.length ≠ fn.arity) :
    evalWith F body σ (call f args pos) =
      .failed (.arityMismatch f fn.arity args.length pos.row) := by
  simp [evalWith, hf, hlen]

theorem evalWith_call_of_length_eq (hf : F.find? f = some fn) (hlen : args.length = fn.arity) :
    evalWith F body σ (call f args pos) =
      evalArgsWith F body σ args >>= fun vs => body (Frame.ofList (fn.params.zip vs)) fn.body := by
  simp [evalWith, hf, hlen]

end

/-- Evaluation reads a frame only through the values it gives to names. -/
theorem eval_eq_of_get?_eq (F : FunctionTable) (d : Nat) (e : Expr) {τ₁ τ₂ : Frame}
    (h : ∀ x, τ₁.get? x = τ₂.get? x) : e.eval F d τ₁ = e.eval F d τ₂ :=
  eval_congr d e τ₁ τ₂ (fun x _ => h x) fun _ _ => rfl

/-- A call whose arguments all have values evaluates the body in every frame that binds the
parameters to them at their last positions. -/
theorem eval_call_of_forall₂ {F : FunctionTable} {σ : Frame} {f : String} {args : List Expr}
    {pos : Position} {fn : Function} {d : Nat} {vs : List Int64} (hf : F.find? f = some fn)
    (hlen : args.length = fn.arity)
    (hvs : List.Forall₂ (fun b v => b.eval F (d + 1) σ = .done v) args vs) {τ : Frame}
    (hτ : τ.BindsLast fn.params vs) : (call f args pos).eval F (d + 1) σ = fn.body.eval F d τ := by
  have hzip : (Frame.ofList (fn.params.zip vs)).BindsLast fn.params vs :=
    Frame.bindsLast_ofList_zip (hlen.symm.trans hvs.length_eq)
  show evalWith F (eval F d) σ (call f args pos) = _
  rw [evalWith_call_of_length_eq hf hlen, evalArgsWith_of_forall₂ hvs, Outcome.done_bind]
  exact eval_eq_of_get?_eq F d fn.body (hzip.get?_eq hτ)

/-- Calls are checked before their arguments are evaluated, and bind repeated parameters to the
last argument. At every bound `d + 1` on the depth of calls, a call of `f` in the frame `σ`

* fails with `undefinedFunction` when `f` is not defined, whatever the arguments;
* fails with `arityMismatch` when the number of arguments is not the arity of `f`, whatever
  arguments of that number it is given;
* otherwise fails with the error of the first argument that fails, the arguments before it
  having values, whatever follows it;
* and when all arguments have values `vs`, is the body of `f` evaluated, one level down, in any
  frame that binds exactly the parameters, each to the value at its last position. -/
theorem eval_call_checks_first_binds_last (F : FunctionTable) (σ : Frame) (f : String)
    (args : List Expr) (pos : Position) (d : Nat) :
    (F.find? f = none → ∀ args' : List Expr,
      (call f args' pos).eval F (d + 1) σ = .failed (.undefinedFunction f pos.row)) ∧
    ∀ fn, F.find? f = some fn →
      (args.length ≠ fn.arity → ∀ args' : List Expr, args'.length = args.length →
        (call f args' pos).eval F (d + 1) σ =
          .failed (.arityMismatch f fn.arity args.length pos.row)) ∧
      (args.length = fn.arity →
        (∀ before a after vs ε, args = before ++ a :: after →
          List.Forall₂ (fun b v => b.eval F (d + 1) σ = .done v) before vs →
          a.eval F (d + 1) σ = .failed ε → (call f args pos).eval F (d + 1) σ = .failed ε) ∧
        ∀ vs, List.Forall₂ (fun b v => b.eval F (d + 1) σ = .done v) args vs →
          ∀ τ : Frame, τ.BindsLast fn.params vs →
            (call f args pos).eval F (d + 1) σ = fn.body.eval F d τ) := by
  refine ⟨fun hf args' => evalWith_call_of_find?_none hf, fun fn hf => ⟨?_, fun hlen => ⟨?_, ?_⟩⟩⟩
  · intro hlen args' hlen'
    rw [← hlen']
    exact evalWith_call_of_length_ne hf (hlen' ▸ hlen)
  · rintro before a after vs ε rfl hbefore ha
    show evalWith F (eval F d) σ _ = _
    rw [evalWith_call_of_length_eq hf hlen, evalArgsWith_of_failed hbefore ha]
    rfl
  · intro vs hvs τ hτ
    exact eval_call_of_forall₂ hf hlen hvs hτ

example : (call "g" [const 1 .start, const 2 .start] .start).evaluate
    ⟨[⟨"g", ["x", "x"], var "x" .start⟩]⟩ .empty = .done 2 := by
  decide +kernel

end Expr

end Parenthetic
