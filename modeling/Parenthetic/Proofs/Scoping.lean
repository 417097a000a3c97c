import Mathlib.Logic.Relation
import Parenthetic.Eval

set_option autoImplicit false

/-! # Flat scoping

A call evaluates its callee's body in a frame that binds the parameters and nothing else, so
what an expression evaluates to depends on the frame only through the names it refers to
itself (`Expr.refs`, call arguments included, bodies of called functions excluded), and on the
function table only through the functions it reaches (`Expr.Reaches`: those it calls, and those
their bodies reach in turn). `Expr.evaluate_eq_of_agree` states this as non-interference: two
evaluations whose frames agree on the first and whose tables agree on the second have the same
outcome, be it a value, a runtime error, or calls nested beyond the bound.

The proof is the two recursions of the evaluator. One level (`evalWith_congr`) follows the
expression, and asks of the callee evaluation only that it agree on the bodies of the functions
the expression calls directly; the depth bound (`eval_congr`) then supplies that agreement by
induction, each body being evaluated in the same fresh frame on both sides.
-/

namespace Parenthetic

namespace Expr

mutual

/-- The names an expression refers to, inside call arguments too. -/
def refs : Expr → List String
  | const _ _ => []
  | neg e _ => refs e
  | binary _ l r => refs l ++ refs r
  | cond c a b => refs c ++ refs a ++ refs b
  | var x _ => [x]
  | call _ args _ => refsArgs args

/-- `refs` of each argument. -/
def refsArgs : List Expr → List String
  | [] => []
  | a :: as => refs a ++ refsArgs as

end

mutual

/-- The names of the functions an expression calls, inside call arguments too. -/
def callees : Expr → List String
  | const _ _ | var _ _ => []
  | neg e _ => callees e
  | binary _ l r => callees l ++ callees r
  | cond c a b => callees c ++ callees a ++ callees b
  | call f args _ => f :: calleesArgs args

/-- `callees` of each argument. -/
def calleesArgs : List Expr → List String
  | [] => []
  | a :: as => callees a ++ calleesArgs as

end

end Expr

/-- In the table `F`, the body of the function named `g` calls `f`. -/
def FunctionTable.Calls (F : FunctionTable) (g f : String) : Prop :=
  ∃ fn, F.find? g = some fn ∧ f ∈ fn.body.callees

/-- The functions an expression reaches in `F`: those it calls, and those the bodies of reached
functions call. -/
def Expr.Reaches (F : FunctionTable) (e : Expr) (f : String) : Prop :=
  ∃ g ∈ e.callees, Relation.ReflTransGen F.Calls g f

namespace Expr

section

variable {F : FunctionTable} {e : Expr} {f g : String} {fn : Function}

theorem Reaches.of_mem (hf : f ∈ e.callees) : e.Reaches F f := ⟨f, hf, .refl⟩

/-- What the body of a called function reaches, the caller reaches too. -/
theorem Reaches.of_body (hf : f ∈ e.callees) (hfn : F.find? f = some fn)
    (h : fn.body.Reaches F g) : e.Reaches F g := by
  obtain ⟨g₀, hg₀, hrt⟩ := h
  exact ⟨f, hf, .head ⟨fn, hfn, hg₀⟩ hrt⟩

end

section

variable {F₁ F₂ : FunctionTable} {body₁ body₂ : Frame → Expr → Outcome Int64}

mutual

/-- One level of evaluation depends on the frame only through the names the expression refers
to, and on the table and the callee evaluation only through the functions it calls. -/
theorem evalWith_congr : ∀ (e : Expr) (σ₁ σ₂ : Frame),
    (∀ x ∈ e.refs, σ₁.get? x = σ₂.get? x) → (∀ f ∈ e.callees, F₁.find? f = F₂.find? f) →
    (∀ f ∈ e.callees, ∀ fn, F₁.find? f = some fn → ∀ σ, body₁ σ fn.body = body₂ σ fn.body) →
    evalWith F₁ body₁ σ₁ e = evalWith F₂ body₂ σ₂ e
  | const _ _, _, _, _, _, _ => rfl
  | neg e _, σ₁, σ₂, hσ, hF, hbody => by
    simp only [evalWith]
    rw [evalWith_congr e σ₁ σ₂ hσ hF hbody]
  | binary o l r, σ₁, σ₂, hσ, hF, hbody => by
    simp only [evalWith]
    rw [evalWith_congr l σ₁ σ₂ (fun x hx => hσ x (List.mem_append_left _ hx))
        (fun f hf => hF f (List.mem_append_left _ hf))
        (fun f hf => hbody f (List.mem_append_left _ hf)),
      evalWith_congr r σ₁ σ₂ (fun x hx => hσ x (List.mem_append_right _ hx))
        (fun f hf => hF f (List.mem_append_right _ hf))
        (fun f hf => hbody f (List.mem_append_right _ hf))]
  | cond c a b, σ₁, σ₂, hσ, hF, hbody => by
    simp only [evalWith]
    rw [evalWith_congr c σ₁ σ₂ (fun x hx => hσ x (by simp [refs, hx]))
        (fun f hf => hF f (by simp [callees, hf])) (fun f hf => hbody f (by simp [callees, hf])),
      evalWith_congr a σ₁ σ₂ (fun x hx => hσ x (by simp [refs, hx]))
        (fun f hf => hF f (by simp [callees, hf])) (fun f hf => hbody f (by simp [callees, hf])),
      evalWith_congr b σ₁ σ₂ (fun x hx => hσ x (by simp [refs, hx]))
        (fun f hf => hF f (by simp [callees, hf])) (fun f hf => hbody f (by simp [callees, hf]))]
  | var x _, σ₁, σ₂, hσ, _, _ => by
    simp only [evalWith]
    rw [hσ x (by simp [refs])]
  | call f args pos, σ₁, σ₂, hσ, hF, hbody => by
    have hf : f ∈ (call f args pos).callees := by simp [callees]
    simp only [evalWith]
    rw [← hF f hf]
    rcases hfind : F₁.find? f with _ | fn
    · rfl
    -- the arguments are evaluated in the caller's frames, the body in the same new frame
    have hargs := evalArgsWith_congr args σ₁ σ₂ (fun x hx => hσ x (by simpa [refs] using hx))
      (fun g hg => hF g (by simp [callees, hg])) (fun g hg => hbody g (by simp [callees, hg]))
    simp only [hargs]
    split
    · congr 1
      funext vs
      exact hbody f hf fn hfind _
    · rfl

theorem evalArgsWith_congr : ∀ (as : List Expr) (σ₁ σ₂ : Frame),
    (∀ x ∈ refsArgs as, σ₁.get? x = σ₂.get? x) → (∀ f ∈ calleesArgs as, F₁.find? f = F₂.find? f) →
    (∀ f ∈ calleesArgs as, ∀ fn, F₁.find? f = some fn → ∀ σ, body₁ σ fn.body = body₂ σ fn.body) →
    evalArgsWith F₁ body₁ σ₁ as = evalArgsWith F₂ body₂ σ₂ as
  | [], _, _, _, _, _ => rfl
  | a :: as, σ₁, σ₂, hσ, hF, hbody => by
    simp only [evalArgsWith]
    rw [evalWith_congr a σ₁ σ₂ (fun x hx => hσ x (List.mem_append_left _ hx))
        (fun f hf => hF f (List.mem_append_left _ hf))
        (fun f hf => hbody f (List.mem_append_left _ hf)),
      evalArgsWith_congr as σ₁ σ₂ (fun x hx => hσ x (List.mem_append_right _ hx))
        (fun f hf => hF f (List.mem_append_right _ hf))
        (fun f hf => hbody f (List.mem_append_right _ hf))]

end

end

/-- At every bound on the depth of calls, the outcome depends on the frame only through the
names the expression refers to, and on the table only through the functions it reaches. -/
theorem eval_congr {F₁ F₂ : FunctionTable} (depth : Nat) : ∀ (e : Expr) (σ₁ σ₂ : Frame),
    (∀ x ∈ e.refs, σ₁.get? x = σ₂.get? x) → (∀ f, e.Reaches F₁ f → F₁.find? f = F₂.find? f) →
    e.eval F₁ depth σ₁ = e.eval F₂ depth σ₂ := by
  induction depth with
  | zero =>
    intro e σ₁ σ₂ hσ hF
    exact evalWith_congr e σ₁ σ₂ hσ (fun f hf => hF f (.of_mem hf)) fun _ _ _ _ _ => rfl
  | succ depth ih =>
    intro e σ₁ σ₂ hσ hF
    refine evalWith_congr e σ₁ σ₂ hσ (fun f hf => hF f (.of_mem hf)) ?_
    -- a called body runs in one frame on both sides and reaches only what the caller reaches
    intro f hf fn hfn σ
    exact ih fn.body σ σ (fun _ _ => rfl) fun g hg => hF g (.of_body hf hfn hg)

/-- Flat scoping: two evaluations of an expression whose frames agree on the names it refers to
and whose tables agree on the functions it reaches have the same outcome, at every bound on the
depth of calls (so they also run out of depth together), and so under `evaluate`. -/
theorem evaluate_eq_of_agree {e : Expr} {F₁ F₂ : FunctionTable} {σ₁ σ₂ : Frame}
    (hσ : ∀ x ∈ e.refs, σ₁.get? x = σ₂.get? x)
    (hF : ∀ f, e.Reaches F₁ f → F₁.find? f = F₂.find? f) :
    (∀ d, e.eval F₁ d σ₁ = e.eval F₂ d σ₂) ∧ e.evaluate F₁ σ₁ = e.evaluate F₂ σ₂ :=
  ⟨fun d => eval_congr d e σ₁ σ₂ hσ hF, eval_congr callDepthLimit e σ₁ σ₂ hσ hF⟩

/-- `f(y)` with `f(x)={x}`: the caller's binding of `x`, and a function `g` that only one of the
tables has and nothing calls, change nothing. -/
theorem evaluate_eq_of_agree_call :
    (∀ x ∈ (call "f" [var "y" .start] .start).refs,
      (Frame.ofList [("y", 1), ("x", 5)]).get? x = (Frame.ofList [("y", 1)]).get? x) ∧
    (∀ f, (call "f" [var "y" .start] .start).Reaches
        (FunctionTable.mk [⟨"f", ["x"], var "x" .start⟩, ⟨"g", [], const 7 .start⟩]) f →
      (FunctionTable.mk [⟨"f", ["x"], var "x" .start⟩, ⟨"g", [], const 7 .start⟩]).find? f =
        (FunctionTable.mk [⟨"f", ["x"], var "x" .start⟩]).find? f) ∧
    (call "f" [var "y" .start] .start).evaluate
        (FunctionTable.mk [⟨"f", ["x"], var "x" .start⟩, ⟨"g", [], const 7 .start⟩])
        (Frame.ofList [("y", 1), ("x", 5)]) =
      (call "f" [var "y" .start] .start).evaluate (FunctionTable.mk [⟨"f", ["x"], var "x" .start⟩])
        (Frame.ofList [("y", 1)]) := by
  have hσ : ∀ x ∈ (call "f" [var "y" .start] .start).refs,
      (Frame.ofList [("y", 1), ("x", 5)]).get? x = (Frame.ofList [("y", 1)]).get? x := by
    simp [refs, refsArgs, Frame.ofList, Frame.get?, Frame.bind, Frame.empty, List.lookup_cons]
  have hfind : (FunctionTable.mk [⟨"f", ["x"], var "x" .start⟩, ⟨"g", [], const 7 .start⟩]).find? "f" =
      some ⟨"f", ["x"], var "x" .start⟩ := by
    simp [FunctionTable.find?]
  -- the body of `f` calls nothing, so `f` reaches only itself
  have hreach : ∀ h, Relation.ReflTransGen
      (FunctionTable.mk [⟨"f", ["x"], var "x" .start⟩, ⟨"g", [], const 7 .start⟩]).Calls "f" h →
      h = "f" := by
    intro h hrt
    induction hrt with
    | refl => rfl
    | tail _ hbc ih =>
      subst ih
      obtain ⟨fn, hfn, hmem⟩ := hbc
      rw [hfind, Option.some.injEq] at hfn
      subst hfn
      simp [callees] at hmem
  have hF : ∀ f, (call "f" [var "y" .start] .start).Reaches
      (FunctionTable.mk [⟨"f", ["x"], var "x" .start⟩, ⟨"g", [], const 7 .start⟩]) f →
      (FunctionTable.mk [⟨"f", ["x"], var "x" .start⟩, ⟨"g", [], const 7 .start⟩]).find? f =
        (FunctionTable.mk [⟨"f", ["x"], var "x" .start⟩]).find? f := by
    rintro f ⟨g, hg, hrt⟩
    simp [callees, calleesArgs] at hg
    subst hg
    rw [hreach f hrt, hfind]
    simp [FunctionTable.find?]
  exact ⟨hσ, hF, (evaluate_eq_of_agree hσ hF).2⟩

end Expr

end Parenthetic
