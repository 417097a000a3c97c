import Mathlib.Logic.Relation
import Parenthetic.Proofs.Layout.Parse
import Parenthetic.Proofs.Layout.Scan

set_option autoImplicit false

/-! # Layout does not matter

A layout character (`IsLayout`) is any character but a line feed, an ASCII digit or letter, `_`
and the symbols of the operators and punctuation marks: a space, a tab, a carriage return, `#`
or `é`. Two texts are layout-equivalent (`LayoutEquiv`) when one comes from the other by
inserting and deleting layout characters, each time at a place where no run of digits and no
run of name characters goes on across it.

`LayoutEquiv.scan_result_run_eq`: layout-equivalent texts scan alike up to columns, have the
same result up to the column of a syntax error, and report the same line. So a carriage return
before each line feed changes nothing.

The scanner reads a layout character as a blank (`Scan.rows_scanFrom_insert`), the parser copies
positions without looking at them (`Program.parse_map_mapPos`) and evaluation reports rows only
(`Program.evaluate_mapPos`): the result up to columns is a function of the scan up to columns.
-/

namespace Parenthetic

/-- The characters of the operators and of the punctuation marks, the line feed apart. -/
def symbolChars : List Char :=
  ['+', '-', '*', '/', '%', '<', '>', '(', ')', '[', ']', '\x7b', '\x7d', '?', ':', '=', ',']

/-- A character that writes nothing: not a line feed, not an ASCII digit or letter, not `_`, and
not the symbol of an operator or of a punctuation mark. -/
def IsLayout (c : Char) : Prop :=
  c ≠ '\n' ∧ c.isDigit = false ∧ c.isAlpha = false ∧ c ≠ '_' ∧ c ∉ symbolChars

instance : DecidablePred IsLayout := fun c => by
  unfold IsLayout
  infer_instance

example : IsLayout '\r' ∧ IsLayout ' ' ∧ IsLayout '#' ∧ ¬IsLayout '=' := by decide

/-- The scanner skips a layout character. -/
theorem Scan.blank_of_isLayout {c : Char} (h : IsLayout c) : Scan.Blank c := by
  obtain ⟨hnl, hd, ha, hu, hsym⟩ := h
  refine ⟨hd, by simp [Token.isNameChar, ha, hu], ?_⟩
  cases ht : Token.ofChar? c with
  | none => rfl
  | some t =>
    -- every symbol is in the list but the line feed's
    rcases Token.eq_symbol_of_ofChar? ht with ⟨o, -, rfl⟩ | ⟨p, -, rfl⟩
    · cases o <;> exact absurd hsym (by decide)
    · cases p <;> first | exact absurd hsym (by decide) | exact absurd rfl hnl

/-- `s'` is `s` with layout characters inserted at one place where no digit run and no name run
goes on across it. -/
def InsertsLayout (s s' : String) : Prop :=
  ∃ u v w : List Char, s.toList = u ++ v ∧ s'.toList = u ++ w ++ v ∧ (∀ c ∈ w, IsLayout c) ∧
    Scan.Separated u v

/-- Texts related by inserting and deleting layout where no run goes on across it. -/
def LayoutEquiv : String → String → Prop := Relation.EqvGen InsertsLayout

theorem rows_scan_of_insertsLayout {s s' : String} (h : InsertsLayout s s') :
    Scan.rows (Lexeme.scan s') = Scan.rows (Lexeme.scan s) := by
  obtain ⟨u, v, w, hs, hs', hw, huv⟩ := h
  rw [Lexeme.scan, Lexeme.scan, hs, hs']
  exact Scan.rows_scanFrom_insert huv (fun c hc => Scan.blank_of_isLayout (hw c hc)) _

/-! ## The result up to columns is fixed by the scan up to columns -/

/-- The program of a text, with positions at the starts of their rows, is the parse of its scan
up to columns. -/
theorem Program.ofSource_rowStart (s : String) :
    ((Program.ofSource s).map (Program.mapPos Position.rowStart)).mapError
        (SyntaxError.mapPos Position.rowStart) =
      Scan.rows (Lexeme.scan s) >>= Program.parse := by
  rw [Program.ofSource]
  cases Lexeme.scan s with
  | error e => rfl
  | ok ls => exact (Program.parse_map_mapPos _ ls).symm

/-- The value of a parsed program, or why there is none. -/
def resultOfParse : Except SyntaxError Program → Except Failure Int64
  | .error e => .error (.syntaxError e)
  | .ok p => p.evaluate.toExcept

theorem resultOf_eq_resultOfParse (s : String) : resultOf s = resultOfParse (Program.ofSource s) :=
  rfl

/-- An evaluation never fails with a syntax error. -/
theorem Outcome.mapError_toExcept (f : Position → Position) (o : Outcome Int64) :
    o.toExcept.mapError (Failure.mapPos f) = o.toExcept := by
  cases o <;> rfl

theorem mapError_resultOfParse (x : Except SyntaxError Program) :
    (resultOfParse x).mapError (Failure.mapPos Position.rowStart) =
      resultOfParse ((x.map (Program.mapPos Position.rowStart)).mapError
        (SyntaxError.mapPos Position.rowStart)) := by
  cases x with
  | error e => rfl
  | ok p =>
    show p.evaluate.toExcept.mapError _ = (p.mapPos _).evaluate.toExcept
    rw [Outcome.mapError_toExcept, Program.evaluate_mapPos Position.row_rowStart]

theorem mapError_resultOf (s : String) :
    (resultOf s).mapError (Failure.mapPos Position.rowStart) =
      resultOfParse (Scan.rows (Lexeme.scan s) >>= Program.parse) := by
  rw [resultOf_eq_resultOfParse, mapError_resultOfParse, Program.ofSource_rowStart]

/-- At every bound on the depth of calls, the outcome of a text's program, or the syntax error
up to its column, is fixed by the scan up to columns. -/
theorem mapError_eval_ofSource (s : String) (d : Nat) :
    ((Program.ofSource s).map fun p => p.main.eval p.functions d .empty).mapError
        (SyntaxError.mapPos Position.rowStart) =
      (Scan.rows (Lexeme.scan s) >>= Program.parse).map
        fun p => p.main.eval p.functions d .empty := by
  rw [← Program.ofSource_rowStart]
  cases Program.ofSource s with
  | error e => rfl
  | ok p =>
    -- moving positions within their rows changes no outcome
    exact congrArg Except.ok
      (Expr.eval_mapPos Position.row_rowStart p.functions d .empty p.main).symm

/-- The line reported for a result. -/
def report : Except Failure Int64 → String
  | .ok v => toString v.toInt
  | .error f => f.line

theorem run_eq_report (s : String) : run s = report (resultOf s) := rfl

/-- The reported line of a syntax error does not show its position. -/
theorem report_mapError (g : Position → Position) (x : Except Failure Int64) :
    report (x.mapError (Failure.mapPos g)) = report x := by
  rcases x with (_ | _ | _) | v <;> rfl

/-! ## Layout-equivalent texts -/

/-- Layout does not matter: layout-equivalent texts scan to the same tokens on the same rows
(or to the same oversized literal on the same row), have the same value or runtime failure and
the same syntax error up to its column, and report the same line. Their programs have the same
outcome at every bound on the depth of calls, so they also run out of depth together. -/
theorem LayoutEquiv.scan_result_run_eq {s s' : String} (h : LayoutEquiv s s') :
    Scan.rows (Lexeme.scan s') = Scan.rows (Lexeme.scan s) ∧
      (resultOf s').mapError (Failure.mapPos Position.rowStart) =
        (resultOf s).mapError (Failure.mapPos Position.rowStart) ∧
      run s' = run s ∧
      ∀ d, ((Program.ofSource s').map fun p => p.main.eval p.functions d .empty).mapError
          (SyntaxError.mapPos Position.rowStart) =
        ((Program.ofSource s).map fun p => p.main.eval p.functions d .empty).mapError
          (SyntaxError.mapPos Position.rowStart) := by
  -- the scan up to columns is an invariant of each insertion, so of its equivalence closure
  have hrows : Scan.rows (Lexeme.scan s') = Scan.rows (Lexeme.scan s) := by
    induction h with
    | rel _ _ h => exact rows_scan_of_insertsLayout h
    | refl => rfl
    | symm _ _ _ ih => exact ih.symm
    | trans _ _ _ _ _ ih₁ ih₂ => exact ih₂.trans ih₁
  have hresult : (resultOf s').mapError (Failure.mapPos Position.rowStart) =
      (resultOf s).mapError (Failure.mapPos Position.rowStart) := by
    rw [mapError_resultOf, mapError_resultOf, hrows]
  refine ⟨hrows, hresult, ?_, fun d => by rw [mapError_eval_ofSource, mapError_eval_ofSource, hrows]⟩
  rw [run_eq_report, run_eq_report, ← report_mapError Position.rowStart, hresult, report_mapError]

/-- Line feeds written as carriage return and line feed change nothing. -/
theorem LayoutEquiv.scan_result_run_eq_crlf :
    LayoutEquiv "f(x)=\x7b(x*2)\x7d\nf(21)" "f(x)=\x7b(x*2)\x7d\r\nf(21)" ∧
      Scan.rows (Lexeme.scan "f(x)=\x7b(x*2)\x7d\r\nf(21)") =
        Scan.rows (Lexeme.scan "f(x)=\x7b(x*2)\x7d\nf(21)") ∧
      (resultOf "f(x)=\x7b(x*2)\x7d\r\nf(21)").mapError (Failure.mapPos Position.rowStart) =
        (resultOf "f(x)=\x7b(x*2)\x7d\nf(21)").mapError (Failure.mapPos Position.rowStart) ∧
      run "f(x)=\x7b(x*2)\x7d\r\nf(21)" = run "f(x)=\x7b(x*2)\x7d\nf(21)" := by
  have h : LayoutEquiv "f(x)=\x7b(x*2)\x7d\nf(21)" "f(x)=\x7b(x*2)\x7d\r\nf(21)" := by
    refine .rel _ _ ⟨"f(x)=\x7b(x*2)\x7d".toList, "\nf(21)".toList, ['\r'], by decide, by decide,
      List.forall_mem_singleton.2 (by decide), ?_⟩
    -- the text before the carriage return ends in a brace
    have hlast : ("f(x)=\x7b(x*2)\x7d".toList).getLast? = some '\x7d' := by rfl
    exact Scan.Separated.of_getLast? hlast (by decide) (by decide)
  obtain ⟨hrows, hresult, hrun, -⟩ := LayoutEquiv.scan_result_run_eq h
  exact ⟨h, hrows, hresult, hrun⟩

end Parenthetic
