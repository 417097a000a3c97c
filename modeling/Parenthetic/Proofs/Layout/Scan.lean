import Parenthetic.Proofs.Scan.Specification
import Parenthetic.Proofs.Layout.Relabel

set_option autoImplicit false

/-! # Scanning across a word boundary

Where no run of digits and no run of name characters goes on from the end of one text into the
next (`Scan.Separated`), scanning the two one after the other is scanning each on its own, the
second from the position the first leaves (`Scan.scanFrom_append`). A blank, a character that
is not a digit, not a name character and not a symbol of the language, is skipped and only
moves the column (`Scan.scanFrom_blanks`). And the start position matters only through its row:
two scans from the same row agree up to columns (`Scan.rows_scanFrom`).

Together: inserting blanks where no run goes on changes the scan only in columns
(`Scan.rows_scanFrom_insert`).
-/

namespace Parenthetic

/-- The position after the characters `cs`, read from `p`: a line feed starts the next row and
any other character moves one column. -/
def Position.after (p : Position) : List Char → Position
  | [] => p
  | c :: cs => (if c = '\n' then p.nextRow else p.advance 1).after cs

namespace Position

@[simp] theorem after_nil (p : Position) : p.after [] = p := rfl

theorem after_append (p : Position) (cs ds : List Char) :
    p.after (cs ++ ds) = (p.after cs).after ds := by
  induction cs generalizing p with
  | nil => rfl
  | cons c cs ih => exact ih _

theorem advance_advance (p : Position) (m n : Nat) : (p.advance m).advance n = p.advance (m + n) := by
  simp only [advance, Nat.add_assoc]

/-- Over characters with no line feed the column grows by their number. -/
theorem after_of_no_newline (p : Position) {cs : List Char} (h : ∀ c ∈ cs, c ≠ '\n') :
    p.after cs = p.advance cs.length := by
  induction cs generalizing p with
  | nil => rfl
  | cons c cs ih =>
    rw [after, if_neg (h c (by simp)), ih _ fun d hd => h d (by simp [hd]), advance_advance,
      List.length_cons, Nat.add_comm]

end Position

namespace Scan

/-- A scan with every position moved to the start of its row: what is left of it when columns
are forgotten. -/
def rows (x : Except SyntaxError (List Lexeme)) : Except SyntaxError (List Lexeme) :=
  (x.map (List.map (Lexeme.mapPos Position.rowStart))).mapError
    (SyntaxError.mapPos Position.rowStart)

theorem rows_map_append (ls : List Lexeme) (x : Except SyntaxError (List Lexeme)) :
    rows (x.map (ls ++ ·)) = (rows x).map (ls.map (Lexeme.mapPos Position.rowStart) ++ ·) := by
  rcases x with e | ms
  · rfl
  · simp [rows, Except.map, Except.mapError]

/-! ## Runs that stop at a boundary -/

/-- A run of `p` does not go on from the end of `u` into `v`. -/
def StopsAt (p : Char → Bool) (u v : List Char) : Prop :=
  ∀ a ∈ u.getLast?, ∀ c ∈ v.head?, p a = true → p c = false

/-- Neither a run of digits nor a run of name characters goes on from the end of `u` into `v`. -/
def Separated (u v : List Char) : Prop :=
  StopsAt Char.isDigit u v ∧ StopsAt Token.isNameChar u v

section

variable {p : Char → Bool} {u u' v : List Char}

theorem StopsAt.of_suffix (h : StopsAt p u v) (hs : u' <:+ u) : StopsAt p u' v := by
  obtain ⟨pre, rfl⟩ := hs
  intro a ha
  apply h a
  rw [List.getLast?_append, ha]
  rfl

theorem Separated.of_suffix (h : Separated u v) (hs : u' <:+ u) : Separated u' v :=
  ⟨h.1.of_suffix hs, h.2.of_suffix hs⟩

/-- No run of `p` goes on from a character that is not in it. -/
theorem StopsAt.of_getLast? {a : Char} (hu : u.getLast? = some a) (ha : p a = false) :
    StopsAt p u v := by
  intro b hb _ _ hpb
  rw [hu, Option.mem_some_iff] at hb
  rw [← hb, ha] at hpb
  cases hpb

theorem Separated.of_getLast? {a : Char} (hu : u.getLast? = some a) (hd : a.isDigit = false)
    (hx : Token.isNameChar a = false) : Separated u v :=
  ⟨.of_getLast? hu hd, .of_getLast? hu hx⟩

/-- No run of `p` goes on into a character that is not in it. -/
theorem StopsAt.of_head? {c : Char} (hv : v.head? = some c) (hc : p c = false) : StopsAt p u v := by
  intro _ _ d hd _
  rw [hv, Option.mem_some_iff] at hd
  rw [← hd]
  exact hc

theorem Separated.of_head? {c : Char} (hv : v.head? = some c) (hd : c.isDigit = false)
    (hx : Token.isNameChar c = false) : Separated u v :=
  ⟨.of_head? hv hd, .of_head? hv hx⟩

/-- A run that starts at `c` and stops at the boundary takes nothing after it. -/
theorem run_append_of_stopsAt {c : Char} (hc : p c = true) :
    ∀ {cs : List Char}, StopsAt p (c :: cs) v →
      (cs ++ v).takeWhile p = cs.takeWhile p ∧ (cs ++ v).dropWhile p = cs.dropWhile p ++ v
  | [], h => by
    rcases v with _ | ⟨d, ds⟩
    · simp
    · have hd : p d = false := h c rfl d rfl hc
      simp [hd]
  | d :: ds, h => by
    by_cases hd : p d = true
    · obtain ⟨htake, hdrop⟩ := run_append_of_stopsAt hd (h.of_suffix (List.suffix_cons c _))
      simp [hd, htake, hdrop]
    · simp [hd]

end

/-! ## Splitting a scan -/

/-- The position after a run is where the scanner places it, and scanning goes on from there. -/
theorem after_run {p : Char → Bool} (hnl : p '\n' = false) {c : Char} (hc : p c = true)
    (pos : Position) (cs : List Char) :
    pos.after (c :: cs) = (pos.advance (c :: cs.takeWhile p).length).after (cs.dropWhile p) := by
  have hrun : ∀ d ∈ c :: cs.takeWhile p, d ≠ '\n' := by
    intro d hd heq
    have : p d = true := by
      rcases List.mem_cons.1 hd with rfl | hd
      · exact hc
      · exact List.all_eq_true.1 List.all_takeWhile d hd
    rw [heq, hnl] at this
    cases this
  conv_lhs => rw [← List.takeWhile_append_dropWhile (p := p) (l := cs), ← List.cons_append]
  rw [Position.after_append, Position.after_of_no_newline pos hrun]

theorem map_cons_bind (l : Lexeme) (x y : Except SyntaxError (List Lexeme)) :
    (x >>= fun ls => y.map (ls ++ ·)).map (l :: ·) = x.map (l :: ·) >>= fun ls => y.map (ls ++ ·) := by
  rcases x with e | ls
  · rfl
  · rcases y with e | ms <;> rfl

/-- Scanning two texts between which no run goes on is scanning each, the second from where the
first ends. -/
theorem scanFrom_append {u v : List Char} (h : Separated u v) (pos : Position) :
    scanFrom pos (u ++ v) =
      scanFrom pos u >>= fun ls => (scanFrom (pos.after u) v).map (ls ++ ·) := by
  induction hn : u.length using Nat.strong_induction_on generalizing u pos with
  | _ n ih =>
  rcases u with _ | ⟨c, cs⟩
  · rw [List.nil_append, scanFrom, Position.after_nil]
    rcases scanFrom pos v with e | ls <;> rfl
  -- the first word of `u` ends inside `u`; the rest of `u` is shorter and still separated
  have hrest : ∀ (q : Position) (rest : List Char), rest <:+ c :: cs → rest.length < n →
      scanFrom q (rest ++ v) = scanFrom q rest >>= fun ls => (scanFrom (q.after rest) v).map (ls ++ ·) :=
    fun q rest hs hlt => ih _ hlt (h.of_suffix hs) q rfl
  have hdrop : ∀ p : Char → Bool, cs.dropWhile p <:+ c :: cs :=
    fun p => (List.dropWhile_suffix p).trans (List.suffix_cons c cs)
  have hlen : ∀ p : Char → Bool, (cs.dropWhile p).length < n := fun p =>
    hn ▸ Nat.lt_succ_of_le (length_dropWhile_le p cs)
  rw [List.cons_append, scanFrom, scanFrom]
  by_cases hd : c.isDigit = true
  · obtain ⟨htake, hdropv⟩ := run_append_of_stopsAt hd h.1
    rw [if_pos hd, if_pos hd, htake, hdropv]
    dsimp only
    cases Token.ofDigits (c :: cs.takeWhile Char.isDigit) (pos.advance (cs.takeWhile Char.isDigit).length.succ) with
    | error e => rfl
    | ok t =>
      dsimp only
      rw [hrest _ _ (hdrop _) (hlen _), after_run (by decide) hd, map_cons_bind]
  by_cases hx : Token.isNameChar c = true
  · obtain ⟨htake, hdropv⟩ := run_append_of_stopsAt hx h.2
    rw [if_neg hd, if_neg hd, if_pos hx, if_pos hx, htake, hdropv]
    dsimp only
    rw [hrest _ _ (hdrop _) (hlen _), after_run (by decide) hx, map_cons_bind]
  have hcs : cs.length < n := hn ▸ Nat.lt_succ_self _
  rw [if_neg hd, if_neg hd, if_neg hx, if_neg hx]
  by_cases hnl : c = '\n'
  · rw [if_pos hnl, if_pos hnl, hrest _ _ (List.suffix_cons c cs) hcs, Position.after, if_pos hnl,
      map_cons_bind]
  rw [if_neg hnl, if_neg hnl, Position.after, if_neg hnl]
  cases Token.ofChar? c with
  | some t =>
    dsimp only
    rw [hrest _ _ (List.suffix_cons c cs) hcs, map_cons_bind]
  | none => exact hrest _ _ (List.suffix_cons c cs) hcs

/-! ## Rows, not columns -/

theorem rows_map_cons (l : Lexeme) (x : Except SyntaxError (List Lexeme)) :
    rows (x.map (l :: ·)) = (rows x).map (l.mapPos Position.rowStart :: ·) := by
  rcases x with e | ms <;> rfl

theorem mapPos_rowStart_of_row (t : Token) {p q : Position} (h : p.row = q.row) :
    Lexeme.mapPos Position.rowStart ⟨t, p⟩ = Lexeme.mapPos Position.rowStart ⟨t, q⟩ := by
  simp only [Lexeme.mapPos, Position.rowStart, h]

/-- Scans from two positions on one row agree up to columns. -/
theorem rows_scanFrom {p q : Position} (h : p.row = q.row) (cs : List Char) :
    rows (scanFrom p cs) = rows (scanFrom q cs) := by
  induction hn : cs.length using Nat.strong_induction_on generalizing cs p q with
  | _ n ih =>
  rcases cs with _ | ⟨c, cs⟩
  · rw [scanFrom, scanFrom]
  -- every step moves both positions alike, so they stay on one row
  have hadv : ∀ k, (p.advance k).row = (q.advance k).row := fun _ => h
  have hrest : ∀ {p' q' : Position} (rest : List Char), p'.row = q'.row → rest.length < n →
      rows (scanFrom p' rest) = rows (scanFrom q' rest) :=
    fun rest hpq hlt => ih _ hlt hpq rest rfl
  have hlen : ∀ pr : Char → Bool, (cs.dropWhile pr).length < n := fun pr =>
    hn ▸ Nat.lt_succ_of_le (length_dropWhile_le pr cs)
  have hcs : cs.length < n := hn ▸ Nat.lt_succ_self _
  rw [scanFrom, scanFrom]
  by_cases hd : c.isDigit = true
  · rw [if_pos hd, if_pos hd]
    dsimp only
    rw [Token.ofDigits, Token.ofDigits]
    by_cases hv : Token.digitsValue (c :: cs.takeWhile Char.isDigit) ≤ 9223372036854775807
    · rw [if_pos hv, if_pos hv]
      dsimp only
      rw [rows_map_cons, rows_map_cons, hrest _ (hadv _) (hlen _),
        mapPos_rowStart_of_row _ (hadv _)]
    · rw [if_neg hv, if_neg hv]
      simp only [rows, Except.map, Except.mapError, SyntaxError.mapPos, Position.rowStart,
        Position.row_advance, h]
  by_cases hx : Token.isNameChar c = true
  · rw [if_neg hd, if_neg hd, if_pos hx, if_pos hx]
    dsimp only
    rw [rows_map_cons, rows_map_cons, hrest _ (hadv _) (hlen _), mapPos_rowStart_of_row _ (hadv _)]
  rw [if_neg hd, if_neg hd, if_neg hx, if_neg hx]
  by_cases hnl : c = '\n'
  · rw [if_pos hnl, if_pos hnl, rows_map_cons, rows_map_cons,
      hrest _ (show p.nextRow.row = q.nextRow.row by simp [h]) hcs, mapPos_rowStart_of_row _ h]
  rw [if_neg hnl, if_neg hnl]
  cases Token.ofChar? c with
  | some t =>
    dsimp only
    rw [rows_map_cons, rows_map_cons, hrest _ (hadv 1) hcs, mapPos_rowStart_of_row _ h]
  | none => exact hrest _ (hadv 1) hcs

/-! ## Blanks -/

/-- A character that writes nothing: not a digit, not a name character, and not a character the
language writes on its own, the line feed among them. -/
def Blank (c : Char) : Prop :=
  c.isDigit = false ∧ Token.isNameChar c = false ∧ Token.ofChar? c = none

/-- Blanks scan to nothing and move the column by their number. -/
theorem scanFrom_blanks {w : List Char} (hw : ∀ c ∈ w, Blank c) (pos : Position) :
    scanFrom pos w = .ok [] ∧ pos.after w = pos.advance w.length := by
  induction w generalizing pos with
  | nil => exact ⟨by rw [scanFrom], rfl⟩
  | cons c w ih =>
    obtain ⟨hd, hx, hch⟩ := hw c (by simp)
    have hnl : c ≠ '\n' := by
      rintro rfl
      exact absurd hch (by decide)
    obtain ⟨hscan, hafter⟩ := ih (fun d hd => hw d (by simp [hd])) (pos.advance 1)
    refine ⟨?_, ?_⟩
    · rw [scanFrom, if_neg (by simp [hd]), if_neg (by simp [hx]), if_neg hnl, hch]
      exact hscan
    · rw [Position.after, if_neg hnl, hafter, Position.advance_advance, List.length_cons,
        Nat.add_comm]

theorem map_nil_append (y : Except SyntaxError (List Lexeme)) : y.map (([] : List Lexeme) ++ ·) = y := by
  rcases y with e | ms <;> rfl

/-- Inserting blanks where no run goes on changes a scan only in its columns. -/
theorem rows_scanFrom_insert {u v w : List Char} (huv : Separated u v) (hw : ∀ c ∈ w, Blank c)
    (pos : Position) : rows (scanFrom pos (u ++ w ++ v)) = rows (scanFrom pos (u ++ v)) := by
  rcases w with _ | ⟨b, w⟩
  · rw [List.append_nil]
  -- a blank stops every run, on either side of it
  have hfirst := hw b (by simp)
  have hlast := hw _ (List.getLast_mem (List.cons_ne_nil b w))
  have h₁ : Separated u (b :: w ++ v) := .of_head? rfl hfirst.1 hfirst.2.1
  have h₂ : Separated (b :: w) v :=
    .of_getLast? (List.getLast?_eq_some_getLast (List.cons_ne_nil b w)) hlast.1 hlast.2.1
  obtain ⟨hscan, hafter⟩ := scanFrom_blanks hw (pos.after u)
  rw [List.append_assoc, scanFrom_append h₁, scanFrom_append h₂, hscan, hafter,
    scanFrom_append huv]
  rcases scanFrom pos u with e | ls
  · rfl
  · show rows (((scanFrom _ v).map (([] : List Lexeme) ++ ·)).map (ls ++ ·)) =
      rows ((scanFrom _ v).map (ls ++ ·))
    rw [map_nil_append, rows_map_append, rows_map_append,
      rows_scanFrom (show ((pos.after u).advance (b :: w).length).row = (pos.after u).row from rfl)]

end Scan

end Parenthetic
