import Mathlib.Algebra.Group.Nat.Defs
import Parenthetic.Proofs.Scan.Spelling

set_option autoImplicit false

/-! # The scanner against a direct description of its output

`Lexeme.scanSpec` says what scanning a text gives without following the scanner: it looks at
each offset of the text on its own. A word starts at an offset when a maximal digit run or a
maximal name run starts there (`Scan.runAt`), or when the character there is an operator, a
punctuation mark or a line feed; every other character starts nothing. A run is placed at the
offset just after it, any other lexeme at its own offset, and the position of an offset counts
the line feeds before it and the characters since the last of them (`posAt`). If some digit run
denotes a number above `2^63 - 1`, the first such run is the error, at the position after it;
otherwise the lexemes of all words, in order, are the result.

`Lexeme.scan_eq_scanSpec` proves the scanner equal to this description on every text. The
proof follows the scanner from offset to offset. At each offset it reaches, no digit run and no
name run goes on across the offset (`Scan.Boundary`), so the word the scanner reads there is
the one the description finds, the offsets inside it start nothing, and the position the
scanner carries is `posAt` of the offset.
-/

namespace Parenthetic

/-! ## Positions of offsets -/

/-- The position just after the characters `pre`: one more than the line feeds among them, and
one more than the characters after the last of them. -/
def posOf (pre : List Char) : Position :=
  ⟨pre.count '\n' + 1, (pre.reverse.takeWhile (· != '\n')).length + 1⟩

/-- The position of offset `k` of a text. -/
def posAt (cs : List Char) (k : Nat) : Position := posOf (cs.take k)

theorem posOf_append_of_no_newline {pre ds : List Char} (h : ∀ c ∈ ds, c ≠ '\n') :
    posOf (pre ++ ds) = (posOf pre).advance ds.length := by
  have hcount : ds.count '\n' = 0 := List.count_eq_zero.2 fun hm => h _ hm rfl
  have hrun : ∀ c ∈ ds.reverse, (c != '\n') = true := by
    intro c hc
    simpa using h c (List.mem_reverse.1 hc)
  simp only [posOf, Position.advance, List.count_append, hcount, List.reverse_append,
    List.takeWhile_append_of_pos hrun, List.length_append, List.length_reverse, Position.mk.injEq,
    true_and]
  omega

theorem posOf_append_newline (pre : List Char) : posOf (pre ++ ['\n']) = (posOf pre).nextRow := by
  simp [posOf, Position.nextRow, List.count_append]

/-- Over characters with no line feed the column grows by their number. -/
theorem posAt_add_length {cs ds : List Char} {k : Nat} (hp : ds <+: cs.drop k)
    (h : ∀ c ∈ ds, c ≠ '\n') : posAt cs (k + ds.length) = (posAt cs k).advance ds.length := by
  rw [posAt, List.take_add, ← List.prefix_iff_eq_take.1 hp, posOf_append_of_no_newline h]
  rfl

theorem posAt_succ_of_ne {cs : List Char} {k : Nat} {c : Char} (hc : cs[k]? = some c)
    (h : c ≠ '\n') : posAt cs (k + 1) = (posAt cs k).advance 1 := by
  rw [posAt, List.take_add_one, hc, Option.toList_some, posOf_append_of_no_newline (by simpa using h)]
  rfl

theorem posAt_succ_newline {cs : List Char} {k : Nat} (hc : cs[k]? = some '\n') :
    posAt cs (k + 1) = (posAt cs k).nextRow := by
  rw [posAt, List.take_add_one, hc, Option.toList_some, posOf_append_newline]
  rfl

/-! ## The description -/

namespace Scan

/-- The maximal run of characters with `p` that starts at offset `i` of `cs`, when one starts
there: the character at `i` has `p` and the one before it, if any, has not. -/
def runAt (p : Char → Bool) (cs : List Char) (i : Nat) : Option (List Char) :=
  if cs[i]?.any p && (i == 0 || !cs[i - 1]?.any p) then some ((cs.drop i).takeWhile p) else none

/-- The digit run that starts at offset `i`, when its value exceeds `2^63 - 1`. -/
def oversizedAt (cs : List Char) (i : Nat) : Option (List Char) :=
  (runAt Char.isDigit cs i).filter fun ds => 2 ^ 63 - 1 < Token.digitsValue ds

/-- The lexeme whose word starts at offset `i`: a digit run or a name run, placed one past its
last character, or an operator, a mark or a line feed, placed at itself. -/
def lexemeAt (cs : List Char) (i : Nat) : Option Lexeme :=
  match runAt Char.isDigit cs i, runAt Token.isNameChar cs i with
  | some ds, _ => some ⟨.number (Int64.ofNat (Token.digitsValue ds)), posAt cs (i + ds.length)⟩
  | none, some xs => some ⟨.name (String.ofList xs), posAt cs (i + xs.length)⟩
  | none, none => (cs[i]?.bind Token.ofChar?).map (⟨·, posAt cs i⟩)

/-- What scanning `cs` from offset `k` on gives: `literalTooLarge` for the first oversized digit
run that starts at `k` or later, at the position after it, and otherwise the lexemes of the
words that start at `k` or later, in order. -/
def specFrom (cs : List Char) (k : Nat) : Except SyntaxError (List Lexeme) :=
  match (List.range' k (cs.length - k)).findSome? (fun i => (oversizedAt cs i).map (·, i)) with
  | some (ds, i) => .error (.literalTooLarge (String.ofList ds) (posAt cs (i + ds.length)))
  | none => .ok ((List.range' k (cs.length - k)).filterMap (lexemeAt cs))

end Scan

/-- What scanning a text gives, read off the text offset by offset. -/
def Lexeme.scanSpec (s : String) : Except SyntaxError (List Lexeme) := Scan.specFrom s.toList 0

/-! ## Characters that start nothing of their own -/

theorem Punct.symbol_eq_of_ofChar? {c : Char} {p : Punct} (h : Punct.ofChar? c = some p) :
    p.symbol = c := by
  unfold Punct.ofChar? at h
  split at h <;> cases h <;> rfl

/-- A character that writes a token on its own is the symbol of an operator or of a mark. -/
theorem Token.eq_symbol_of_ofChar? {c : Char} {t : Token} (h : Token.ofChar? c = some t) :
    (∃ o, t = .op o ∧ o.symbol = c) ∨ (∃ p, t = .punct p ∧ p.symbol = c) := by
  unfold Token.ofChar? at h
  cases ho : Operator.ofChar? c with
  | some o =>
    rw [ho] at h
    exact .inl ⟨o, (Option.some.inj h).symm, Operator.ofChar?_eq_some_iff.1 ho⟩
  | none =>
    rw [ho] at h
    obtain ⟨p, hp, rfl⟩ := Option.map_eq_some_iff.1 h
    exact .inr ⟨p, rfl, Punct.symbol_eq_of_ofChar? hp⟩

theorem Token.ofChar?_eq_none_of_isDigit {c : Char} (h : c.isDigit = true) : Token.ofChar? c = none := by
  cases ht : Token.ofChar? c with
  | none => rfl
  | some t =>
    rcases Token.eq_symbol_of_ofChar? ht with ⟨o, -, rfl⟩ | ⟨p, -, rfl⟩
    · rw [Token.Operator.isDigit_symbol] at h
      exact absurd h (by simp)
    · rw [Token.Punct.isDigit_symbol] at h
      exact absurd h (by simp)

theorem Token.ofChar?_eq_none_of_isNameChar {c : Char} (h : Token.isNameChar c = true) :
    Token.ofChar? c = none := by
  cases ht : Token.ofChar? c with
  | none => rfl
  | some t =>
    rcases Token.eq_symbol_of_ofChar? ht with ⟨o, -, rfl⟩ | ⟨p, -, rfl⟩
    · rw [Token.Operator.isNameChar_symbol] at h
      exact absurd h (by simp)
    · rw [Token.Punct.isNameChar_symbol] at h
      exact absurd h (by simp)

theorem Token.isNameChar_eq_false_of_isDigit {c : Char} (h : c.isDigit = true) :
    Token.isNameChar c = false := by
  cases hn : Token.isNameChar c
  · rfl
  · rw [Token.not_isDigit_of_isNameChar hn] at h
    exact absurd h (by simp)

namespace Scan

/-! ## Where runs start -/

section

variable {p : Char → Bool} {cs : List Char} {i : Nat} {a c : Char}

/-- No run of `p` goes on across offset `k`: it is the first offset, or `p` fails on one side. -/
def StartsAfter (p : Char → Bool) (cs : List Char) (k : Nat) : Prop :=
  k = 0 ∨ cs[k - 1]?.any p = false ∨ cs[k]?.any p = false

/-- Neither a digit run nor a name run goes on across offset `k`. -/
def Boundary (cs : List Char) (k : Nat) : Prop :=
  StartsAfter Char.isDigit cs k ∧ StartsAfter Token.isNameChar cs k

theorem runAt_of_not (h : cs[i]? = some c) (hc : p c = false) : runAt p cs i = none := by
  simp [runAt, h, hc]

theorem runAt_of_prev (hi : 0 < i) (ha : cs[i - 1]? = some a) (hp : p a = true) :
    runAt p cs i = none := by
  have hi' : (i == 0) = false := by simpa using Nat.pos_iff_ne_zero.1 hi
  simp [runAt, ha, hp, hi']

theorem runAt_start (hb : StartsAfter p cs i) (h : cs[i]? = some c) (hc : p c = true) :
    runAt p cs i = some ((cs.drop i).takeWhile p) := by
  rcases hb with rfl | hb | hb
  · simp [runAt, h, hc]
  · simp [runAt, h, hc, hb]
  · simp [h, hc] at hb

/-- Where a digit run or a name run goes on, nothing starts. -/
theorem nothing_at_of_joined (hi : 0 < i) (ha : cs[i - 1]? = some a) (hc : cs[i]? = some c)
    (hj : (a.isDigit ∧ c.isDigit) ∨ (Token.isNameChar a ∧ Token.isNameChar c)) :
    oversizedAt cs i = none ∧ lexemeAt cs i = none := by
  have hchar : Token.ofChar? c = none := by
    rcases hj with ⟨-, hd⟩ | ⟨-, hn⟩
    · exact Token.ofChar?_eq_none_of_isDigit hd
    · exact Token.ofChar?_eq_none_of_isNameChar hn
  have hdigit : runAt Char.isDigit cs i = none := by
    rcases hj with ⟨had, -⟩ | ⟨-, hn⟩
    · exact runAt_of_prev hi ha had
    · exact runAt_of_not hc (Token.not_isDigit_of_isNameChar hn)
  have hname : runAt Token.isNameChar cs i = none := by
    rcases hj with ⟨-, hd⟩ | ⟨han, -⟩
    · exact runAt_of_not hc (Token.isNameChar_eq_false_of_isDigit hd)
    · exact runAt_of_prev hi ha han
  simp [oversizedAt, lexemeAt, hdigit, hname, hc, hchar]

end

/-! ## The description, one word at a time -/

section

variable {cs : List Char} {k k' : Nat}

theorem specFrom_of_le (h : cs.length ≤ k) : specFrom cs k = .ok [] := by
  simp [specFrom, Nat.sub_eq_zero_of_le h]

/-- The description from offset `k` is the word at `k` followed by the description from the
offset `k'` where that word ends, when nothing starts in between. -/
theorem specFrom_step (hk : k < k') (hk' : k' ≤ cs.length)
    (hin : ∀ i, k < i → i < k' → oversizedAt cs i = none ∧ lexemeAt cs i = none) :
    specFrom cs k = match oversizedAt cs k with
      | some ds => .error (.literalTooLarge (String.ofList ds) (posAt cs (k + ds.length)))
      | none => (specFrom cs k').map ((lexemeAt cs k).toList ++ ·) := by
  -- the offsets from `k` on are `k`, those strictly inside the word, and those from `k'` on
  have hsplit : List.range' k (cs.length - k) =
      k :: (List.range' (k + 1) (k' - k - 1) ++ List.range' k' (cs.length - k')) := by
    have h₁ : cs.length - k = (k' - k - 1 + 1) + (cs.length - k') := by omega
    have h₂ : k' = k + 1 * (k' - k - 1 + 1) := by omega
    rw [h₁, ← List.range'_append, List.range'_succ, ← h₂, List.cons_append]
  have hinner : ∀ i ∈ List.range' (k + 1) (k' - k - 1),
      oversizedAt cs i = none ∧ lexemeAt cs i = none := by
    intro i hi
    obtain ⟨j, hj, rfl⟩ := List.mem_range'.1 hi
    exact hin _ (by omega) (by omega)
  have hfind : (List.range' (k + 1) (k' - k - 1)).findSome?
      (fun i => (oversizedAt cs i).map (·, i)) = none :=
    List.findSome?_eq_none_iff.2 fun i hi => by simp [(hinner i hi).1]
  have hfilter : (List.range' (k + 1) (k' - k - 1)).filterMap (lexemeAt cs) = [] :=
    List.filterMap_eq_nil_iff.2 fun i hi => (hinner i hi).2
  unfold specFrom
  rw [hsplit, List.findSome?_cons, List.filterMap_cons, List.findSome?_append, hfind,
    List.filterMap_append, hfilter, List.nil_append, Option.none_or]
  cases hov : oversizedAt cs k with
  | some ds => rfl
  | none =>
    cases List.findSome? (fun i => (oversizedAt cs i).map (·, i)) (List.range' k' (cs.length - k')) with
    | some r => rfl
    | none => cases lexemeAt cs k <;> rfl

end

/-! ## Runs the scanner reads -/

section

variable {p q : Char → Bool} {cs r ds : List Char} {k : Nat} {c : Char}

theorem of_mem_run (hds : (cs.drop k).takeWhile p = ds) {d : Char} (hd : d ∈ ds) : p d = true := by
  subst hds
  exact List.all_eq_true.1 List.all_takeWhile d hd

theorem run_eq_cons (hdrop : cs.drop k = c :: r) (hc : p c = true)
    (hds : (cs.drop k).takeWhile p = ds) : ds = c :: r.takeWhile p := by
  rw [← hds, hdrop, List.takeWhile_cons_of_pos hc]

/-- What the scanner leaves after a run is the text from the offset where the run ends. -/
theorem dropWhile_eq_drop (hdrop : cs.drop k = c :: r) (hc : p c = true)
    (hds : (cs.drop k).takeWhile p = ds) : r.dropWhile p = cs.drop (k + ds.length) := by
  have h := List.takeWhile_append_dropWhile (p := p) (l := cs.drop k)
  rw [hds] at h
  rw [← List.drop_drop, ← h, List.drop_left, hdrop, List.dropWhile_cons_of_pos hc]

theorem lt_length_of_drop_eq_cons (hdrop : cs.drop k = c :: r) : k < cs.length := by
  have := congrArg List.length hdrop
  simp only [List.length_drop, List.length_cons] at this
  omega

theorem getElem?_of_drop_eq_cons (hdrop : cs.drop k = c :: r) : cs[k]? = some c := by
  rw [← List.head?_drop, hdrop]
  rfl

theorem add_length_le (hdrop : cs.drop k = c :: r) (hds : (cs.drop k).takeWhile p = ds) :
    k + ds.length ≤ cs.length := by
  have hle : ds.length ≤ (cs.drop k).length := hds ▸ List.IsPrefix.length_le ⟨_, List.takeWhile_append_dropWhile⟩
  have hk := lt_length_of_drop_eq_cons hdrop
  rw [List.length_drop] at hle
  omega

theorem getElem?_of_lt (hds : (cs.drop k).takeWhile p = ds) {i : Nat} (hi : k ≤ i)
    (hi' : i < k + ds.length) : ∃ b, cs[i]? = some b ∧ p b = true := by
  obtain ⟨rest, hrest⟩ : ds <+: cs.drop k := hds ▸ ⟨_, List.takeWhile_append_dropWhile⟩
  have hget : cs[i]? = ds[i - k]? := by
    rw [show i = k + (i - k) by omega, ← List.getElem?_drop, ← hrest,
      List.getElem?_append_left (by omega), Nat.add_sub_cancel_left]
  rw [hget, List.getElem?_eq_getElem (by omega)]
  exact ⟨_, rfl, of_mem_run hds (List.getElem_mem _)⟩

/-- The run is maximal: the character after it fails `p`. -/
theorem getElem?_end (hdrop : cs.drop k = c :: r) (hc : p c = true)
    (hds : (cs.drop k).takeWhile p = ds) : ∀ d ∈ cs[k + ds.length]?, p d = false := by
  intro d hd
  rw [← List.head?_drop, ← dropWhile_eq_drop hdrop hc hds] at hd
  have := List.head?_dropWhile_not p r
  rw [Option.mem_def.1 hd] at this
  exact this

/-- A run without line feeds moves the column by its length. -/
theorem posAt_run (hds : (cs.drop k).takeWhile p = ds) (hp : p '\n' = false) :
    (posAt cs k).advance ds.length = posAt cs (k + ds.length) := by
  refine (posAt_add_length (hds ▸ ⟨_, List.takeWhile_append_dropWhile⟩) fun d hd h => ?_).symm
  have hpd := of_mem_run hds hd
  rw [h, hp] at hpd
  exact absurd hpd (by decide)

/-- Inside a run of digits or of name characters nothing starts. -/
theorem nothing_inside (hds : (cs.drop k).takeWhile p = ds)
    (hj : ∀ a b, p a = true → p b = true →
      (a.isDigit ∧ b.isDigit) ∨ (Token.isNameChar a ∧ Token.isNameChar b)) :
    ∀ i, k < i → i < k + ds.length → oversizedAt cs i = none ∧ lexemeAt cs i = none := by
  intro i hi hi'
  obtain ⟨a, ha, hpa⟩ := getElem?_of_lt hds (i := i - 1) (by omega) (by omega)
  obtain ⟨b, hb, hpb⟩ := getElem?_of_lt hds (i := i) (by omega) hi'
  exact nothing_at_of_joined (by omega) ha hb (hj a b hpa hpb)

theorem startsAfter_end (hdrop : cs.drop k = c :: r) (hc : p c = true)
    (hds : (cs.drop k).takeWhile p = ds) : StartsAfter p cs (k + ds.length) := by
  right; right
  cases h : cs[k + ds.length]? with
  | none => rfl
  | some d => exact getElem?_end hdrop hc hds d h

/-- After a run of `p`, no run of a class disjoint from `p` goes on across its end. -/
theorem startsAfter_other (hq : ∀ d, p d = true → q d = false) (hdrop : cs.drop k = c :: r)
    (hc : p c = true) (hds : (cs.drop k).takeWhile p = ds) : StartsAfter q cs (k + ds.length) := by
  have hlen : 0 < ds.length := by simp [run_eq_cons hdrop hc hds]
  obtain ⟨a, ha, hpa⟩ := getElem?_of_lt hds (i := k + ds.length - 1) (by omega) (by omega)
  right; left
  rw [ha]
  exact hq a hpa

end

/-! ## The scanner meets the description -/

section

variable {cs r ds : List Char} {k : Nat} {c : Char}

/-- A digit run: the scanner reads the number, or stops with `literalTooLarge`, as the
description does at the offset where the run starts. -/
theorem scanFrom_digits (hb : Boundary cs k) (hdrop : cs.drop k = c :: r) (hc : c.isDigit = true)
    (hds : (cs.drop k).takeWhile Char.isDigit = ds)
    (ih : scanFrom (posAt cs (k + ds.length)) (cs.drop (k + ds.length)) =
      specFrom cs (k + ds.length)) :
    scanFrom (posAt cs k) (cs.drop k) = specFrom cs k := by
  have hcons := run_eq_cons hdrop hc hds
  have hpos := posAt_run hds rfl
  have hrun : runAt Char.isDigit cs k = some ds :=
    hds ▸ runAt_start hb.1 (getElem?_of_drop_eq_cons hdrop) hc
  have hlex : lexemeAt cs k =
      some ⟨.number (Int64.ofNat (Token.digitsValue ds)), posAt cs (k + ds.length)⟩ := by
    simp [lexemeAt, hrun]
  rw [specFrom_step (show k < k + ds.length by simp [hcons]) (add_length_le hdrop hds)
    (nothing_inside hds fun a b ha hb => .inl ⟨ha, hb⟩)]
  rw [hdrop, scanFrom, if_pos hc]
  dsimp only
  rw [← hcons, dropWhile_eq_drop hdrop hc hds, hpos]
  by_cases hv : Token.digitsValue ds ≤ 9223372036854775807
  · have hov : oversizedAt cs k = none := by
      rw [oversizedAt, hrun, Option.filter_some, if_neg (by simpa using hv)]
    simp only [Token.ofDigits, hv, if_true, hov, hlex, ih]
    rfl
  · have hov : oversizedAt cs k = some ds := by
      rw [oversizedAt, hrun, Option.filter_some, if_pos (by simpa using hv)]
    simp only [Token.ofDigits, hv, if_false, hov]

/-- A name run: the scanner reads the name the description finds where the run starts. -/
theorem scanFrom_name (hb : Boundary cs k) (hdrop : cs.drop k = c :: r)
    (hd : c.isDigit = false) (hc : Token.isNameChar c = true)
    (hds : (cs.drop k).takeWhile Token.isNameChar = ds)
    (ih : scanFrom (posAt cs (k + ds.length)) (cs.drop (k + ds.length)) =
      specFrom cs (k + ds.length)) :
    scanFrom (posAt cs k) (cs.drop k) = specFrom cs k := by
  have hcons := run_eq_cons hdrop hc hds
  have hpos := posAt_run hds rfl
  have hck := getElem?_of_drop_eq_cons hdrop
  have hlex : lexemeAt cs k = some ⟨.name (String.ofList ds), posAt cs (k + ds.length)⟩ := by
    simp [lexemeAt, runAt_of_not hck hd, hds ▸ runAt_start hb.2 hck hc]
  have hov : oversizedAt cs k = none := by simp [oversizedAt, runAt_of_not hck hd]
  rw [specFrom_step (show k < k + ds.length by simp [hcons]) (add_length_le hdrop hds)
    (nothing_inside hds fun a b ha hb => .inr ⟨ha, hb⟩), hov, hlex, ← ih]
  rw [hdrop, scanFrom, if_neg (by simp [hd]), if_pos hc]
  dsimp only
  rw [← hcons, dropWhile_eq_drop hdrop hc hds, hpos]
  rfl

/-- A character that is neither a digit nor a name character: a line feed, an operator or a
mark is one lexeme at its own offset, anything else is skipped. -/
theorem scanFrom_single (hdrop : cs.drop k = c :: r) (hd : c.isDigit = false)
    (hn : Token.isNameChar c = false)
    (ih : scanFrom (posAt cs (k + 1)) (cs.drop (k + 1)) = specFrom cs (k + 1)) :
    scanFrom (posAt cs k) (cs.drop k) = specFrom cs k := by
  have hck := getElem?_of_drop_eq_cons hdrop
  have hr : r = cs.drop (k + 1) := by
    rw [List.drop_add_one_eq_tail_drop, hdrop]
    rfl
  have hlex : lexemeAt cs k = (Token.ofChar? c).map (⟨·, posAt cs k⟩) := by
    simp [lexemeAt, runAt_of_not hck hd, runAt_of_not hck hn, hck]
  have hov : oversizedAt cs k = none := by simp [oversizedAt, runAt_of_not hck hd]
  rw [specFrom_step (Nat.lt_succ_self k) (lt_length_of_drop_eq_cons hdrop)
    (fun i hi hi' => absurd hi' (by omega)), hov, hlex, ← ih, hdrop, scanFrom, if_neg (by simp [hd]),
    if_neg (by simp [hn])]
  by_cases hnl : c = '\n'
  · subst hnl
    rw [if_pos rfl, posAt_succ_newline hck, hr]
    rfl
  · rw [if_neg hnl, posAt_succ_of_ne hck hnl, hr]
    -- a skipped character leaves the scan of the rest as it is
    cases Token.ofChar? c with
    | some t => rfl
    | none => cases scanFrom ((posAt cs k).advance 1) (cs.drop (k + 1)) <;> rfl

end

/-- From every offset where no run goes on across, the scanner gives what the description
gives from that offset on. -/
theorem scanFrom_posAt (cs : List Char) (k : Nat) (hb : Boundary cs k) :
    scanFrom (posAt cs k) (cs.drop k) = specFrom cs k := by
  rcases hdrop : cs.drop k with _ | ⟨c, r⟩
  · rw [scanFrom, specFrom_of_le (List.drop_eq_nil_iff.1 hdrop)]
  have hk := lt_length_of_drop_eq_cons hdrop
  rw [← hdrop]
  by_cases hd : c.isDigit = true
  · -- a digit run, after which the scanner is again where no run goes on across
    have hlen : 0 < ((cs.drop k).takeWhile Char.isDigit).length := by
      simp [run_eq_cons hdrop hd rfl]
    exact scanFrom_digits hb hdrop hd rfl (scanFrom_posAt cs _
      ⟨startsAfter_end hdrop hd rfl,
        startsAfter_other (fun _ h => Token.isNameChar_eq_false_of_isDigit h) hdrop hd rfl⟩)
  have hd' : c.isDigit = false := by simpa using hd
  by_cases hn : Token.isNameChar c = true
  · have hlen : 0 < ((cs.drop k).takeWhile Token.isNameChar).length := by
      simp [run_eq_cons hdrop hn rfl]
    exact scanFrom_name hb hdrop hd' hn rfl (scanFrom_posAt cs _
      ⟨startsAfter_other (fun _ h => Token.not_isDigit_of_isNameChar h) hdrop hn rfl,
        startsAfter_end hdrop hn rfl⟩)
  · have hn' : Token.isNameChar c = false := by simpa using hn
    have hck := getElem?_of_drop_eq_cons hdrop
    exact scanFrom_single hdrop hd' hn' (scanFrom_posAt cs (k + 1)
      ⟨.inr (.inl (by simp [hck, hd'])), .inr (.inl (by simp [hck, hn']))⟩)
termination_by cs.length - k

end Scan

/-- The scanner gives exactly what the description reads off the text: the first oversized
digit run as the error, or else the lexeme of every word, in order and placed as described. -/
theorem Lexeme.scan_eq_scanSpec (s : String) : Lexeme.scan s = Lexeme.scanSpec s :=
  Scan.scanFrom_posAt s.toList 0 ⟨.inl rfl, .inl rfl⟩

end Parenthetic
