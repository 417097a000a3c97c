import Mathlib.Data.List.Chain
import Parenthetic.Proofs.Canonical

set_option autoImplicit false

/-! # Scanning spellings back

The scanner reads the spelling of a token list back to the same tokens, provided every token can
be spelled on its own (`Token.Spellable`: numbers are not negative and names are names) and no two
neighbours run together into one word (`Token.Joins`: two numbers, or two names, side by side).
The positions the scanner gives do not matter here.

The argument is a step lemma, one token read off the front of the text
(`scanFrom_spelling_append`), iterated along the list (`scanFrom_flatMap_spelling`). The step
rests on maximal munch stopping exactly at the end of the spelling, which is where the next
token's first character cannot continue the current one.
-/

namespace Parenthetic

namespace Token

/-- Tokens that the scanner reads back from their spelling: numbers that are not negative and
names that are names. -/
def Spellable : Token → Prop
  | number v => 0 ≤ v.toInt
  | name x => IsName x
  | op _ | punct _ => True

/-- Whether a character continues the word of a token written just before it. -/
def continuedBy : Token → Char → Bool
  | number _, c => c.isDigit
  | name _, c => isNameChar c
  | _, _ => false

/-- Two tokens whose spellings, written side by side, run together into one word. -/
def Joins : Token → Token → Bool
  | number _, number _ => true
  | name _, name _ => true
  | _, _ => false

@[simp] theorem joins_punct_left (p : Punct) (t : Token) : Joins (punct p) t = false := by
  cases t <;> rfl

@[simp] theorem joins_punct_right (t : Token) (p : Punct) : Joins t (punct p) = false := by
  cases t <;> rfl

@[simp] theorem joins_op_left (o : Operator) (t : Token) : Joins (op o) t = false := by
  cases t <;> rfl

@[simp] theorem joins_op_right (t : Token) (o : Operator) : Joins t (op o) = false := by
  cases t <;> rfl

theorem not_isDigit_of_isNameChar {c : Char} (h : isNameChar c = true) : c.isDigit = false := by
  simp only [isNameChar, Bool.or_eq_true, beq_iff_eq] at h
  rcases h with h | rfl
  · delta Char.isAlpha Char.isUpper Char.isLower at h
    simp [Char.isDigit, UInt32.le_iff_toNat_le] at h ⊢
    omega
  · rfl

theorem Operator.isDigit_symbol (o : Operator) : o.symbol.isDigit = false := by
  cases o <;> rfl

theorem Operator.isNameChar_symbol (o : Operator) : isNameChar o.symbol = false := by
  cases o <;> rfl

theorem Punct.isDigit_symbol (p : Punct) : p.symbol.isDigit = false := by
  cases p <;> rfl

theorem Punct.isNameChar_symbol (p : Punct) : isNameChar p.symbol = false := by
  cases p <;> rfl

theorem ofChar?_op_symbol (o : Operator) : ofChar? o.symbol = some (op o) := by
  simp [ofChar?]

theorem ofChar?_punct_symbol (p : Punct) : ofChar? p.symbol = some (punct p) := by
  have h : Operator.ofChar? p.symbol = none := by cases p <;> rfl
  simp [ofChar?, h]

/-- The digits of a number that is not negative are the decimal digits of its value. -/
theorem spelling_number {v : Int64} (h : 0 ≤ v.toInt) :
    (number v).spelling = Nat.toDigits 10 v.toInt.toNat := by
  obtain ⟨n, hn⟩ := Int.eq_ofNat_of_zero_le h
  rw [spelling, hn, Int.toNat_natCast, ← Nat.toList_repr]
  rfl

/-- A number read from the decimal digits of a value that fits is that value. -/
theorem ofDigits_toDigits {v : Int64} (h : 0 ≤ v.toInt) (pos : Position) :
    ofDigits (Nat.toDigits 10 v.toInt.toNat) pos = .ok (number v) := by
  have hvalue : digitsValue (Nat.toDigits 10 v.toInt.toNat) = v.toInt.toNat :=
    Nat.ofDigitChars_ten_toDigits
  have hle : v.toInt.toNat ≤ 9223372036854775807 := by
    have := Int64.toInt_le v
    simp only [Int64.toInt_maxValue] at this
    omega
  have hv : Int64.ofNat v.toInt.toNat = v := by
    calc Int64.ofNat v.toInt.toNat = Int64.ofInt (v.toInt.toNat : Int) := Int64.ofInt_eq_ofNat.symm
      _ = Int64.ofInt v.toInt := by rw [Int.toNat_of_nonneg h]
      _ = v := Int64.ofInt_toInt v
  simp only [ofDigits, hvalue, hle, if_true, hv]

theorem spelling_ne_nil {t : Token} (h : t.Spellable) : t.spelling ≠ [] := by
  cases t with
  | number v => rw [spelling_number h]; exact Nat.toDigits_ne_nil
  | name x => exact h.1
  | op o => simp [spelling]
  | punct p => simp [spelling]

/-- The first character of a token that does not join the one before cannot continue it. -/
theorem continuedBy_head {t t' : Token} (ht' : t'.Spellable) (h : Joins t t' = false) :
    ∀ c ∈ t'.spelling.head?, t.continuedBy c = false := by
  intro c hc
  have hmem : c ∈ t'.spelling := List.mem_of_mem_head? hc
  cases t with
  | number _ =>
    cases t' with
    | number _ => simp [Joins] at h
    | name _ => exact not_isDigit_of_isNameChar (ht'.2 c hmem)
    | op o => simp only [spelling, List.mem_singleton] at hmem; simp [continuedBy, hmem,
        Operator.isDigit_symbol]
    | punct p => simp only [spelling, List.mem_singleton] at hmem; simp [continuedBy, hmem,
        Punct.isDigit_symbol]
  | name _ =>
    cases t' with
    | number v =>
      rw [spelling_number ht'] at hmem
      have hd : c.isDigit = true := Nat.isDigit_of_mem_toDigits (by decide) (by decide) hmem
      simp only [continuedBy]
      cases hn : isNameChar c
      · rfl
      · rw [not_isDigit_of_isNameChar hn] at hd
        exact absurd hd (by simp)
    | name _ => simp [Joins] at h
    | op o => simp only [spelling, List.mem_singleton] at hmem; simp [continuedBy, hmem,
        Operator.isNameChar_symbol]
    | punct p => simp only [spelling, List.mem_singleton] at hmem; simp [continuedBy, hmem,
        Punct.isNameChar_symbol]
  | op _ | punct _ => rfl

end Token

/-! ## Maximal munch -/

section

variable {p : Char → Bool} {body rest : List Char}

theorem takeWhile_append_of_stop (inside : ∀ c ∈ body, p c = true)
    (boundary : ∀ c ∈ rest.head?, p c = false) : (body ++ rest).takeWhile p = body := by
  rw [List.takeWhile_append_of_pos inside]
  cases rest with
  | nil => simp
  | cons c cs => simp [boundary c rfl]

theorem dropWhile_append_of_stop (inside : ∀ c ∈ body, p c = true)
    (boundary : ∀ c ∈ rest.head?, p c = false) : (body ++ rest).dropWhile p = rest := by
  rw [List.dropWhile_append_of_pos inside]
  cases rest with
  | nil => rfl
  | cons c cs => simp [boundary c rfl]

end

open Token

/-- One token read off the front of a text: its spelling, followed by a character that does not
continue it, scans to the token and then to whatever the rest scans to. -/
theorem scanFrom_spelling_append (pos : Position) {t : Token} (ht : t.Spellable) {rest : List Char}
    (hrest : ∀ c ∈ rest.head?, t.continuedBy c = false) :
    ∃ p pos', scanFrom pos (t.spelling ++ rest) = (scanFrom pos' rest).map (⟨t, p⟩ :: ·) := by
  cases t with
  | number v =>
    rw [spelling_number ht]
    obtain ⟨d, ds, hds⟩ := List.exists_cons_of_ne_nil (@Nat.toDigits_ne_nil v.toInt.toNat 10)
    have hdig : ∀ c ∈ d :: ds, c.isDigit = true := fun c hc =>
      Nat.isDigit_of_mem_toDigits (by decide) (by decide) (hds ▸ hc)
    rw [hds, List.cons_append, scanFrom, if_pos (hdig d (by simp)),
      takeWhile_append_of_stop (fun c hc => hdig c (by simp [hc])) hrest,
      dropWhile_append_of_stop (fun c hc => hdig c (by simp [hc])) hrest, ← hds]
    dsimp only
    rw [ofDigits_toDigits ht]
    exact ⟨_, _, rfl⟩
  | name x =>
    obtain ⟨d, ds, hx⟩ := List.exists_cons_of_ne_nil ht.1
    have hname : ∀ c ∈ d :: ds, isNameChar c = true := fun c hc => ht.2 c (hx ▸ hc)
    rw [spelling, hx, List.cons_append, scanFrom,
      if_neg (by simp [not_isDigit_of_isNameChar (hname d (by simp))]), if_pos (hname d (by simp)),
      takeWhile_append_of_stop (fun c hc => hname c (by simp [hc])) hrest,
      dropWhile_append_of_stop (fun c hc => hname c (by simp [hc])) hrest, ← hx]
    dsimp only
    rw [String.ofList_toList]
    exact ⟨_, _, rfl⟩
  | op o =>
    have hnl : o.symbol ≠ '\n' := by cases o <;> decide
    rw [spelling, List.singleton_append, scanFrom, if_neg (by simp [Operator.isDigit_symbol]),
      if_neg (by simp [Operator.isNameChar_symbol]), if_neg hnl, ofChar?_op_symbol]
    exact ⟨_, _, rfl⟩
  | punct p =>
    rw [spelling, List.singleton_append, scanFrom, if_neg (by simp [Punct.isDigit_symbol]),
      if_neg (by simp [Punct.isNameChar_symbol])]
    by_cases hp : p = .newline
    · subst hp
      rw [if_pos (show Punct.newline.symbol = '\n' from rfl)]
      exact ⟨_, _, rfl⟩
    · have hnl : p.symbol ≠ '\n' := by
        cases p with
        | newline => exact absurd rfl hp
        | _ => decide
      rw [if_neg hnl, ofChar?_punct_symbol]
      exact ⟨_, _, rfl⟩

/-- The spelling of spellable tokens, no two neighbours of which join, scans back to them. -/
theorem scanFrom_flatMap_spelling {ts : List Token} (hs : ∀ t ∈ ts, t.Spellable)
    (hc : ts.IsChain fun t t' => Joins t t' = false) (pos : Position) :
    ∃ ls, scanFrom pos (ts.flatMap spelling) = .ok ls ∧ ls.map Lexeme.token = ts := by
  induction ts generalizing pos with
  | nil => exact ⟨[], by rw [List.flatMap_nil, scanFrom], rfl⟩
  | cons t ts ih =>
    -- the next token's first character, if any, stops the scanner's run on `t`
    have hrest : ∀ c ∈ (ts.flatMap spelling).head?, t.continuedBy c = false := by
      cases ts with
      | nil => simp
      | cons t' ts =>
        have ht' := hs t' (by simp)
        obtain ⟨a, as, ha⟩ := List.exists_cons_of_ne_nil (spelling_ne_nil ht')
        have hhead : (t'.spelling ++ ts.flatMap spelling).head? = t'.spelling.head? := by
          rw [ha]
          rfl
        rw [List.flatMap_cons, hhead]
        exact continuedBy_head ht' (List.isChain_cons_cons.1 hc).1
    obtain ⟨p, pos', he⟩ := scanFrom_spelling_append pos (hs t (by simp)) hrest
    obtain ⟨ls, hls, hmap⟩ := ih (fun t' ht' => hs t' (by simp [ht'])) hc.tail pos'
    refine ⟨⟨t, p⟩ :: ls, ?_, by simp [hmap]⟩
    rw [List.flatMap_cons, he, hls]
    rfl

end Parenthetic
