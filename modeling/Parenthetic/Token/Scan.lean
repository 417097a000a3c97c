import Parenthetic.SyntaxError

set_option autoImplicit false

/-! # Scanning

`Lexeme.scan` turns source text into lexemes. Digit runs and name runs are taken whole
(maximal munch); an operator, a punctuation mark or a line feed is one lexeme of one character;
every other character is skipped. Every character, skipped or not, moves the column by one, and
a line feed starts the next row at column 1.

A number or a name is placed one column past its last character, on the row where it stands,
even when a line feed ends it; every other lexeme is placed at its own character. A digit run
whose value exceeds `2^63 - 1` ends scanning with `literalTooLarge`, which keeps the digits as
written and the position after them.
-/

namespace Parenthetic

namespace Token

/-- Characters of a name: ASCII letters and the underscore. -/
def isNameChar (c : Char) : Bool := c.isAlpha || c == '_'

/-- The value of a run of decimal digits, most significant first. -/
def digitsValue (ds : List Char) : Nat :=
  ds.foldl (fun n d => 10 * n + (d.toNat - '0'.toNat)) 0

example : digitsValue "0042".toList = 42 := by decide

/-- The number a digit run denotes, or `literalTooLarge` at `endPos` when it exceeds `2^63 - 1`. -/
def ofDigits (ds : List Char) (endPos : Position) : Except SyntaxError Token :=
  let n := digitsValue ds
  if n ≤ 9223372036854775807 then .ok (.number (Int64.ofNat n))
  else .error (.literalTooLarge (String.ofList ds) endPos)

/-- The token a single character writes, when it writes one on its own. -/
def ofChar? (c : Char) : Option Token :=
  match Operator.ofChar? c with
  | some o => some (.op o)
  | none => (Punct.ofChar? c).map .punct

end Token

/-- What `dropWhile` leaves is no longer than the list. -/
theorem length_dropWhile_le (p : Char → Bool) (cs : List Char) :
    (cs.dropWhile p).length ≤ cs.length :=
  (List.dropWhile_suffix p).length_le

/-- Scans characters from `pos` on. -/
def scanFrom (pos : Position) : List Char → Except SyntaxError (List Lexeme)
  | [] => .ok []
  | c :: cs =>
    if c.isDigit then
      let ds := c :: cs.takeWhile Char.isDigit
      let endPos := pos.advance ds.length
      match Token.ofDigits ds endPos with
      | .error e => .error e
      | .ok t => (scanFrom endPos (cs.dropWhile Char.isDigit)).map (⟨t, endPos⟩ :: ·)
    else if Token.isNameChar c then
      let ds := c :: cs.takeWhile Token.isNameChar
      let endPos := pos.advance ds.length
      (scanFrom endPos (cs.dropWhile Token.isNameChar)).map (⟨.name (String.ofList ds), endPos⟩ :: ·)
    else if c = '\n' then
      (scanFrom pos.nextRow cs).map (⟨.punct .newline, pos⟩ :: ·)
    else
      match Token.ofChar? c with
      | some t => (scanFrom (pos.advance 1) cs).map (⟨t, pos⟩ :: ·)
      | none => scanFrom (pos.advance 1) cs
termination_by cs => cs.length
decreasing_by
  all_goals
    have := length_dropWhile_le Char.isDigit cs
    have := length_dropWhile_le Token.isNameChar cs
    simp only [List.length_cons]
    omega

/-- The lexemes of a source text, from row 1, column 1. -/
def Lexeme.scan (source : String) : Except SyntaxError (List Lexeme) :=
  scanFrom Position.start source.toList

end Parenthetic
