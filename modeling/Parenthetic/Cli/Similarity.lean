set_option autoImplicit false

/-! # Jaro similarity

The Jaro similarity of two words, by which the command line proposes a switch for a misspelt
one. Characters match when they are equal, not yet matched, and at most
`max(|a|, |b|) / 2 - 1` places apart; each character of `a` takes the first such character
of `b`. With `m` matches and `t` half the number of matched pairs out of order, the similarity
is `(m / |a| + m / |b| + (m - t) / m) / 3`, computed in double precision in this order, or `0`
without a match (and `1` for two empty words).
-/

namespace Parenthetic

namespace Cli

/-- Marks the first unmatched `c` of `b` among the places `lo ≤ j < hi`; `none` if there is
none. The marks are `true` at matched places. -/
def markFirst (c : Char) (lo hi : Nat) :
    Nat → List (Char × Bool) → Option (List (Char × Bool))
  | _, [] => none
  | j, (d, taken) :: rest =>
    if j ≥ hi then none
    else if lo ≤ j ∧ d = c ∧ !taken then some ((d, true) :: rest)
    else ((d, taken) :: ·) <$> markFirst c lo hi (j + 1) rest

/-- The matched characters of `a` in order, and `b` with its matched places marked. -/
def matchAll (range : Nat) (bLen : Nat) :
    Nat → List Char → List (Char × Bool) → List Char × List (Char × Bool)
  | _, [], marks => ([], marks)
  | i, c :: cs, marks =>
    let lo := i - range
    let hi := min bLen (i + range + 1)
    match markFirst c lo hi 0 marks with
    | some marks' =>
      let (ms, marks'') := matchAll range bLen (i + 1) cs marks'
      (c :: ms, marks'')
    | none => matchAll range bLen (i + 1) cs marks

/-- The number of places where two lists of characters differ. -/
def mismatches : List Char → List Char → Nat
  | c :: cs, d :: ds => (if c = d then 0 else 1) + mismatches cs ds
  | _, _ => 0

/-- The Jaro similarity of two words. -/
def jaro (a b : List Char) : Float :=
  if a.isEmpty && b.isEmpty then 1.0
  else if a.isEmpty || b.isEmpty then 0.0
  else
    let range := max a.length b.length / 2 - 1
    let (fromA, marks) := matchAll range b.length 0 a (b.map (·, false))
    let fromB := (marks.filter (·.2)).map (·.1)
    let m := fromA.length
    let t := mismatches fromA fromB / 2
    if m = 0 then 0.0
    else
      (Float.ofNat m / Float.ofNat a.length + Float.ofNat m / Float.ofNat b.length
        + Float.ofNat (m - t) / Float.ofNat m) / 3.0

end Cli

end Parenthetic
