set_option autoImplicit false

/-! # Reading a program from standard input

Without a program argument the program is read from standard input, line by line, up to the
first empty line or the end of the input. A line ends at a line feed, which is dropped
together with one carriage return before it; a last line without a line feed keeps all its
characters. Every line read goes into the program followed by a line feed. A line that is not
valid UTF-8 stops the reading with an error; bytes after the first empty line are never looked
at.
-/

namespace Parenthetic

namespace Cli

/-- Why no program could be read from standard input. -/
inductive InputError where
  /-- A line read is not valid UTF-8. -/
  | invalidUtf8
deriving DecidableEq, Repr, Inhabited

/-- How a failure to read standard input is reported. -/
def InputError.describe : InputError → String
  | .invalidUtf8 => "stream did not contain valid UTF-8"

/-- The line feed byte. -/
def lineFeed : UInt8 := 10

/-- The carriage return byte. -/
def carriageReturn : UInt8 := 13

/-- A line without its line feed and one carriage return before it. -/
def chompLine (line : List UInt8) : List UInt8 :=
  if line.getLast? = some carriageReturn then line.dropLast else line

/-- The bytes before the first line feed and the fewer bytes after it, or `none` when there
is no line feed. -/
def splitLine : (bytes : List UInt8) →
    Option (List UInt8 × {rest : List UInt8 // rest.length < bytes.length})
  | [] => none
  | b :: bs =>
    if b = lineFeed then some ([], ⟨bs, by simp⟩)
    else (splitLine bs).map fun (line, rest) => (b :: line, ⟨rest.val, by have := rest.2; simp; omega⟩)

/-- Where reading stands after a line. -/
inductive Progress where
  /-- Reading goes on with this much of the program. -/
  | reading (acc : String)
  /-- Reading is over. -/
  | finished (result : Except InputError String)
deriving Repr, Inhabited

/-- Takes one line: its bytes without the line feed, and whether a line feed ended it (a line
that the end of the input ends is the last). -/
def feedLine (acc : String) (line : List UInt8) (ended : Bool) : Progress :=
  let line := if ended then chompLine line else line
  if line.isEmpty then .finished (.ok acc)
  else
    match String.fromUTF8? ⟨line.toArray⟩ with
    | none => .finished (.error .invalidUtf8)
    | some s => if ended then .reading (acc ++ s ++ "\n") else .finished (.ok (acc ++ s ++ "\n"))

/-- Reads the lines of the whole input into `acc`. -/
def readLines (acc : String) (bytes : List UInt8) : Except InputError String :=
  match splitLine bytes with
  | some (line, rest) =>
    match feedLine acc line true with
    | .reading acc' => readLines acc' rest.val
    | .finished r => r
  | none =>
    match feedLine acc bytes false with
    | .reading acc' => .ok acc'
    | .finished r => r
termination_by bytes.length
decreasing_by exact rest.2

/-- The program in the whole of standard input. -/
def programOfInput (bytes : ByteArray) : Except InputError String :=
  readLines "" bytes.toList

end Cli

end Parenthetic
