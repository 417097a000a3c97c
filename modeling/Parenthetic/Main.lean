import Parenthetic.Cli.Session

/-! # The command-line program

Reads what `Parenthetic.Cli.session` asks for from the real files and standard input, and
writes its reply.
-/

open Parenthetic.Cli

/-- Reads one line of standard input: its bytes without the line feed, and whether a line
feed ended it. -/
partial def readLine (stdin : IO.FS.Stream) (acc : ByteArray) : IO (ByteArray × Bool) := do
  match (← stdin.read 1).toList with
  | [] => return (acc, false)
  | b :: _ => if b = lineFeed then return (acc, true) else readLine stdin (acc.push b)

/-- Reads standard input line by line until the program is decided. -/
partial def readProgram (stdin : IO.FS.Stream) (acc : String) : IO (Except InputError String) := do
  let (line, ended) ← readLine stdin .empty
  match feedLine acc line.toList ended with
  | .reading acc' => readProgram stdin acc'
  | .finished r => return r

/-- The bytes of a file, if it can be read. -/
def readFileBytes (path : String) : IO (Option ByteArray) := do
  try
    return some (← IO.FS.readBinFile path)
  catch _ =>
    return none

/-- Runs the command line and exits with the status of its reply. -/
def main (args : List String) : IO UInt32 := do
  let stdin ← IO.getStdin
  let reply ← session ⟨readFileBytes, readProgram stdin ""⟩ args
  let stdout ← IO.getStdout
  stdout.putStr reply.stdout
  stdout.flush
  let stderr ← IO.getStderr
  stderr.putStr reply.stderr
  stderr.flush
  return reply.status
