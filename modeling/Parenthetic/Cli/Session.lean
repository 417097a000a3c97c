import Parenthetic.Run
import Parenthetic.Cli.Args
import Parenthetic.Cli.Input

set_option autoImplicit false

/-! # A run of the command line

`session` answers a command line: it reads the arguments, gets the program from the argument,
from the file it names, or from standard input, runs it, and says what goes to standard output
and standard error and with which exit status.

A value is printed on standard output. A failure prints its line on both streams and still
exits with status 0; with `--explain`, a syntax error adds its explanation on standard error.
A file or standard input that cannot be read exits with status 1, a usage error with status 2.

The program is fetched through `Sources`, so the same session runs against the real files and
streams or against given ones.
-/

namespace Parenthetic

namespace Cli

/-- What a run of the command line writes, and its exit status. -/
structure Reply where
  /-- The text written to standard output. -/
  stdout : String := ""
  /-- The text written to standard error. -/
  stderr : String := ""
  /-- The exit status. -/
  status : UInt32 := 0
deriving DecidableEq, Repr, Inhabited

/-- Where programs come from: files by name, and standard input. -/
structure Sources (m : Type → Type) where
  /-- The bytes of the file with this name, if it can be read. -/
  readFile : String → m (Option ByteArray)
  /-- The program read from standard input. -/
  readInput : m (Except InputError String)

/-- The help text. -/
def helpText : String :=
  "parenval evaluates programs written in a fully parenthesized integer expression language " ++
  "with recursive functions\n\n" ++
  "Usage: parenval [OPTIONS] [CONTENTS]\n\n" ++
  "Arguments:\n" ++
  "  [CONTENTS]  The program, or a path with '--file'. Without it the program is read from " ++
  "stdin up to the first empty line\n\n" ++
  "Options:\n" ++
  "  -f, --file     Tells parenval to read the program from the file named by 'contents'\n" ++
  "  -e, --explain  Prints the cause of a syntax error, with its position, to stderr\n" ++
  "  -h, --help     Print help\n" ++
  "  -V, --version  Print version\n"

/-- The reply to running a program text. -/
def answer (explain : Bool) (source : String) : Reply :=
  match resultOf source with
  | .ok v => { stdout := toString v.toInt ++ "\n" }
  | .error f =>
    let detail := match f, explain with
      | .syntaxError e, true => e.explain ++ "\n"
      | _, _ => ""
    { stdout := f.line ++ "\n", stderr := f.line ++ "\n" ++ detail }

/-- The reply when the file named on the command line cannot be read as text. -/
def unreadableFile (path : String) : Reply :=
  { stderr := "Failed to read the input file '" ++ path ++ "'. Perhaps this file does not exist?\n",
    status := 1 }

/-- The reply when standard input cannot be read. -/
def unreadableInput (e : InputError) : Reply :=
  { stderr := "Failed to read the program from stdin: " ++ e.describe ++ "\n", status := 1 }

/-- Answers a command line, fetching the program from `src`. -/
def session {m : Type → Type} [Monad m] (src : Sources m) (args : List String) : m Reply :=
  match Request.ofArgs args with
  | .error e => pure { stderr := e.message, status := 2 }
  | .ok .help => pure { stdout := helpText }
  | .ok .version => pure { stdout := programName ++ " " ++ version ++ "\n" }
  | .ok (.run o) =>
    match o.contents, o.file with
    | some path, true => do
      match (← src.readFile path).bind String.fromUTF8? with
      | some text => pure (answer o.explain text)
      | none => pure (unreadableFile path)
    | some text, false => pure (answer o.explain text)
    | none, _ => do
      match ← src.readInput with
      | .ok text => pure (answer o.explain text)
      | .error e => pure (unreadableInput e)

end Cli

end Parenthetic
