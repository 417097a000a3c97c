import Parenthetic.Cli.Similarity

set_option autoImplicit false

/-! # Command-line arguments

The command line has four switches, `-f`/`--file`, `-e`/`--explain`, `-h`/`--help` and
`-V`/`--version`, and at most one further argument, the program text (or, with `--file`, the
name of the file that holds it).

Arguments are read from left to right. `--` makes every later argument a plain one; `--name`
or `--name=value` is a long switch; `-abc` is a cluster of short switches; everything else,
`-` and the empty argument included, is plain. `--help` and `--version` answer as soon as they
are read. A switch given twice, a value attached to a switch, an unknown switch, a second
plain argument, and `--file` without a program are usage errors. A misspelt long switch is
answered with the switch closest to it by Jaro similarity, when one is closer than `0.7`.

A usage error names a usage line. The full one lists the options and the optional program;
a shorter one lists only the switches that were given (and the one proposed) and, when it
was given or is missing, the program.
-/

namespace Parenthetic

namespace Cli

/-- The name the command line is known by. -/
def programName : String := "parenval"

/-- The version the command line reports. -/
def version : String := "0.1.0"

/-- A switch of the command line. -/
inductive Switch where
  /-- Read the program from the file that the program argument names. -/
  | file
  /-- Explain syntax errors on the error stream. -/
  | explain
  /-- Print the help text. -/
  | help
  /-- Print the version. -/
  | version
deriving DecidableEq, Repr, Inhabited

namespace Switch

/-- Every switch, in the order the help text lists them. -/
def all : List Switch := [file, explain, help, version]

/-- The long name, without the dashes. -/
def long : Switch → String
  | file => "file"
  | explain => "explain"
  | help => "help"
  | version => "version"

/-- The short name. -/
def short : Switch → Char
  | file => 'f'
  | explain => 'e'
  | help => 'h'
  | version => 'V'

/-- The switch with this long name. -/
def ofLong? (name : String) : Option Switch := all.find? (·.long == name)

/-- The switch with this short name. -/
def ofShort? (c : Char) : Option Switch := all.find? (·.short == c)

/-- How messages write a switch. -/
def display (s : Switch) : String := "--" ++ s.long

end Switch

/-- What a valid command line asks for. -/
structure Options where
  /-- Whether the program argument names a file. -/
  file : Bool := false
  /-- Whether syntax errors are explained. -/
  explain : Bool := false
  /-- The program argument, if one is given. -/
  contents : Option String := none
deriving DecidableEq, Repr, Inhabited

/-- What the command line asks for. -/
inductive Request where
  /-- Run a program. -/
  | run (o : Options)
  /-- Print the help text. -/
  | help
  /-- Print the version. -/
  | version
deriving DecidableEq, Repr, Inhabited

/-- The switches and the program argument, as a usage line lists them. -/
structure Usage where
  /-- The switches, in the order they were given. -/
  switches : List Switch
  /-- Whether the program argument is listed. -/
  contents : Bool
deriving DecidableEq, Repr, Inhabited

/-- The usage line. An empty usage is the full one. -/
def Usage.render (u : Usage) : String :=
  if u.switches.isEmpty && !u.contents then
    "Usage: " ++ programName ++ " [OPTIONS] [CONTENTS]"
  else
    "Usage: " ++ programName ++ String.join (u.switches.map (" " ++ ·.display))
      ++ (if u.contents then " <CONTENTS>" else "")

/-- The full usage line. -/
def Usage.full : Usage := ⟨[], false⟩

/-- Why a command line is refused. -/
inductive UsageError where
  /-- An argument that fits nowhere; a tip proposes a similar switch or the `--` escape. -/
  | unexpectedArgument (arg : String) (similar : Option Switch) (escapeTip : Bool) (usage : Usage)
  /-- A switch given twice. -/
  | repeated (s : Switch)
  /-- A value attached to a switch, which takes none. -/
  | unexpectedValue (value : String) (s : Switch) (usage : Usage)
  /-- `--file` without the program argument. -/
  | missingContents (usage : Usage)
deriving DecidableEq, Repr, Inhabited

/-- The message of a usage error, in the argument parser's format. -/
def UsageError.message (e : UsageError) : String :=
  let (body, tips, usage) : String × List String × Usage := match e with
    | .unexpectedArgument arg similar escapeTip usage =>
      ("unexpected argument '" ++ arg ++ "' found",
        (match similar with
          | some s => ["a similar argument exists: '" ++ s.display ++ "'"]
          | none => []) ++
        (if escapeTip then ["to pass '" ++ arg ++ "' as a value, use '-- " ++ arg ++ "'"] else []),
        usage)
    | .repeated s => ("the argument '" ++ s.display ++ "' cannot be used multiple times", [], .full)
    | .unexpectedValue v s usage =>
      ("unexpected value '" ++ v ++ "' for '" ++ s.display ++ "' found; no more were expected",
        [], usage)
    | .missingContents usage =>
      ("the following required arguments were not provided:\n  <CONTENTS>", [], usage)
  let tipText := match tips with
    | [] => ""
    | _ => "\n" ++ String.join (tips.map ("\n  tip: " ++ ·))
  "error: " ++ body ++ tipText ++ "\n\n" ++ usage.render ++
    "\n\nFor more information, try '--help'.\n"

/-- The long switch most similar to `name`, if one is closer than `0.7`; of equally close ones
the last in `Switch.all`. -/
def similarSwitch (name : String) : Option Switch :=
  let scored := Switch.all.filterMap fun s =>
    let score := jaro name.toList s.long.toList
    if score > 0.7 then some (s, score) else none
  (scored.foldl (fun best c => match best with
    | some b => if c.2 ≥ b.2 then some c else some b
    | none => some c) none).map (·.1)

/-- What has been read of a command line. -/
structure Reading where
  /-- The switches given, in the order of their first appearance. -/
  switches : List Switch := []
  /-- The program argument, once given. -/
  contents : Option String := none
  /-- Whether the program argument was taken before the last switch: only then does a usage
  line drawn for an attached value list it. -/
  contentsSettled : Bool := false
  /-- Whether `--` has been read. -/
  escaped : Bool := false
deriving Repr, Inhabited

namespace Reading

/-- The usage line of what was given, with `extra` added at the end. -/
def usageWith (r : Reading) (extra : List Switch) (withContents : Bool) : Usage :=
  ⟨r.switches ++ extra.filter (· ∉ r.switches), withContents⟩

/-- Takes a plain argument. -/
def plain (r : Reading) (arg : String) : Except UsageError Reading :=
  match r.contents with
  | none => .ok { r with contents := some arg }
  | some _ => .error (.unexpectedArgument arg none false .full)

/-- Takes a switch: help and version answer at once, others are recorded once. -/
def switch (r : Reading) (s : Switch) : Except UsageError (Reading ⊕ Request) :=
  match s with
  | .help => .ok (.inr .help)
  | .version => .ok (.inr .version)
  | _ =>
    if s ∈ r.switches then .error (.repeated s)
    else .ok (.inl { r with switches := r.switches ++ [s], contentsSettled := r.contents.isSome })

/-- Takes `--name` or `--name=value`. -/
def long (r : Reading) (name : String) (value : Option String) :
    Except UsageError (Reading ⊕ Request) :=
  match Switch.ofLong? name, value with
  | some s, some v =>
    .error (.unexpectedValue v s (r.usageWith [s] r.contentsSettled))
  | some s, none => r.switch s
  | none, _ =>
    let similar := similarSwitch name
    .error (.unexpectedArgument ("--" ++ name) similar similar.isNone
      (r.usageWith similar.toList r.contents.isSome))

/-- Takes a cluster of short switches. -/
def shorts (r : Reading) : List Char → Except UsageError (Reading ⊕ Request)
  | [] => .ok (.inl r)
  | c :: cs =>
    match Switch.ofShort? c with
    | none => .error (.unexpectedArgument ("-" ++ c.toString) none true .full)
    | some s =>
      match r.switch s with
      | .ok (.inl r') => r'.shorts cs
      | other => other

/-- Takes one argument. -/
def step (r : Reading) (arg : String) : Except UsageError (Reading ⊕ Request) :=
  if r.escaped then .inl <$> r.plain arg
  else if arg = "--" then .ok (.inl { r with escaped := true })
  else if arg.startsWith "--" then
    let body := (arg.drop 2).toString
    match body.splitOn "=" with
    | name :: _ :: _ => r.long name (some ((body.drop (name.length + 1)).toString))
    | _ => r.long body none
  else if arg.startsWith "-" && arg ≠ "-" then r.shorts (arg.toList.drop 1)
  else .inl <$> r.plain arg

/-- What a complete reading asks for. -/
def finish (r : Reading) : Except UsageError Request :=
  if Switch.file ∈ r.switches && r.contents.isNone then
    .error (.missingContents (r.usageWith [] true))
  else
    .ok (.run ⟨Switch.file ∈ r.switches, Switch.explain ∈ r.switches, r.contents⟩)

end Reading

/-- Reads the arguments from `r` on. -/
def readArgs (r : Reading) : List String → Except UsageError Request
  | [] => r.finish
  | arg :: args =>
    match r.step arg with
    | .error e => .error e
    | .ok (.inr q) => .ok q
    | .ok (.inl r') => readArgs r' args

/-- What a command line asks for. -/
def Request.ofArgs (args : List String) : Except UsageError Request := readArgs {} args

end Cli

end Parenthetic
