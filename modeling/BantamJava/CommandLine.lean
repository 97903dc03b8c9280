/-
# The command line

Options and files in any order; `--` makes everything after it a file, and a
lone `-` is one too. Each file is parsed on its own and answered by a section
of the output: a header, every diagnostic with its rendering, how many there
were, and the outline of the tree if it was asked for. A file that cannot be
read has only its header there and a line among the errors.

What is logged on the way is kept apart from the errors. The logger puts the
time and the place of a record in front of it and decides where it goes; here
a record is its level and its message. How long each file took is left out.

The exit code is 0 if every file was read and has no diagnostics, 1 if not,
2 if the arguments make no sense, and 101 if a rendering was impossible, which
ends the run.

Key definitions: `Options`, `Request`, `readArguments`, `Outcome`,
`reportFile`, `runFiles`, `runCommand`.
-/
import BantamJava.Disk
import BantamJava.Parsing.Session
import BantamJava.Tree.Outline

namespace BantamJava

/-- The files of a run, whether it shows outlines, and how often it was asked
for more detail. -/
structure Options where
  files : List String
  outline : Bool
  verbosity : Nat
deriving DecidableEq, Inhabited

/-- What the arguments ask for. -/
inductive Request where
  | parseFiles (options : Options)
  | showVersion
  | showHelp
  /-- The arguments make no sense. -/
  | misuse
deriving DecidableEq, Inhabited

/-- A request to stop at once, which an empty file name before it foils. -/
def Options.interrupt (o : Options) (r : Request) : Request :=
  if o.files.contains "" then .misuse else r

/-- The request of arguments that have been read to their end. -/
def Options.finish (o : Options) : Request :=
  if o.files.isEmpty || o.files.contains "" then .misuse else .parseFiles o

/-- Reads an option by its long name. -/
def readLong (o : Options) (name : String) : Except Request Options :=
  if name = "ast" then
    if o.outline then .error .misuse else .ok { o with outline := true }
  else if name = "verbose" then .ok { o with verbosity := o.verbosity + 1 }
  else if name = "version" then .error (o.interrupt .showVersion)
  else if name = "help" then .error (o.interrupt .showHelp)
  else .error .misuse

/-- Reads options by their letters. -/
def readShort (o : Options) : List Char → Except Request Options
  | [] => .ok o
  | c :: cs =>
    if c = 'v' then readShort { o with verbosity := o.verbosity + 1 } cs
    else if c = 'V' then .error (o.interrupt .showVersion)
    else if c = 'h' then .error (o.interrupt .showHelp)
    else .error .misuse

/-- Reads one argument before any `--`. -/
def readArgument (o : Options) (arg : String) : Except Request Options :=
  match arg.toList with
  | '-' :: '-' :: name => readLong o (String.ofList name)
  | '-' :: c :: cs => readShort o (c :: cs)
  | _ => .ok { o with files := o.files ++ [arg] }

/-- Reads arguments in order. -/
def readArgumentsFrom (o : Options) : List String → Request
  | [] => o.finish
  | arg :: args =>
    if arg = "--" then { o with files := o.files ++ args : Options }.finish
    else
      match readArgument o arg with
      | .ok o' => readArgumentsFrom o' args
      | .error r => r

/-- What the arguments ask for. -/
def readArguments (args : List String) : Request :=
  readArgumentsFrom ⟨[], false, 0⟩ args

/-- What a run writes, what it logs, and the code that it exits with. -/
structure Outcome where
  exitCode : Nat
  output : String
  errors : String
  log : List String
deriving DecidableEq, Inhabited

/-- What one file adds to a run. -/
structure FileReport where
  output : String
  errors : String
  log : List String
  /-- The file could not be read, or has diagnostics. -/
  failed : Bool
  /-- A rendering was impossible. -/
  aborted : Bool
deriving DecidableEq, Inhabited

/-- The line that heads a file's section. -/
def fileHeader (path : String) : String :=
  "========== " ++ path ++ " ==========\n"

/-- The line that tells how many diagnostics there were. -/
def summary : Nat → String
  | 0 => "Parsing was successful!\n"
  | 1 => "1 error was found.\n"
  | n => toString n ++ " errors were found.\n"

/-- Each diagnostic and its rendering, and whether all could be rendered. -/
def showDiagnostics (source : String) : List Diagnostic → String × Bool
  | [] => ("", true)
  | d :: ds =>
    match d.render? source with
    | some rendering =>
      let others := showDiagnostics source ds
      (d.text ++ "\n" ++ rendering ++ others.1, others.2)
    | none => (d.text ++ "\n", false)

/-- The level of detail for a number of requests for more. -/
def logLevel : Nat → Level
  | 0 => .error
  | 1 => .info
  | 2 => .debug
  | _ => .trace

/-- Parses one file and reports on it. -/
def reportFile (o : Options) (path : String) : Except ReadFault String → FileReport
  | .error e => ⟨fileHeader path, "ERROR: " ++ e.message ++ "\n", [], true, false⟩
  | .ok source =>
    let parsed := parse source path
    let log := logLines (logLevel o.verbosity) path parsed.journal
    let shown := showDiagnostics source parsed.diagnostics
    if shown.2 then
      let outline := if o.outline then parsed.program.outline.text ++ "\n" else ""
      ⟨fileHeader path ++ shown.1 ++ summary parsed.diagnostics.length ++ outline, "", log,
        !parsed.diagnostics.isEmpty, false⟩
    else
      ⟨fileHeader path ++ shown.1, "ERROR: the arrow of a rendering is too wide\n", log, true,
        true⟩

/-- Reports on files in order. A report that was aborted is the last one. -/
def runFiles (o : Options) : List (String × Except ReadFault String) → Outcome
  | [] => ⟨0, "", "", []⟩
  | (path, source) :: files =>
    let report := reportFile o path source
    if report.aborted then ⟨101, report.output, report.errors, report.log⟩
    else
      let others := runFiles o files
      ⟨if others.exitCode = 0 ∧ report.failed then 1 else others.exitCode,
        report.output ++ others.output, report.errors ++ others.errors,
        report.log ++ others.log⟩

/-- The answer to a request for the version. -/
def versionText : String := "bantam 0.1.0\n"

/-- The answer to a request for help. -/
def helpText : String :=
  "Bantam Java parser\n\n"
    ++ "Usage: bantam [OPTIONS] <FILE>...\n\n"
    ++ "Arguments:\n"
    ++ "  <FILE>...  Bantam Java source files to parse\n\n"
    ++ "Options:\n"
    ++ "      --ast         Print the syntax tree of every file\n"
    ++ "  -v, --verbose...  Increase log verbosity (-v info, -vv debug, -vvv trace)\n"
    ++ "  -h, --help        Print help\n"
    ++ "  -V, --version     Print version\n"

/-- The answer to arguments that make no sense. -/
def usageText : String :=
  "Usage: bantam [OPTIONS] <FILE>...\n\nFor more information, try '--help'.\n"

/-- Answers a request, given how files are read. -/
def answer (read : String → Except ReadFault String) : Request → Outcome
  | .parseFiles o => runFiles o (o.files.map fun path => (path, read path))
  | .showVersion => ⟨0, versionText, "", []⟩
  | .showHelp => ⟨0, helpText, "", []⟩
  | .misuse => ⟨2, "", usageText, []⟩

/-- Runs a command line, given how files are read. -/
def runCommand (read : String → Except ReadFault String) (args : List String) : Outcome :=
  answer read (readArguments args)

end BantamJava
