/-
# The program

Reads the files that the arguments name, and writes what the command line
answers.

Key definitions: `main`.
-/
import BantamJava.CommandLine

namespace BantamJava

/-- Reads a source file from the file system. -/
def readSource (path : String) : IO (Except ReadFault String) := do
  try
    let bytes ← IO.FS.readBinFile path
    match String.fromUTF8? bytes with
    | some text => pure (.ok text)
    | none => pure (.error (.unreadable path))
  catch
    | .noFileOrDirectory .. => pure (.error (.notFound path))
    | _ => pure (.error (.unreadable path))

/-- Reads the files of a request, each once for every time it is named. -/
def readSources : Request → IO (List (String × Except ReadFault String))
  | .parseFiles o => o.files.mapM fun path => do pure (path, ← readSource path)
  | _ => pure []

end BantamJava

open BantamJava in
/-- Runs the command line. -/
def main (args : List String) : IO UInt32 := do
  let request := readArguments args
  let sources ← readSources request
  let read := fun path => (sources.lookup path).getD (.error (.notFound path))
  let outcome := answer read request
  IO.print outcome.output
  outcome.log.forM fun record => IO.eprintln record
  IO.eprint outcome.errors
  pure (UInt32.ofNat outcome.exitCode)
