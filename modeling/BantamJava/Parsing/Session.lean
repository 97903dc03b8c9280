/-
# Parsing sessions

A session is one parse of one source: the file's name, the table of statement
forms, the cursor, and the journal so far. Any parser of the grammar can be run
in it; `parse` runs the whole grammar over a text.

Key definitions: `Session`, `Session.run`, `Session.diagnostics`, `parse`.
-/
import BantamJava.Fault.Diagnostic
import BantamJava.Parsing.Program

namespace BantamJava

/-- One parse of one source. -/
structure Session where
  file : String
  table : StmtTable
  cursor : Cursor
  journal : List Event

namespace Session

/-- A session at the start of a source, with the statements of Bantam Java. -/
def start (file : String) (s : Source) : Session :=
  let begun := Cursor.ofSource s
  ⟨file, .standard, begun.1, begun.2⟩

/-- Runs a parser; what it notes is added to the journal. -/
def run {α : Type} (s : Session) (p : Parser α) : Except Fault α × Session :=
  let reply := p s.cursor
  (reply.outcome, { s with cursor := reply.cursor, journal := s.journal ++ reply.events })

/-- Makes tokens of one kind start the given form of statement. -/
def register (s : Session) (kind : Kind) (form : StmtForm) : Session :=
  { s with table := s.table.register kind form }

/-- The diagnostics so far, in order. -/
def diagnostics (s : Session) : List Diagnostic :=
  (faultsIn s.journal).map (.ofFault s.file)

/-- Parses a whole program, and notes in the journal when that starts and ends.
What cannot be parsed is reported and left out, so there always is a program. -/
def parse (s : Session) : Program × Session :=
  let reply := Parser.program s.table s.cursor
  let program := reply.outcome.toOption.getD ⟨[], s.cursor.current.position⟩
  let journal := s.journal ++ .started :: reply.events
  let ended := .finished program.classes.length (faultsIn journal).length
  (program, { s with cursor := reply.cursor, journal := journal ++ [ended] })

end Session

/-- A program, and the diagnostics found on the way to it. -/
structure Parsed where
  program : Program
  diagnostics : List Diagnostic
  journal : List Event

/-- Parses a source text. -/
def parse (text : String) (file : String) : Parsed :=
  let parsed := (Session.start file (.ofText text file)).parse
  ⟨parsed.1, parsed.2.diagnostics, parsed.2.journal⟩

end BantamJava
