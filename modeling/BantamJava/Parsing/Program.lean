/-
# The grammar of classes and programs

A program is a list of classes, a class a list of fields and methods between
braces. A member that fails is reported and dropped, and the class goes on
after the next `;` or braced body, or at its closing brace. A class that fails
is reported and dropped, and the program goes on at the next `class`.

Key definitions: `Parser.member`, `Parser.resumeMember`, `Parser.classDecl`,
`Parser.resumeClass`, `Parser.program`.
-/
import BantamJava.Parsing.Stmt
import BantamJava.Tree.Program

namespace BantamJava
namespace Parser

/-- A parameter of a method. -/
def formal : Parser Formal := do
  let t ← current
  let type ← typeName
  let name ← identifier
  pure ⟨type, name, t.position⟩

/-- The parameters of a method, without the parentheses. -/
def parameters : Parser (List Formal) := do
  if (← kind) = .closeParen then pure [] else commaSeparated formal

/-- The rest of a method, from its opening parenthesis on. -/
def methodRest (table : StmtTable) (p : Position) (type name : String) : Parser Method := do
  note (.enteredMethod name)
  skip
  let params ← parameters
  let _ ← expect .closeParen
  let body ← block table
  pure ⟨type, name, params, body, p⟩

/-- The rest of a field, from its initial value or its `;` on. -/
def fieldRest (p : Position) (type name : String) : Parser Field := do
  if (← kind) = .assignment then
    skip
    let init ← expr
    let _ ← expect .semicolon
    pure ⟨type, name, some init, p⟩
  else
    let _ ← expect .semicolon
    pure ⟨type, name, none, p⟩

/-- A member of a class. -/
def member (table : StmtTable) : Parser Member := do
  let t ← current
  let type ← typeName
  let name ← identifier
  if (← kind) = .openParen then
    let m ← methodRest table t.position type name
    pure (.method m)
  else
    let f ← fieldRest t.position type name
    pure (.field f)

/-- One step of `skipMember`. -/
def skipMemberRound (again : Nat → Parser Unit) (depth : Nat) : Parser Unit := do
  match ← kind with
  | .endOfInput => pure ()
  | .classWord =>
    if depth = 0 then pure ()
    else
      skip
      again depth
  | .semicolon => do
    skip
    if depth ≠ 0 then again depth
  | .openCurly => do
    skip
    again (depth + 1)
  | .closeCurly =>
    if depth = 0 then pure ()
    else
      skip
      if depth ≠ 1 then again (depth - 1)
  | _ => do
    skip
    again depth

/-- Skips to the end of a member, with so many braces open: past a `;` outside
braces, past the brace that closes the outermost one, or to a closing brace or
a `class` outside braces. -/
def skipMember (depth : Nat) : Parser Unit := fix skipMemberRound depth

/-- Recovery after a member that failed; `start` tokens had been consumed
before it. -/
def resumeMember (start : Nat) : Parser Unit := do
  if (← consumed) = start then
    match ← kind with
    | .semicolon => skip
    | .openCurly => do
      skip
      skipMember 1
    | _ => do
      skip
      skipMember 0
  else skipMember 0

/-- The class that a class extends, if it names one. -/
def extendsClause : Parser (Option String) := do
  if (← kind) = .extendsWord then
    skip
    let parent ← identifier
    pure (some parent)
  else pure none

/-- The members of a class. One that fails is dropped. -/
def members (table : StmtTable) : Parser (List Member) :=
  collect endsBody (recovering (member table) resumeMember)

/-- A class. -/
def classDecl (table : StmtTable) : Parser Class := do
  let t ← expect .classWord
  let name ← identifier
  let parent ← extendsClause
  note (.enteredClass name)
  let _ ← expect .openCurly
  let members ← members table
  closeBody
  pure ⟨name, parent, members, t.position⟩

/-- One step of `skipClass`. -/
def skipClassRound (again : Parser Unit) : Parser Unit := do
  let k ← kind
  if k = .endOfInput ∨ k = .classWord then pure ()
  else
    skip
    again

/-- Skips to the next `class`. -/
def skipClass : Parser Unit := recursive skipClassRound

/-- Recovery after a class that failed; `start` tokens had been consumed
before it. -/
def resumeClass (start : Nat) : Parser Unit := do
  let _ ← forceStep start
  skipClass

/-- The classes of a program. One that fails is dropped. -/
def classes (table : StmtTable) : Parser (List Class) :=
  collect (· == .endOfInput) (recovering (classDecl table) resumeClass)

/-- A program: everything up to the end of the input. -/
def program (table : StmtTable) : Parser Program := do
  let t ← current
  let classes ← classes table
  pure ⟨classes, t.position⟩

end Parser
end BantamJava
