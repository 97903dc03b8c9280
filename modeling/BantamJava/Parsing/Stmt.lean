/-
# The grammar of statements

The first token of a statement decides its form, by a table; a token without
an entry starts an expression statement. An `else` belongs to the nearest `if`
that has none yet.

A statement that fails inside a block is reported and dropped, and the block
goes on after the next `;`, or in front of a token that starts a statement or
closes the block. If an `else` stands there, it belonged to what was dropped,
and its statement is skipped with it.

Parsers that contain a statement take the parser for it as their argument
`sub`; `stmt` ties the knot.

Key definitions: `StmtForm`, `StmtTable`, `Parser.stmt`, `Parser.block`,
`Parser.resumeStmt`.
-/
import BantamJava.Parsing.Expr
import BantamJava.Tree.Stmt

namespace BantamJava

/-- The forms of statements. -/
inductive StmtForm where
  | expression | block | conditional | whileLoop | forLoop | breakLoop | returnValue | declaration
deriving DecidableEq, Inhabited

/-- Which form of statement a token starts. -/
def StmtTable : Type := Kind → Option StmtForm

namespace StmtTable

/-- The statements of Bantam Java. -/
def standard : StmtTable
  | .ifWord => some .conditional
  | .openCurly => some .block
  | .varWord => some .declaration
  | .returnWord => some .returnValue
  | .forWord => some .forLoop
  | .whileWord => some .whileLoop
  | .breakWord => some .breakLoop
  | _ => none

instance : Inhabited StmtTable := ⟨standard⟩

/-- The table in which tokens of one kind start the given form. -/
def register (table : StmtTable) (kind : Kind) (form : StmtForm) : StmtTable :=
  fun k => if k = kind then some form else table k

/-- The form that a token starts: an expression, if the table has no entry. -/
def form (table : StmtTable) (kind : Kind) : StmtForm :=
  (table kind).getD .expression

end StmtTable

namespace Parser

/-- The kinds of tokens at which the inside of braces ends. -/
def endsBody (k : Kind) : Bool :=
  [.closeCurly, .endOfInput, .classWord].contains k

/-- The kinds of tokens in front of which statement recovery stops. -/
def stopsRecovery (k : Kind) : Bool :=
  [.closeCurly, .classWord, .ifWord, .whileWord, .forWord, .varWord, .returnWord, .breakWord,
   .openCurly].contains k

/-- A closing brace. A missing one is reported, and what is inside is kept. -/
def closeBody : Parser Unit := do
  match ← attempt (expect .closeCurly) with
  | .ok _ => pure ()
  | .error f => report f

/-- One step of `skipStmt`. -/
def skipStmtRound (again : Parser Unit) : Parser Unit := do
  let k ← kind
  if k = .endOfInput then pure ()
  else if k = .semicolon then skip
  else if stopsRecovery k then pure ()
  else
    skip
    again

/-- Skips past the next `;`, or to a token that stops recovery. -/
def skipStmt : Parser Unit := recursive skipStmtRound

/-- Consumes a token if none has been consumed since `start`, and tells
whether that was a `;`. -/
def forceStep (start : Nat) : Parser Bool := do
  if (← consumed) = start then
    let t ← advance
    pure (t.kind == .semicolon)
  else pure false

/-- Leaves a statement that failed; `start` tokens had been consumed before it.
A statement that failed on a lone `;` has already reached its end. -/
def leaveStmt (start : Nat) : Parser Unit := do
  let ended ← forceStep start
  if ended then pure () else skipStmt

section Forms

variable (sub : Parser Stmt)

/-- Skips the `else` of an `if` that was dropped, with its statement. If that
statement fails too, it is reported and `again` recovers after it, unless the
`else` was the last thing between the braces. -/
def skipElse (again : Nat → Parser Unit) : Parser Unit := do
  if (← kind) = .elseWord then
    note .skippingElse
    skip
    let start ← consumed
    match ← attempt sub with
    | .ok _ => pure ()
    | .error f => do
      report f
      let k ← kind
      if (← consumed) ≠ start ∨ endsBody k = false then again start

/-- One round of recovery: leaves the statement that failed, and skips the
`else` left behind by it. -/
def resumeRound (again : Nat → Parser Unit) (start : Nat) : Parser Unit := do
  leaveStmt start
  skipElse sub again

/-- Recovery after a statement that failed; `start` tokens had been consumed
before it. -/
def resumeStmtWith (start : Nat) : Parser Unit :=
  fix (resumeRound sub) start

/-- The statements of a block. One that fails is dropped. -/
def stmtsWith : Parser (List Stmt) :=
  collect endsBody (recovering sub (resumeStmtWith sub))

/-- Statements between braces. -/
def blockWith : Parser Block := do
  let t ← expect .openCurly
  let stmts ← stmtsWith sub
  closeBody
  pure ⟨stmts, t.position⟩

/-- A block as a statement. -/
def blockStmt : Parser Stmt := do
  let b ← blockWith sub
  pure (.block b.position b.stmts)

/-- An expression and a `;`. -/
def expressionStmt : Parser Stmt := do
  let t ← current
  let e ← expr
  let _ ← expectElse .semicolon .unexpected
  pure (.evaluate t.position e)

/-- An expression in parentheses. -/
def condition : Parser Expr := do
  let _ ← expect .openParen
  let e ← expr
  let _ ← expect .closeParen
  pure e

/-- An `if`, with its `else` if there is one. -/
def conditionalStmt : Parser Stmt := do
  let t ← advance
  let test ← condition
  let thenBranch ← sub
  if (← kind) = .elseWord then
    skip
    let elseBranch ← sub
    pure (.ifElse t.position test thenBranch (some elseBranch))
  else pure (.ifElse t.position test thenBranch none)

/-- A `while`. -/
def whileStmt : Parser Stmt := do
  let t ← advance
  let test ← condition
  let body ← sub
  pure (.whileLoop t.position test body)

/-- An expression, unless a token of the given kind stands there already. -/
def exprUnless (k : Kind) : Parser (Option Expr) := do
  if (← kind) = k then pure none
  else
    let e ← expr
    pure (some e)

/-- A `for`, each of whose three expressions may be missing. -/
def forStmt : Parser Stmt := do
  let t ← advance
  let _ ← expect .openParen
  let init ← exprUnless .semicolon
  let _ ← expect .semicolon
  let test ← exprUnless .semicolon
  let _ ← expect .semicolon
  let update ← exprUnless .closeParen
  let _ ← expect .closeParen
  let body ← sub
  pure (.forLoop t.position init test update body)

/-- A `break`. -/
def breakStmt : Parser Stmt := do
  let t ← advance
  let _ ← expect .semicolon
  pure (.breakLoop t.position)

/-- A `return`, perhaps with a value. -/
def returnStmt : Parser Stmt := do
  let t ← advance
  let value ← exprUnless .semicolon
  let _ ← expect .semicolon
  pure (.returnWith t.position value)

/-- The declaration of a local variable, which needs a value. -/
def declarationStmt : Parser Stmt := do
  let t ← advance
  let name ← identifier
  let _ ← expectElse .assignment fun _ => .missingInitializer name
  let init ← expr
  let _ ← expect .semicolon
  pure (.declare t.position name init)

/-- A statement of the given form. -/
def formWith : StmtForm → Parser Stmt
  | .expression => expressionStmt
  | .block => blockStmt sub
  | .conditional => conditionalStmt sub
  | .whileLoop => whileStmt sub
  | .forLoop => forStmt sub
  | .breakLoop => breakStmt
  | .returnValue => returnStmt
  | .declaration => declarationStmt

/-- A statement of the form that its first token starts. -/
def stmtWith (table : StmtTable) : Parser Stmt := do
  formWith sub (table.form (← kind))

end Forms

/-- A statement. -/
def stmt (table : StmtTable) : Parser Stmt :=
  recursive fun sub => stmtWith sub table

/-- A statement of the given form, whatever its first token is. -/
def stmtOf (table : StmtTable) (form : StmtForm) : Parser Stmt :=
  formWith (stmt table) form

/-- Statements between braces. -/
def block (table : StmtTable) : Parser Block :=
  blockWith (stmt table)

/-- Recovery after a statement that failed. -/
def resumeStmt (table : StmtTable) (start : Nat) : Parser Unit :=
  resumeStmtWith (stmt table) start

end Parser
end BantamJava
