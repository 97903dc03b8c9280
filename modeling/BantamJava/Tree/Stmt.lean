/-
# Statements

The tree of a statement. Every node carries the position of its first token.
A block keeps its statements in order; the body of a method is a block too.

Key definitions: `Stmt`, `Block`, `Stmt.block?`.
Key theorems: `Stmt.same_iff`.
-/
import BantamJava.Tree.Expr

namespace BantamJava

/-- A statement. -/
inductive Stmt where
  | ifElse (pos : Position) (condition : Expr) (thenBranch : Stmt) (elseBranch : Option Stmt)
  | whileLoop (pos : Position) (condition : Expr) (body : Stmt)
  | forLoop (pos : Position) (init condition update : Option Expr) (body : Stmt)
  | breakLoop (pos : Position)
  | returnWith (pos : Position) (value : Option Expr)
  | block (pos : Position) (stmts : List Stmt)
  | declare (pos : Position) (name : String) (init : Expr)
  | evaluate (pos : Position) (expr : Expr)
deriving Inhabited

/-- Statements between curly braces. -/
structure Block where
  stmts : List Stmt
  position : Position
deriving Inhabited

namespace Stmt

/-- The position of a statement. -/
def position : Stmt → Position
  | .ifElse p .. | .whileLoop p .. | .forLoop p .. | .breakLoop p | .returnWith p _
  | .block p _ | .declare p .. | .evaluate p _ => p

/-- The block that a statement is, if it is one. -/
def block? : Stmt → Option Block
  | .block p stmts => some ⟨stmts, p⟩
  | _ => none

end Stmt

mutual

/-- Whether two statements are the same, positions included. -/
def Stmt.same : Stmt → Stmt → Bool
  | .ifElse p c t e, .ifElse p' c' t' e' =>
    decide (p = p') && decide (c = c') && t.same t' && sameBranch e e'
  | .whileLoop p c b, .whileLoop p' c' b' => decide (p = p') && decide (c = c') && b.same b'
  | .forLoop p i c u b, .forLoop p' i' c' u' b' =>
    decide (p = p') && decide (i = i') && decide (c = c') && decide (u = u') && b.same b'
  | .breakLoop p, .breakLoop p' => decide (p = p')
  | .returnWith p v, .returnWith p' v' => decide (p = p') && decide (v = v')
  | .block p s, .block p' s' => decide (p = p') && sameStmts s s'
  | .declare p n i, .declare p' n' i' => decide (p = p') && decide (n = n') && decide (i = i')
  | .evaluate p e, .evaluate p' e' => decide (p = p') && decide (e = e')
  | _, _ => false

/-- Whether two optional statements are the same. -/
def sameBranch : Option Stmt → Option Stmt → Bool
  | none, none => true
  | some s, some s' => s.same s'
  | _, _ => false

/-- Whether two lists of statements are the same. -/
def sameStmts : List Stmt → List Stmt → Bool
  | [], [] => true
  | s :: ss, s' :: ss' => s.same s' && sameStmts ss ss'
  | _, _ => false

end

mutual

/-- The test for sameness decides equality. -/
theorem Stmt.same_iff : ∀ a b : Stmt, a.same b = true ↔ a = b
  | .ifElse _ _ t e, b => by
    cases b <;> simp [Stmt.same, Stmt.same_iff t, sameBranch_iff e, and_assoc]
  | .whileLoop _ _ s, b => by cases b <;> simp [Stmt.same, Stmt.same_iff s, and_assoc]
  | .forLoop _ _ _ _ s, b => by cases b <;> simp [Stmt.same, Stmt.same_iff s, and_assoc]
  | .breakLoop _, b => by cases b <;> simp [Stmt.same]
  | .returnWith _ _, b => by cases b <;> simp [Stmt.same]
  | .block _ ss, b => by cases b <;> simp [Stmt.same, sameStmts_iff ss]
  | .declare _ _ _, b => by cases b <;> simp [Stmt.same, and_assoc]
  | .evaluate _ _, b => by cases b <;> simp [Stmt.same]

theorem sameBranch_iff : ∀ a b : Option Stmt, sameBranch a b = true ↔ a = b
  | none, b => by cases b <;> simp [sameBranch]
  | some s, b => by cases b <;> simp [sameBranch, Stmt.same_iff s]

theorem sameStmts_iff : ∀ a b : List Stmt, sameStmts a b = true ↔ a = b
  | [], b => by cases b <;> simp [sameStmts]
  | s :: ss, b => by cases b <;> simp [sameStmts, Stmt.same_iff s, sameStmts_iff ss]

end

instance : DecidableEq Stmt := fun a b => decidable_of_iff _ (Stmt.same_iff a b)

deriving instance DecidableEq for Block

end BantamJava
