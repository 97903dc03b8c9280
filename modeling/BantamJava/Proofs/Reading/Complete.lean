/-
# Phrases are read where they stand

A parser that reads a language finds every phrase of it that may stand in front of
what follows: it succeeds with the value of the phrase and consumes its tokens
(`ReadsAt.complete`). A fault would exclude that very phrase, and what it finds
otherwise can be read in one way only.

Faulty lexemes among the tokens make no difference. A run past them is in lockstep with
the run over the tokens alone (`World.cleared`), so it has the same outcome and consumes
the same tokens.

Key theorems: `ReadsAt.complete`, `World.Matches.of_cleared`, `Parser.expr_complete`.
-/
import BantamJava.Proofs.LexicalFaults
import BantamJava.Proofs.Reading.Expr
import BantamJava.Proofs.Trait.Lookahead

namespace BantamJava

variable {α : Type}

/-- **Every phrase that may stand here is found.** -/
theorem ReadsAt.complete {G : Lang α} {F : Follow α} {c : Cursor} {r : Reply α}
    (h : ReadsAt G F c r) {w k : List Token} {a : α} (hw : G w a) (hk : F a k.head?)
    (hc : c.upcoming = w ++ k) :
    r.outcome = .ok a ∧ consumedIn r.events = w ∧ faultsIn r.events = [] := by
  cases htrouble : r.trouble? with
  | some found =>
    obtain ⟨n, f⟩ := found
    obtain ⟨i, -, -, -, -, hno⟩ := h.fault n f htrouble
    exact absurd (by rw [hc]) (hno w a k hw hk)
  | none =>
    obtain ⟨b, hb, hquiet⟩ := Reply.exists_ok_of_trouble?_eq_none htrouble
    obtain ⟨rfl, rfl⟩ := h.unique b htrouble hb w a k hw hk (by rw [hc])
    exact ⟨hb, rfl, firstReport_eq_none_iff.1 hquiet⟩

/-! ### Past faulty lexemes -/

theorem faultsAhead_withoutFaults (items : List Item) : faultsAhead (withoutFaults items) = [] := by
  induction items with
  | nil => rfl
  | cons item items ih => cases item <;> simp [faultsAhead, ih]

theorem Cursor.pending_cleared (c : Cursor) : c.cleared.pending = [] := by
  simp only [pending, cleared, faultsAhead, faultsAhead_withoutFaults, ite_self]

/-- Without the faults ahead a run has the same outcome, consumes the same tokens and comes
to the same place. -/
theorem World.Matches.of_cleared {p : Parser α} {c : Cursor}
    (h : World.cleared.Matches c (p c) (p c.cleared)) :
    (p c.cleared).outcome = (p c).outcome ∧
      consumedIn (p c.cleared).events = consumedIn (p c).events ∧
      (p c.cleared).cursor = (p c).cursor.cleared := by
  have hnear : (p c.cleared).cursor = (p c).cursor.cleared := h.near
  have hlength : (consumedIn (p c.cleared).events).length = (consumedIn (p c).events).length := by
    have hcount := (p.reaches c).consumed_eq
    have hcount' := (p.reaches c.cleared).consumed_eq
    have hstart : c.cleared.consumed = c.consumed := rfl
    have hend : (p c.cleared).cursor.consumed = (p c).cursor.consumed := by
      rw [hnear]
      rfl
    omega
  have htokens : consumedIn (p c.cleared).events ++ (p c.cleared).cursor.upcoming =
      consumedIn (p c).events ++ (p c).cursor.upcoming := by
    rw [← (p.reaches c).tokens, ← (p.reaches c.cleared).tokens, Cursor.upcoming_cleared]
  refine ⟨?_, (List.append_inj htokens hlength).1, hnear⟩
  have houtcome := h.outcome
  generalize (p c).outcome = o at houtcome ⊢
  generalize (p c.cleared).outcome = o' at houtcome ⊢
  cases houtcome with
  | ok a => rfl
  | error hblames =>
    cases hblames
    rfl

/-! ### Expressions -/

namespace Parser

/-- The parser of expressions reports nothing of its own. -/
theorem quiet_expr (c : Cursor) : faultsIn (expr c).events ++ (expr c).cursor.pending = c.pending :=
  Trait.expr_has Trait.quiet_allows.unbraced.exprs c

/-- **Every expression is found**, whatever faulty lexemes there are among its tokens. -/
theorem expr_complete {c : Cursor} {w k : List Token} {e : Expr} (hw : Expression w e)
    (hk : Ends 1 k.head?) (hc : c.upcoming = w ++ k) :
    (expr c).outcome = .ok e ∧ consumedIn (expr c).events = w := by
  have hmatch : World.cleared.Matches c (expr c) (expr c.cleared) :=
    World.expr_lockstep c c.cleared rfl (Nat.lt_succ_self _) trivial
  obtain ⟨houtcome, hconsumed, -⟩ := hmatch.of_cleared
  have hread : ReadsAt Expression (ends 1) c.cleared (expr c.cleared) :=
    expr_reads c.cleared c.pending_cleared (Nat.lt_succ_self _) trivial
  obtain ⟨hok, hall, -⟩ := hread.complete hw hk (c.upcoming_cleared.trans hc)
  exact ⟨houtcome.symm.trans hok, hconsumed.symm.trans hall⟩

end Parser
end BantamJava
