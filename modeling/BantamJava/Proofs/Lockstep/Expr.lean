/-
# Expressions in lockstep

The parsers of expressions keep two runs in lockstep: from near cursors they
come to matching replies, in every world. Each of them uses the parser `sub`
for nested expressions only behind a consumed token, so lockstep of `sub` at
level `n` gives lockstep at level `n + 1`, and the recursion closes.

Key theorems: `World.chain_lockstep`, `World.exprWith_lockstep`,
`World.expr_lockstep`.
-/
import BantamJava.Proofs.Lockstep.Basic

namespace BantamJava
namespace World

open BantamJava.Parser

variable {W : World} {n : Nat}

/-! ### Names, lists and chains of operators -/

theorem identifier_lockstep : W.Lockstep n identifier identifier :=
  (lockstep_expectElse (by decide) (by decide) (spelling_unexpectedFor _)).bind
    fun _ => lockstep_pure _

theorem typeName_lockstep : W.Lockstep n typeName typeName := by
  refine identifier_lockstep.bind fun name => lockstep_kind rfl fun k => ?_
  by_cases hk : k = .openBracket
  · subst hk
    exact lockstep_skip_then (by decide)
      ((lockstep_expect (by decide) (by decide)).bind fun _ => lockstep_pure _)
  · simp only [if_neg hk]
    exact (lockstep_pure _).when

theorem commaRound_lockstep {α : Type} {p p' : Parser α} (h : W.Lockstep (n + 1) p p')
    {again again' : Parser (List α)} (ha : W.Lockstep n again again') :
    W.Lockstep (n + 1) (commaRound p again) (commaRound p' again') := by
  refine h.bind fun first => lockstep_kind rfl fun k => ?_
  by_cases hk : k = .comma
  · subst hk
    exact lockstep_skip_bind (by decide) (ha.bind fun _ => lockstep_pure _)
  · simp only [if_neg hk]
    exact (lockstep_pure _).when

theorem commaSeparated_lockstep {α : Type} {p p' : Parser α} (h : W.Lockstep n p p') :
    W.Lockstep n (commaSeparated p) (commaSeparated p') :=
  lockstep_recursive_any fun _ _ _ hm => commaRound_lockstep (LockstepIf.mono h hm)

/-- Neither an end token nor a `class` is an operator of the level. -/
def Blind {α : Type} (op? : Kind → Option α) : Prop :=
  op? .endOfInput = none ∧ op? .classWord = none

theorem Blind.ne_endOfInput {α : Type} {op? : Kind → Option α} (h : Blind op?) {k : Kind} {a : α}
    (hk : op? k = some a) : k ≠ .endOfInput := by
  rintro rfl
  rw [h.1] at hk
  cases hk

theorem chainRound_lockstep {op? : Kind → Option BinaryOp} (hop : Blind op?)
    {operand operand' : Parser Expr} (h : W.Lockstep n operand operand')
    {again again' : Expr → Parser Expr} (ha : ∀ e, W.Lockstep n (again e) (again' e))
    (left : Expr) : W.Lockstep (n + 1) (chainRound op? operand again left)
      (chainRound op? operand' again' left) := by
  refine lockstep_kind (by rw [hop.1, hop.2]) fun k => ?_
  cases hk : op? k with
  | none => exact (lockstep_pure _).when
  | some op => exact lockstep_skip_bind (hop.ne_endOfInput hk) (h.bind fun right => ha _)

theorem chain_lockstep {op? : Kind → Option BinaryOp} (hop : Blind op?)
    {operand operand' : Parser Expr} (h : W.Lockstep n operand operand') :
    W.Lockstep n (chain op? operand) (chain op? operand') :=
  h.bind fun first => lockstep_fix_same (fun _ _ _ hm =>
    chainRound_lockstep hop (LockstepIf.mono h (Nat.le_of_succ_le hm))) first

theorem single_lockstep {op? : Kind → Option BinaryOp} (hop : Blind op?)
    {operand operand' : Parser Expr} (h : W.Lockstep n operand operand') :
    W.Lockstep n (single op? operand) (single op? operand') := by
  refine h.bind fun left => lockstep_kind (by rw [hop.1, hop.2]) fun k => ?_
  cases hk : op? k with
  | none => exact (lockstep_pure _).when
  | some op =>
    exact lockstep_skip_then (hop.ne_endOfInput hk) (h.bind fun right => lockstep_pure _)

/-! ### Operands -/

section Levels

variable {sub sub' : Parser Expr}

theorem argumentsWith_lockstep (hs : W.Lockstep n sub sub') :
    W.Lockstep n (argumentsWith sub) (argumentsWith sub') := by
  refine lockstep_kind rfl fun k => ?_
  by_cases hk : k = .closeParen
  · subst hk
    exact (lockstep_pure _).when
  · simp only [if_neg hk]
    exact (commaSeparated_lockstep hs).when

theorem nameSuffix_lockstep (hs : W.Lockstep n sub sub') (receiver : Option Expr) (name : String)
    (p : Position) :
    W.Lockstep (n + 1) (nameSuffix sub receiver name p) (nameSuffix sub' receiver name p) := by
  refine lockstep_kind rfl fun k => ?_
  split
  · exact lockstep_skip_bind (by decide) ((argumentsWith_lockstep hs).bind fun args =>
      (lockstep_expect (by decide) (by decide)).bind fun _ => lockstep_pure _)
  · exact lockstep_skip_bind (by decide) (hs.bind fun index =>
      (lockstep_expect (by decide) (by decide)).bind fun _ => lockstep_pure _)
  · exact (lockstep_pure _).when

theorem integerConstant_lockstep : W.LockstepIf n (At .number) integerConstant integerConstant := by
  refine (lockstep_advance.weaken (together_of_at (by decide))).bind fun t => ?_
  cases readInteger? t.value with
  | some m => exact lockstep_pure _
  | none => exact fun c d hcd _ _ => ⟨hcd, W.said_nil c, .error (W.blames_number _ _ hcd)⟩

theorem primaryBase_lockstep (hs : W.Lockstep n sub sub') :
    W.Lockstep (n + 1) (primaryBase sub) (primaryBase sub') := by
  refine lockstep_kind rfl fun k => ?_
  split
  · exact lockstep_skip_bind (by decide) (hs.bind fun e =>
      (lockstep_expect (by decide) (by decide)).bind fun _ => lockstep_pure _)
  · exact integerConstant_lockstep
  · exact lockstep_advance_bind (by decide) fun t => lockstep_pure _
  · exact lockstep_advance_bind (by decide) fun t => lockstep_pure _
  · exact lockstep_advance_bind (by decide) fun t => lockstep_pure _
  · exact lockstep_advance_bind (by decide) fun t => lockstep_pure _
  · exact lockstep_advance_bind (by decide) fun t =>
      LockstepIf.mono (nameSuffix_lockstep hs none t.value t.position) (Nat.le_succ n)
  · exact (lockstep_failHere (spelling_unexpectedFor _)).when

theorem dotRound_lockstep (hs : W.Lockstep n sub sub') {again again' : Expr → Parser Expr}
    (ha : ∀ e, W.Lockstep n (again e) (again' e)) (receiver : Expr) :
    W.Lockstep (n + 1) (dotRound sub again receiver) (dotRound sub' again' receiver) := by
  refine lockstep_kind rfl fun k => ?_
  by_cases hk : k = .dot
  · subst hk
    exact lockstep_skip_bind (by decide) (identifier_lockstep.bind fun name =>
      (LockstepIf.mono (nameSuffix_lockstep hs (some receiver) name receiver.position)
        (Nat.le_succ n)).bind fun e => ha e)
  · simp only [if_neg hk]
    exact (lockstep_pure _).when

theorem primaryWith_lockstep (hs : W.Lockstep n sub sub') :
    W.Lockstep (n + 1) (primaryWith sub) (primaryWith sub') :=
  (primaryBase_lockstep hs).bind fun base => lockstep_fix_same (fun _ _ _ hm =>
    dotRound_lockstep (LockstepIf.mono hs (Nat.le_of_succ_le_succ hm))) base

theorem postStep_lockstep (hs : W.Lockstep n sub sub') :
    W.Lockstep (n + 1) (postStep sub) (postStep sub') := by
  refine (primaryWith_lockstep hs).bind fun e => lockstep_kind rfl fun k => ?_
  have hop : Blind stepOp? := ⟨rfl, rfl⟩
  cases hk : stepOp? k with
  | none => exact (lockstep_pure _).when
  | some op => exact lockstep_skip_then (hop.ne_endOfInput hk) (lockstep_pure _)

theorem signRound_lockstep (hs : W.Lockstep n sub sub') {again again' : Parser Expr}
    (ha : W.Lockstep n again again') :
    W.Lockstep (n + 1) (signRound sub again) (signRound sub' again') := by
  have hop : Blind signOp? := ⟨rfl, rfl⟩
  refine lockstep_current (fun t => ?_) fun t t' ht ht' => ?_
  · cases hk : signOp? t.kind with
    | none => exact (postStep_lockstep hs).when
    | some make =>
      refine (lockstep_skip_bind (hop.ne_endOfInput hk) (ha.bind fun operand =>
        lockstep_pure _)).weaken ?_
      rintro c d - ⟨rfl, -⟩
      rfl
  · rw [ht, ht', hop.1, hop.2]
    exact (postStep_lockstep hs).when

theorem signed_lockstep (hs : W.Lockstep n sub sub') :
    W.Lockstep (n + 1) (signed sub) (signed sub') :=
  lockstep_recursive_any fun _ _ _ hm =>
    signRound_lockstep (LockstepIf.mono hs (Nat.le_of_succ_le_succ hm))

theorem newWith_lockstep (hs : W.Lockstep n sub sub') :
    W.LockstepIf (n + 1) (At .newWord) (newWith sub) (newWith sub') := by
  refine lockstep_advance_bind (by decide) fun t => identifier_lockstep.bind fun name =>
    lockstep_kind rfl fun k => ?_
  split
  · exact lockstep_skip_then (by decide)
      ((lockstep_expect (by decide) (by decide)).bind fun _ => lockstep_pure _)
  · exact lockstep_skip_then (by decide) (hs.bind fun size =>
      (lockstep_expect (by decide) (by decide)).bind fun _ => lockstep_pure _)
  · exact (lockstep_failHere (spelling_unexpectedFor _)).when

theorem castWith_lockstep (hs : W.Lockstep n sub sub') :
    W.LockstepIf (n + 1) (At .castWord) (castWith sub) (castWith sub') :=
  lockstep_advance_bind (by decide) fun t =>
    (lockstep_expect (by decide) (by decide)).bind fun _ => typeName_lockstep.bind fun name =>
      (lockstep_expect (by decide) (by decide)).bind fun _ => hs.bind fun operand =>
        (lockstep_expect (by decide) (by decide)).bind fun _ => lockstep_pure _

theorem operand_lockstep (hs : W.Lockstep n sub sub') :
    W.Lockstep (n + 1) (operand sub) (operand sub') := by
  refine lockstep_kind rfl fun k => ?_
  split
  · exact newWith_lockstep hs
  · exact castWith_lockstep hs
  · exact (signed_lockstep hs).when

/-! ### Operators -/

theorem multiplicative_lockstep (hs : W.Lockstep n sub sub') :
    W.Lockstep (n + 1) (multiplicative sub) (multiplicative sub') :=
  chain_lockstep ⟨rfl, rfl⟩ (operand_lockstep hs)

theorem additive_lockstep (hs : W.Lockstep n sub sub') :
    W.Lockstep (n + 1) (additive sub) (additive sub') :=
  chain_lockstep ⟨rfl, rfl⟩ (multiplicative_lockstep hs)

theorem relational_lockstep (hs : W.Lockstep n sub sub') :
    W.Lockstep (n + 1) (relational sub) (relational sub') := by
  have hop : Blind comparisonOp? := ⟨rfl, rfl⟩
  refine (additive_lockstep hs).bind fun left => lockstep_kind rfl fun k => ?_
  by_cases hk : k = .instanceofWord
  · subst hk
    exact lockstep_skip_then (by decide) (typeName_lockstep.bind fun name => lockstep_pure _)
  · simp only [if_neg hk]
    refine Lockstep.when (lockstep_kind rfl fun k => ?_)
    cases hk : comparisonOp? k with
    | none => exact (lockstep_pure _).when
    | some op =>
      exact lockstep_skip_then (hop.ne_endOfInput hk)
        ((additive_lockstep hs).bind fun right => lockstep_pure _)

theorem equality_lockstep (hs : W.Lockstep n sub sub') :
    W.Lockstep (n + 1) (equality sub) (equality sub') :=
  single_lockstep ⟨rfl, rfl⟩ (relational_lockstep hs)

theorem conjunction_lockstep (hs : W.Lockstep n sub sub') :
    W.Lockstep (n + 1) (conjunction sub) (conjunction sub') :=
  chain_lockstep ⟨rfl, rfl⟩ (equality_lockstep hs)

theorem disjunction_lockstep (hs : W.Lockstep n sub sub') :
    W.Lockstep (n + 1) (disjunction sub) (disjunction sub') :=
  chain_lockstep ⟨rfl, rfl⟩ (conjunction_lockstep hs)

theorem exprWith_lockstep (hs : W.Lockstep n sub sub') :
    W.Lockstep (n + 1) (exprWith sub) (exprWith sub') := by
  refine lockstep_current (fun leading => Lockstep.when ?_) fun leading leading' _ _ =>
    (disjunction_lockstep hs).dead (disjunction_consuming sub)
  refine (disjunction_lockstep hs).step (disjunction_consuming sub) fun left =>
    lockstep_kind rfl fun k => ?_
  by_cases hk : k = .assignment
  · subst hk
    exact lockstep_skip_then (by decide) (hs.bind fun value => lockstep_pure _)
  · simp only [if_neg hk]
    exact (lockstep_pure _).when

end Levels

/-- **Expressions keep lockstep.** -/
theorem expr_lockstep : W.Lockstep n expr expr :=
  lockstep_recursive_any fun _ _ _ _ => exprWith_lockstep

end World
end BantamJava
