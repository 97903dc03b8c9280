/-
# The grammar has every trait

The parsers of the grammar have every trait. For expressions and all that is
made of names and expressions it is enough that the trait allows the tokens of
expressions. Simple statements need all tokens but braces, and so does the part
of recovery that skips to the end of a statement. The rest needs that the trait
allows all tokens, and that it is kept where faults are caught.

Key definitions: `inExpr`, `Trait.AllowsExprs`, `Trait.AllowsUnbraced`,
`Trait.AllowsAll`.
Key theorems: `Trait.expr_has`, `Trait.skipStmt_has`, `Trait.stmt_has`,
`Trait.member_has`, `Trait.classes_has`.
-/
import BantamJava.Proofs.Trait.Basic

namespace BantamJava

open BantamJava.Parser

/-- The kinds of tokens that expressions are made of. -/
def inExpr : Kind → Bool
  | .endOfInput | .semicolon | .openCurly | .closeCurly => false
  | .classWord | .extendsWord | .varWord | .ifWord | .elseWord => false
  | .whileWord | .forWord | .breakWord | .returnWord => false
  | _ => true

/-- The operators between operands are tokens of expressions. -/
theorem inExpr_of_binaryOp : ∀ op? ∈ [orOp?, andOp?, equalityOp?, comparisonOp?, additiveOp?,
    multiplicativeOp?], ∀ k op, op? k = some op → inExpr k = true := by
  simp only [List.forall_mem_cons]
  refine ⟨?_, ?_, ?_, ?_, ?_, ?_, by simp⟩ <;>
  · intro k op h
    cases k <;> first | rfl | cases h

theorem inExpr_of_stepOp {k : Kind} {op : StepOp} (h : stepOp? k = some op) : inExpr k = true := by
  cases k <;> first | rfl | cases h

theorem inExpr_of_signOp {k : Kind} {make : Position → Expr → Expr} (h : signOp? k = some make) :
    inExpr k = true := by
  cases k <;> first | rfl | cases h

namespace Trait

open World (alone_refl Blind spelling_unexpected spelling_unexpectedFor
  spelling_missingInitializer)

variable {α : Type} {T : Trait}

/-- The trait allows the tokens of expressions. -/
def AllowsExprs (T : Trait) : Prop := ∀ k, inExpr k = true → T.takes k

/-- The trait allows all tokens but braces. -/
def AllowsUnbraced (T : Trait) : Prop := ∀ k, k ≠ .openCurly → k ≠ .closeCurly → T.takes k

/-- The trait allows all tokens. -/
def AllowsAll (T : Trait) : Prop := ∀ k, T.takes k

theorem AllowsUnbraced.exprs (hT : T.AllowsUnbraced) : T.AllowsExprs := by
  intro k hk
  refine hT k ?_ ?_
  · rintro rfl
    cases hk
  · rintro rfl
    cases hk

theorem AllowsAll.unbraced (hT : T.AllowsAll) : T.AllowsUnbraced := fun k _ _ => hT k

/-! ### Names, lists and chains of operators -/

section Exprs

variable (hT : T.AllowsExprs)

include hT

theorem identifier_has : T.Has identifier :=
  (has_expectElse (hT _ rfl) (spelling_unexpectedFor _)).bind fun _ => has_pure _

theorem typeName_has : T.Has typeName := by
  refine (identifier_has hT).bind fun name => has_kind fun k => ?_
  by_cases hk : k = .openBracket
  · subst hk
    exact (hasAt_skip (hT _ rfl)).bind fun _ => (has_expect (hT _ rfl)).bind fun _ => has_pure _
  · simp only [if_neg hk]
    exact (has_pure _).at

theorem commaSeparated_has {p : Parser α} (hp : T.Has p) : T.Has (commaSeparated p) := by
  refine has_recursive (guarded_recursive fun _ _ _ => World.commaRound_lockstep (alone_refl p))
    fun again ha => hp.bind fun first => has_kind fun k => ?_
  by_cases hk : k = .comma
  · subst hk
    exact (hasAt_skip (hT _ rfl)).bind fun _ => ha.bind fun _ => has_pure _
  · simp only [if_neg hk]
    exact (has_pure _).at

omit hT in
theorem chain_has {op? : Kind → Option BinaryOp} (hblind : Blind op?)
    (hop : ∀ k op, op? k = some op → T.takes k) {operand : Parser Expr} (h : T.Has operand) :
    T.Has (chain op? operand) := by
  refine h.bind fun first => has_fix_any (guarded_any fun _ _ _ =>
    World.chainRound_lockstep hblind (alone_refl operand)) (fun again ha left => ?_) first
  refine has_kind fun k => ?_
  cases hk : op? k with
  | none => exact (has_pure _).at
  | some op => exact (hasAt_skip (hop k op hk)).bind fun _ => h.bind fun right => ha _

omit hT in
theorem single_has {op? : Kind → Option BinaryOp} (hop : ∀ k op, op? k = some op → T.takes k)
    {operand : Parser Expr} (h : T.Has operand) : T.Has (single op? operand) := by
  refine h.bind fun left => has_kind fun k => ?_
  cases hk : op? k with
  | none => exact (has_pure _).at
  | some op => exact (hasAt_skip (hop k op hk)).bind fun _ => h.bind fun right => has_pure _

/-! ### Expressions -/

section Levels

variable {sub : Parser Expr} (hs : T.Has sub)

include hs

theorem argumentsWith_has : T.Has (argumentsWith sub) := by
  refine has_kind fun k => ?_
  split
  · exact (has_pure _).at
  · exact (commaSeparated_has hT hs).at

theorem nameSuffix_has (receiver : Option Expr) (name : String) (p : Position) :
    T.Has (nameSuffix sub receiver name p) := by
  refine has_kind fun k => ?_
  split
  · exact (hasAt_skip (hT _ rfl)).bind fun _ => (argumentsWith_has hT hs).bind fun args =>
      (has_expect (hT _ rfl)).bind fun _ => has_pure _
  · exact (hasAt_skip (hT _ rfl)).bind fun _ => hs.bind fun index =>
      (has_expect (hT _ rfl)).bind fun _ => has_pure _
  · exact (has_pure _).at

theorem primaryBase_has : T.Has (primaryBase sub) := by
  refine has_kind fun k => ?_
  split
  · exact (hasAt_skip (hT _ rfl)).bind fun _ => hs.bind fun e =>
      (has_expect (hT _ rfl)).bind fun _ => has_pure _
  · exact fun c => T.holds_number (hT _ rfl)
  · exact (hasAt_advance (hT _ rfl)).bind fun t => has_pure _
  · exact (hasAt_advance (hT _ rfl)).bind fun t => has_pure _
  · exact (hasAt_advance (hT _ rfl)).bind fun t => has_pure _
  · exact (hasAt_advance (hT _ rfl)).bind fun t => has_pure _
  · exact (hasAt_advance (hT _ rfl)).bind fun t => nameSuffix_has hT hs none t.value t.position
  · exact (has_failHere (spelling_unexpectedFor _)).at

theorem primaryWith_has : T.Has (primaryWith sub) := by
  refine (primaryBase_has hT hs).bind fun base => has_fix_any (guarded_any fun _ _ _ =>
    World.dotRound_lockstep (alone_refl sub)) (fun again ha receiver => ?_) base
  refine has_kind fun k => ?_
  by_cases hk : k = .dot
  · subst hk
    exact (hasAt_skip (hT _ rfl)).bind fun _ => (identifier_has hT).bind fun name =>
      (nameSuffix_has hT hs (some receiver) name receiver.position).bind fun e => ha e
  · simp only [if_neg hk]
    exact (has_pure _).at

theorem postStep_has : T.Has (postStep sub) := by
  refine (primaryWith_has hT hs).bind fun e => has_kind fun k => ?_
  cases hk : stepOp? k with
  | none => exact (has_pure _).at
  | some op => exact (hasAt_skip (hT _ (inExpr_of_stepOp hk))).bind fun _ => has_pure _

theorem signed_has : T.Has (signed sub) := by
  refine has_recursive (guarded_recursive fun _ _ _ => World.signRound_lockstep (alone_refl sub))
    fun again ha c => holds_current_bind ?_
  cases hk : signOp? c.current.kind with
  | none => exact postStep_has hT hs c
  | some make =>
    exact ((hasAt_skip (hT _ (inExpr_of_signOp hk))).bind fun _ => ha.bind fun operand =>
      has_pure _) c rfl

/-- The first token is taken for `new`, whatever it is. -/
theorem newWith_has {k : Kind} (hk : T.takes k) : T.HasAt k (newWith sub) := by
  refine (hasAt_advance hk).bind fun t => (identifier_has hT).bind fun name =>
    has_kind fun k => ?_
  split
  · exact (hasAt_skip (hT _ rfl)).bind fun _ => (has_expect (hT _ rfl)).bind fun _ => has_pure _
  · exact (hasAt_skip (hT _ rfl)).bind fun _ => hs.bind fun size =>
      (has_expect (hT _ rfl)).bind fun _ => has_pure _
  · exact (has_failHere (spelling_unexpectedFor _)).at

/-- The first token is taken for `cast`, whatever it is. -/
theorem castWith_has {k : Kind} (hk : T.takes k) : T.HasAt k (castWith sub) :=
  (hasAt_advance hk).bind fun _ => (has_expect (hT _ rfl)).bind fun _ =>
    (typeName_has hT).bind fun _ => (has_expect (hT _ rfl)).bind fun _ => hs.bind fun _ =>
      (has_expect (hT _ rfl)).bind fun _ => has_pure _

theorem operand_has : T.Has (operand sub) := by
  refine has_kind fun k => ?_
  split
  · exact newWith_has hT hs (hT _ rfl)
  · exact castWith_has hT hs (hT _ rfl)
  · exact (signed_has hT hs).at

theorem multiplicative_has : T.Has (multiplicative sub) :=
  chain_has ⟨rfl, rfl⟩ (fun k op h => hT k (inExpr_of_binaryOp _ (by simp) k op h))
    (operand_has hT hs)

theorem additive_has : T.Has (additive sub) :=
  chain_has ⟨rfl, rfl⟩ (fun k op h => hT k (inExpr_of_binaryOp _ (by simp) k op h))
    (multiplicative_has hT hs)

theorem relational_has : T.Has (relational sub) := by
  refine (additive_has hT hs).bind fun left => has_kind fun k => ?_
  by_cases hk : k = .instanceofWord
  · subst hk
    exact (hasAt_skip (hT _ rfl)).bind fun _ => (typeName_has hT).bind fun name => has_pure _
  · simp only [if_neg hk]
    refine Has.at (has_kind fun k => ?_)
    cases hk : comparisonOp? k with
    | none => exact (has_pure _).at
    | some op =>
      have htakes := hT k (inExpr_of_binaryOp comparisonOp? (by simp) k op hk)
      exact (hasAt_skip htakes).bind fun _ => (additive_has hT hs).bind fun right => has_pure _

theorem equality_has : T.Has (equality sub) :=
  single_has (fun k op h => hT k (inExpr_of_binaryOp _ (by simp) k op h)) (relational_has hT hs)

theorem conjunction_has : T.Has (conjunction sub) :=
  chain_has ⟨rfl, rfl⟩ (fun k op h => hT k (inExpr_of_binaryOp _ (by simp) k op h))
    (equality_has hT hs)

theorem disjunction_has : T.Has (disjunction sub) :=
  chain_has ⟨rfl, rfl⟩ (fun k op h => hT k (inExpr_of_binaryOp _ (by simp) k op h))
    (conjunction_has hT hs)

theorem exprWith_has : T.Has (exprWith sub) := by
  refine has_current fun leading => (disjunction_has hT hs).bind fun left => has_kind fun k => ?_
  by_cases hk : k = .assignment
  · subst hk
    exact (hasAt_skip (hT _ rfl)).bind fun _ => hs.bind fun value => has_pure _
  · simp only [if_neg hk]
    exact (has_pure _).at

end Levels

/-- **Expressions have every trait** that allows their tokens. -/
theorem expr_has : T.Has expr :=
  has_recursive (guarded_recursive fun _ _ _ => World.exprWith_lockstep) fun _ => exprWith_has hT

/-! ### Parameters -/

theorem formal_has : T.Has formal :=
  has_current fun _ => (typeName_has hT).bind fun _ => (identifier_has hT).bind fun _ => has_pure _

theorem parameters_has : T.Has parameters := by
  refine has_kind fun k => ?_
  split
  · exact (has_pure _).at
  · exact (commaSeparated_has hT (formal_has hT)).at

theorem condition_has : T.Has condition :=
  (has_expect (hT _ rfl)).bind fun _ => (expr_has hT).bind fun _ =>
    (has_expect (hT _ rfl)).bind fun _ => has_pure _

theorem exprUnless_has (k : Kind) : T.Has (exprUnless k) := by
  refine has_kind fun k' => ?_
  split
  · exact (has_pure _).at
  · exact Has.at ((expr_has hT).bind fun e => has_pure _)

end Exprs

/-! ### Simple statements -/

section Unbraced

variable (hT : T.AllowsUnbraced)

include hT

theorem expressionStmt_has : T.Has expressionStmt :=
  has_current fun _ => (expr_has hT.exprs).bind fun _ =>
    (has_expectElse (hT _ (by decide) (by decide)) spelling_unexpected).bind fun _ => has_pure _

theorem breakStmt_has : T.HasAt .breakWord breakStmt :=
  (hasAt_advance (hT _ (by decide) (by decide))).bind fun _ =>
    (has_expect (hT _ (by decide) (by decide))).bind fun _ => has_pure _

theorem returnStmt_has : T.HasAt .returnWord returnStmt :=
  (hasAt_advance (hT _ (by decide) (by decide))).bind fun _ =>
    (exprUnless_has hT.exprs _).bind fun _ =>
    (has_expect (hT _ (by decide) (by decide))).bind fun _ => has_pure _

theorem declarationStmt_has : T.HasAt .varWord declarationStmt :=
  (hasAt_advance (hT _ (by decide) (by decide))).bind fun _ =>
    (identifier_has hT.exprs).bind fun name =>
    (has_expectElse (hT _ (by decide) (by decide)) (spelling_missingInitializer name)).bind fun _ =>
    (expr_has hT.exprs).bind fun _ =>
    (has_expect (hT _ (by decide) (by decide))).bind fun _ => has_pure _

theorem skipStmt_has : T.Has skipStmt := by
  refine has_recursive (guarded_recursive fun _ _ _ => World.skipStmtRound_lockstep)
    fun again ha => has_kind fun k => ?_
  split
  · exact (has_pure _).at
  split
  · next hk => exact hk ▸ hasAt_skip (hT _ (by decide) (by decide))
  split
  · exact (has_pure _).at
  · next hstop =>
    have hopen : k ≠ .openCurly := by
      rintro rfl
      exact hstop rfl
    have hclose : k ≠ .closeCurly := by
      rintro rfl
      exact hstop rfl
    exact (hasAt_skip (hT k hopen hclose)).bind fun _ => ha

end Unbraced

/-! ### Statements -/

section All

variable (hT : T.AllowsAll)

include hT

theorem has_advance : T.Has advance := fun _ => T.holds_advance fun _ => hT _

theorem has_skip : T.Has skip := (has_advance hT).bind fun _ => has_pure ()

theorem forceStep_has (start : Nat) : T.Has (forceStep start) := by
  refine has_consumed fun n => ?_
  split
  · exact (has_advance hT).bind fun t => has_pure _
  · exact has_pure _

theorem leaveStmt_has (start : Nat) : T.Has (leaveStmt start) := by
  refine (forceStep_has hT start).bind fun ended => ?_
  split
  · exact has_pure ()
  · exact skipStmt_has hT.unbraced

section Catching

variable (hc : T.Catches)

include hc

theorem closeBody_has : T.Has closeBody :=
  fun c => hc (g := fun _ => pure ()) (fun e => (bind_pure (report e)).symm)
    (has_expect (hT _) c) (fun _ _ => has_pure _ _) fun _ _ => has_pure _ _

section Forms

variable {sub : Parser Stmt} (hs : T.Has sub)

include hs

theorem skipElse_has {again : Nat → Parser Unit} (ha : ∀ start, T.Has (again start)) :
    T.Has (skipElse sub again) := by
  refine has_kind fun k => ?_
  split
  · refine has_note_bind rfl rfl ((hasAt_skip (hT k)).bind fun _ => has_consumed fun start c => ?_)
    refine hc (fun _ => rfl) (hs c) (fun _ _ => has_pure _ _) fun e _ => ?_
    refine (has_kind fun k => (has_consumed fun n => ?_).at) _
    split
    · exact ha start
    · exact has_pure _
  · exact (has_pure _).at

theorem resumeStmtWith_has (start : Nat) : T.Has (resumeStmtWith sub start) := by
  refine has_fix_any (guarded_any fun n self self' hself start => ?_) (fun again ha start => ?_) start
  · refine World.alone_lockstep_iff.2 fun c hc => resumeRound_congr sub (fun start d hd => ?_) start
    exact World.alone_lockstep_iff.1 (hself start) d (by omega)
  · exact (leaveStmt_has hT start).bind fun _ => skipElse_has hT hc hs ha

theorem stmtsWith_has (hsub : Consuming sub) : T.Has (stmtsWith sub) :=
  has_collect (fun _ => left_stmtTurn_lt hsub) fun c _ =>
    has_recovering hc hs (fun start => resumeStmtWith_has hT hc hs start) c

theorem blockWith_has (hsub : Consuming sub) : T.Has (blockWith sub) :=
  (has_expect (hT _)).bind fun _ => (stmtsWith_has hT hc hs hsub).bind fun _ =>
    (closeBody_has hT hc).bind fun _ => has_pure _

omit hc in
theorem conditionalStmt_has : T.Has (conditionalStmt sub) := by
  refine (has_advance hT).bind fun t => (condition_has hT.unbraced.exprs).bind fun test =>
    hs.bind fun thenBranch => has_kind fun k => ?_
  split
  · exact (hasAt_skip (hT k)).bind fun _ => hs.bind fun elseBranch => has_pure _
  · exact (has_pure _).at

omit hc in
theorem whileStmt_has : T.Has (whileStmt sub) :=
  (has_advance hT).bind fun _ => (condition_has hT.unbraced.exprs).bind fun _ =>
    hs.bind fun _ => has_pure _

omit hc in
theorem forStmt_has : T.Has (forStmt sub) := by
  have hunless := exprUnless_has hT.unbraced.exprs
  exact (has_advance hT).bind fun t => (has_expect (hT _)).bind fun _ =>
    (hunless _).bind fun init => (has_expect (hT _)).bind fun _ =>
    (hunless _).bind fun test => (has_expect (hT _)).bind fun _ =>
    (hunless _).bind fun update => (has_expect (hT _)).bind fun _ => hs.bind fun body => has_pure _

theorem formWith_has (hsub : Consuming sub) (form : StmtForm) : T.Has (formWith sub form) := by
  have hunless := exprUnless_has hT.unbraced.exprs
  cases form with
  | expression => exact expressionStmt_has hT.unbraced
  | block => exact (blockWith_has hT hc hs hsub).bind fun b => has_pure _
  | conditional => exact conditionalStmt_has hT hs
  | whileLoop => exact whileStmt_has hT hs
  | forLoop => exact forStmt_has hT hs
  | breakLoop => exact (has_advance hT).bind fun t => (has_expect (hT _)).bind fun _ => has_pure _
  | returnValue =>
    exact (has_advance hT).bind fun t => (hunless _).bind fun value =>
      (has_expect (hT _)).bind fun _ => has_pure _
  | declaration =>
    exact (has_advance hT).bind fun t => (identifier_has hT.unbraced.exprs).bind fun name =>
      (has_expectElse (hT _) (spelling_missingInitializer name)).bind fun _ =>
      (expr_has hT.unbraced.exprs).bind fun init => (has_expect (hT _)).bind fun _ => has_pure _

end Forms

/-- **Statements have every trait** that is kept in recovery. -/
theorem stmt_has (table : StmtTable) : T.Has (stmt table) := by
  have hguard : Guarded fun self (_ : Unit) => stmtWith (self ()) table :=
    guarded (Q := Consuming) (fun c => consumesAt_failHere _ c)
      (fun _ _ => stmtWith_consuming _ table) fun _ _ _ hsub hs _ =>
        World.stmtWith_lockstep (hs ()) (hsub ()) (.inl World.alone_faithful)
  exact has_fix (Q := Consuming) hguard (fun c => consumesAt_failHere _ c)
    (fun _ _ => stmtWith_consuming _ table)
    (fun _ hsub hs _ => has_kind fun _ => (formWith_has hT hc (hs ()) (hsub ()) _).at) ()

theorem block_has (table : StmtTable) : T.Has (block table) :=
  blockWith_has hT hc (stmt_has hT hc table) (stmt_consuming table)

/-! ### Members and classes -/

theorem methodRest_has (table : StmtTable) (p : Position) (type name : String) :
    T.Has (methodRest table p type name) :=
  fun c => has_note_bind (k := c.current.kind) rfl rfl (Has.at ((has_skip hT).bind fun _ =>
    (parameters_has hT.unbraced.exprs).bind fun _ => (has_expect (hT _)).bind fun _ =>
    (block_has hT hc table).bind fun _ => has_pure _)) c rfl

omit hc in
theorem fieldRest_has (p : Position) (type name : String) : T.Has (fieldRest p type name) := by
  refine has_kind fun k => ?_
  split
  · exact (hasAt_skip (hT k)).bind fun _ => (expr_has hT.unbraced.exprs).bind fun init =>
      (has_expect (hT _)).bind fun _ => has_pure _
  · exact Has.at ((has_expect (hT _)).bind fun _ => has_pure _)

theorem member_has (table : StmtTable) : T.Has (member table) := by
  refine has_current fun t => (typeName_has hT.unbraced.exprs).bind fun type =>
    (identifier_has hT.unbraced.exprs).bind fun name => has_kind fun k => ?_
  split
  · exact Has.at ((methodRest_has hT hc table _ _ _).bind fun m => has_pure _)
  · exact Has.at ((fieldRest_has hT _ _ _).bind fun f => has_pure _)

omit hc in
theorem skipMember_has (depth : Nat) : T.Has (skipMember depth) := by
  refine has_fix_any (guarded_any fun _ _ _ hs depth =>
    (World.skipMemberRound_lockstep (fun k => (hs k).when) depth).weaken fun _ _ _ _ => trivial)
    (fun again ha depth => has_kind fun k => Has.at ?_) depth
  have hagain : ∀ depth, T.Has (skip >>= fun _ => again depth) := fun depth =>
    (has_skip hT).bind fun _ => ha depth
  split
  · exact has_pure _
  · split
    · exact has_pure _
    · exact hagain _
  · refine (has_skip hT).bind fun _ => ?_
    split
    · exact ha _
    · exact has_pure _
  · exact hagain _
  · split
    · exact has_pure _
    · refine (has_skip hT).bind fun _ => ?_
      split
      · exact ha _
      · exact has_pure _
  · exact hagain _

omit hc in
theorem resumeMember_has (start : Nat) : T.Has (resumeMember start) := by
  refine has_consumed fun n => ?_
  split
  · refine has_kind fun k => Has.at ?_
    split
    · exact has_skip hT
    · exact (has_skip hT).bind fun _ => skipMember_has hT 1
    · exact (has_skip hT).bind fun _ => skipMember_has hT 0
  · exact skipMember_has hT 0

theorem members_has (table : StmtTable) : T.Has (members table) :=
  has_collect (fun _ => left_memberTurn_lt table) fun c _ =>
    has_recovering hc (member_has hT hc table) (resumeMember_has hT) c

omit hc in
theorem extendsClause_has : T.Has extendsClause := by
  refine has_kind fun k => ?_
  split
  · exact (hasAt_skip (hT k)).bind fun _ => (identifier_has hT.unbraced.exprs).bind fun parent =>
      has_pure _
  · exact (has_pure _).at

theorem classDecl_has (table : StmtTable) : T.Has (classDecl table) := by
  refine (has_expect (hT _)).bind fun t => (identifier_has hT.unbraced.exprs).bind fun name =>
    (extendsClause_has hT).bind fun parent c => ?_
  exact has_note_bind (k := c.current.kind) rfl rfl (Has.at ((has_expect (hT _)).bind fun _ =>
    (members_has hT hc table).bind fun members => (closeBody_has hT hc).bind fun _ =>
    has_pure _)) c rfl

omit hc in
theorem skipClass_has : T.Has skipClass := by
  refine has_recursive (guarded_recursive fun _ _ _ => World.skipClassRound_lockstep)
    fun again ha => has_kind fun k => ?_
  split
  · exact (has_pure _).at
  · exact (hasAt_skip (hT k)).bind fun _ => ha

/-- **The classes of a program have every trait** that is kept in recovery. -/
theorem classes_has (table : StmtTable) : T.Has (classes table) :=
  has_collect (left_classTurn_lt_of_stop table) fun c _ =>
    has_recovering hc (classDecl_has hT hc table)
      (fun start => (forceStep_has hT start).bind fun _ => skipClass_has hT) c

end Catching
end All

end Trait
end BantamJava
