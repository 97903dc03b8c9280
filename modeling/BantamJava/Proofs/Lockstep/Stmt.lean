/-
# Statements in lockstep

The parsers of statements keep two runs in lockstep, recovery included. What
recovery skips depends on how many tokens a statement had consumed when it
failed; both runs agree on that up to the offset of the world. Where the first
run's input ends and the second run is at a `class`, blocks and recovery stop
in both.

A table of statements may give the end token a form of its own. That is
harmless in a faithful world, where the two runs always see the same token;
elsewhere the table must leave the end token and `class` alone.

Key definitions: `World.Resumes`, `World.Allows`.
Key theorems: `World.recovering_lockstep`, `World.collect_lockstep`,
`World.resumeStmtWith_lockstep`, `World.stmt_lockstep`.
-/
import BantamJava.Proofs.Lockstep.Expr

namespace BantamJava
namespace World

open BantamJava.Parser

variable {α : Type} {W : World} {n : Nat}

/-! ### Loops with recovery -/

/-- Where a parser consumed nothing, both runs are where they started. -/
theorem unmoved {p q : Parser α} {c d : Cursor} (hcd : W.near c d)
    (h : W.near (p c).cursor (q d).cursor) (hn : (p c).cursor.consumed = c.consumed) :
    (p c).cursor = c ∧ (q d).cursor = d := by
  refine ⟨(p.reaches c).eq_of_consumed_eq hn, (q.reaches d).eq_of_consumed_eq ?_⟩
  rw [W.consumed_eq h, hn, W.consumed_eq hcd]

/-- A parser with its recovery. Recovery may count on `P` where the parser
consumed nothing. -/
theorem recovering_lockstep {P : Cursor → Cursor → Prop} {p p' : Parser α}
    {recover recover' : Nat → Parser Unit} (hp : W.LockstepIf n P p p')
    (hr : ∀ start, W.LockstepIf n (fun c d => c.consumed = start → P c d) (recover start)
      (recover' (start + W.offset))) :
    W.LockstepIf n P (recovering p recover) (recovering p' recover') := by
  refine lockstep_consumed fun start => Lockstep.catch (hp.weaken fun _ _ _ h => h.2)
    (fun a => lockstep_pure _) ?_
  rintro c d e e' hcd hn ⟨rfl, hP⟩ hb hnear
  have hl : (p c).cursor.left < n := Nat.lt_of_le_of_lt (p.left_le c) hn
  refine Matches.bind (lockstep_report _ _ hnear hl hb) fun _ _ => ?_
  refine (hr c.consumed).bind (fun _ => lockstep_pure _) _ _ hnear hl fun hc => ?_
  obtain ⟨h1, h2⟩ := unmoved hcd hnear hc
  rwa [h1, h2]

/-- A turn of a loop that stops at an end token if and only if it stops at a
`class`, or whose two runs always see the same token. -/
theorem collectRound_lockstep {stop : Kind → Bool}
    (hstop : W.Faithful ∨ stop .classWord = stop .endOfInput) {p p' : Parser (Option α)}
    (hp : W.LockstepIf (n + 1) (fun c _ => stop c.current.kind = false) p p')
    (hlt : ∀ c, stop c.current.kind = false → (p c).cursor.left < c.left)
    {again again' : Parser (List α)} (ha : W.Lockstep n again again') :
    W.Lockstep (n + 1) (collectRound stop p again) (collectRound stop p' again') := by
  refine lockstep_kind_or (hstop.imp_right fun h => by rw [h]) fun k => ?_
  cases hk : stop k with
  | true => exact (lockstep_pure _).when
  | false =>
    refine (hp.weaken ?_).step (fun c _ _ h _ _ => hlt c (h ▸ hk))
      fun found => ha.bind fun others => lockstep_pure _
    intro c d _ h
    rw [← hk, ← h]

theorem collect_lockstep {stop : Kind → Bool}
    (hstop : W.Faithful ∨ stop .classWord = stop .endOfInput) {p p' : Parser (Option α)}
    (hp : W.LockstepIf n (fun c _ => stop c.current.kind = false) p p')
    (hlt : ∀ c, stop c.current.kind = false → (p c).cursor.left < c.left) :
    W.Lockstep n (collect stop p) (collect stop p') :=
  lockstep_recursive_any fun _ _ _ hm => collectRound_lockstep hstop (hp.mono hm) hlt

theorem closeBody_lockstep : W.Lockstep n closeBody closeBody := by
  refine Lockstep.catch (lockstep_expect (by decide) (by decide)) (fun _ => lockstep_pure _) ?_
  intro c d e e' _ hn _ hb hnear
  exact lockstep_report _ _ hnear (Nat.lt_of_le_of_lt (Parser.left_le _ c) hn) hb

/-! ### Recovery -/

theorem skipStmtRound_lockstep {again again' : Parser Unit} (ha : W.Lockstep n again again') :
    W.Lockstep (n + 1) (skipStmtRound again) (skipStmtRound again') := by
  refine lockstep_kind rfl fun k => ?_
  by_cases hend : k = .endOfInput
  · simp only [if_pos hend]
    exact (lockstep_pure _).when
  · simp only [if_neg hend]
    split
    · exact lockstep_skip.weaken (together_of_at hend)
    · split
      · exact (lockstep_pure _).when
      · exact lockstep_skip_bind hend ha

theorem skipStmt_lockstep : W.Lockstep n skipStmt skipStmt :=
  lockstep_recursive_any fun _ _ _ _ => skipStmtRound_lockstep

theorem forceStep_lockstep (start : Nat) :
    W.LockstepIf n (fun c d => c.consumed = start → Together c d) (forceStep start)
      (forceStep (start + W.offset)) := by
  refine lockstep_consumed fun m => ?_
  by_cases hm : m = start
  · simp only [hm, if_true]
    exact (lockstep_advance.weaken fun _ _ _ h => h.2 h.1).bind fun t => lockstep_pure _
  · have : m + W.offset ≠ start + W.offset := fun h => hm (Nat.add_right_cancel h)
    simp only [if_neg hm, if_neg this]
    exact (lockstep_pure _).when

theorem leaveStmt_lockstep (start : Nat) :
    W.LockstepIf n (fun c d => c.consumed = start → Together c d) (leaveStmt start)
      (leaveStmt (start + W.offset)) := by
  refine (forceStep_lockstep start).bind fun ended => ?_
  cases ended with
  | true => exact lockstep_pure _
  | false => exact skipStmt_lockstep

/-- The second run's recovery starts from the same point, and if the statement
had consumed nothing then the two runs are at the same token. -/
def Resumes (W : World) (start start' : Nat) (c d : Cursor) : Prop :=
  start' = start + W.offset ∧ (c.consumed = start → Together c d)

theorem endsBody_eq {c d : Cursor} (h : W.near c d) :
    endsBody d.current.kind = endsBody c.current.kind := by
  rcases W.current_or h with he | ⟨hc, hd⟩
  · rw [he]
  · rw [hc, hd]
    rfl

theorem together_of_endsBody {c d : Cursor} (h : W.near c d)
    (he : endsBody c.current.kind = false) : Together c d :=
  together_of_ne h (ne_endOfInput_of_endsBody he)

section Forms

variable {sub sub' : Parser Stmt}

theorem skipElse_lockstep (hs : W.Lockstep n sub sub') {again again' : Nat → Parser Unit}
    (ha : ∀ start start', W.LockstepIf n (W.Resumes start start') (again start) (again' start')) :
    W.Lockstep (n + 1) (skipElse sub again) (skipElse sub' again') := by
  refine lockstep_kind rfl fun k => ?_
  by_cases hk : k = .elseWord
  · subst hk
    refine lockstep_note_bind rfl rfl (lockstep_skip_bind (by decide) ?_)
    refine lockstep_consumed fun start => Lockstep.catch hs.when (fun _ => lockstep_pure _) ?_
    rintro c d e e' hcd hn - hb hnear
    have hl : (sub c).cursor.left < n := Nat.lt_of_le_of_lt (sub.left_le c) hn
    refine Matches.bind (lockstep_report _ _ hnear hl hb) fun _ _ => ?_
    show W.Matches (sub c).cursor ((_ : Parser Unit) (sub c).cursor)
      ((_ : Parser Unit) (sub' d).cursor)
    rw [run_kind_bind, run_consumed_bind, run_kind_bind, run_consumed_bind,
      W.consumed_eq hnear, endsBody_eq hnear]
    have hiff : (sub c).cursor.consumed + W.offset ≠ start + W.offset ↔
        (sub c).cursor.consumed ≠ start := by omega
    simp only [hiff]
    split
    · next hgo =>
      refine ha _ _ _ _ hnear hl ⟨rfl, fun hc => ?_⟩
      exact together_of_endsBody hnear (hgo.resolve_left (not_not_intro hc))
    · exact lockstep_pure _ _ _ hnear hl trivial
  · simp only [if_neg hk]
    exact (lockstep_pure _).when

theorem resumeRound_lockstep (hs : W.Lockstep n sub sub') {again again' : Nat → Parser Unit}
    (ha : ∀ start start', W.LockstepIf n (W.Resumes start start') (again start) (again' start'))
    (start start' : Nat) :
    W.LockstepIf (n + 1) (W.Resumes start start') (resumeRound sub again start)
      (resumeRound sub' again' start') := by
  rintro c d hcd hn ⟨rfl, hc⟩
  exact (leaveStmt_lockstep start).bind (fun _ => skipElse_lockstep hs ha) c d hcd hn hc

theorem resumeStmtWith_lockstep (hs : W.Lockstep n sub sub') (start start' : Nat) :
    W.LockstepIf (n + 1) (W.Resumes start start') (resumeStmtWith sub start)
      (resumeStmtWith sub' start') :=
  lockstep_fix (J := W.Resumes) (Q := fun _ => True) trivial (fun _ _ => trivial)
    (fun _ _ _ hm _ ha => resumeRound_lockstep (LockstepIf.mono hs (Nat.le_of_succ_le_succ hm)) ha)
    start start'

/-! ### Forms -/

theorem stmtTurn_lockstep (hs : W.Lockstep n sub sub') :
    W.LockstepIf n (fun c _ => endsBody c.current.kind = false)
      (recovering sub (resumeStmtWith sub)) (recovering sub' (resumeStmtWith sub')) := by
  refine recovering_lockstep hs.when fun start => ?_
  refine ((resumeStmtWith_lockstep hs start _).mono (Nat.le_succ n)).weaken fun c d hcd h => ?_
  exact ⟨rfl, fun hc => together_of_endsBody hcd (h hc)⟩

theorem stmtsWith_lockstep (hs : W.Lockstep n sub sub') (hsub : Consuming sub) :
    W.Lockstep n (stmtsWith sub) (stmtsWith sub') :=
  collect_lockstep (.inr rfl) (stmtTurn_lockstep hs) fun _ => left_stmtTurn_lt hsub

theorem blockWith_lockstep (hs : W.Lockstep n sub sub') (hsub : Consuming sub) :
    W.Lockstep (n + 1) (blockWith sub) (blockWith sub') :=
  (lockstep_expect (by decide) (by decide)).step (consuming_expect (by decide)) fun _ =>
    (stmtsWith_lockstep hs hsub).bind fun _ => closeBody_lockstep.bind fun _ => lockstep_pure _

theorem expressionStmt_lockstep : W.Lockstep n expressionStmt expressionStmt := by
  refine lockstep_current (fun t => Lockstep.when ?_) fun _ _ _ _ =>
    expr_lockstep.dead expr_consuming
  exact expr_lockstep.bind fun e =>
    (lockstep_expectElse (by decide) (by decide) spelling_unexpected).bind fun _ => lockstep_pure _

theorem condition_lockstep : W.Lockstep n condition condition :=
  (lockstep_expect (by decide) (by decide)).bind fun _ => expr_lockstep.bind fun e =>
    (lockstep_expect (by decide) (by decide)).bind fun _ => lockstep_pure _

theorem conditionalStmt_lockstep (hs : W.Lockstep n sub sub') :
    W.LockstepIf (n + 1) Together (conditionalStmt sub) (conditionalStmt sub') := by
  refine lockstep_advance.bind fun t => condition_lockstep.step condition_consuming fun test =>
    hs.bind fun thenBranch => lockstep_kind rfl fun k => ?_
  by_cases hk : k = .elseWord
  · subst hk
    exact lockstep_skip_then (by decide) (hs.bind fun elseBranch => lockstep_pure _)
  · simp only [if_neg hk]
    exact (lockstep_pure _).when

theorem whileStmt_lockstep (hs : W.Lockstep n sub sub') :
    W.LockstepIf (n + 1) Together (whileStmt sub) (whileStmt sub') :=
  lockstep_advance.bind fun _ => condition_lockstep.step condition_consuming fun _ =>
    hs.bind fun _ => lockstep_pure _

theorem exprUnless_lockstep {k : Kind} (he : k ≠ .endOfInput) (hc : k ≠ .classWord) :
    W.Lockstep n (exprUnless k) (exprUnless k) := by
  refine lockstep_kind (by rw [if_neg he.symm, if_neg hc.symm]) fun k' => ?_
  split
  · exact (lockstep_pure _).when
  · exact Lockstep.when (expr_lockstep.bind fun e => lockstep_pure _)

theorem forStmt_lockstep (hs : W.Lockstep n sub sub') :
    W.LockstepIf (n + 1) Together (forStmt sub) (forStmt sub') := by
  refine lockstep_advance.bind fun t =>
    (lockstep_expect (by decide) (by decide)).step (consuming_expect (by decide)) fun _ => ?_
  exact (exprUnless_lockstep (by decide) (by decide)).bind fun init =>
    (lockstep_expect (by decide) (by decide)).bind fun _ =>
    (exprUnless_lockstep (by decide) (by decide)).bind fun test =>
    (lockstep_expect (by decide) (by decide)).bind fun _ =>
    (exprUnless_lockstep (by decide) (by decide)).bind fun update =>
    (lockstep_expect (by decide) (by decide)).bind fun _ =>
    hs.bind fun body => lockstep_pure _

theorem breakStmt_lockstep : W.LockstepIf n Together breakStmt breakStmt :=
  lockstep_advance.bind fun t =>
    (lockstep_expect (by decide) (by decide)).bind fun _ => lockstep_pure _

theorem returnStmt_lockstep : W.LockstepIf n Together returnStmt returnStmt :=
  lockstep_advance.bind fun t => (exprUnless_lockstep (by decide) (by decide)).bind fun value =>
    (lockstep_expect (by decide) (by decide)).bind fun _ => lockstep_pure _

theorem declarationStmt_lockstep : W.LockstepIf n Together declarationStmt declarationStmt :=
  lockstep_advance.bind fun t => identifier_lockstep.bind fun name =>
    (lockstep_expectElse (by decide) (by decide) (spelling_missingInitializer name)).bind fun _ =>
    expr_lockstep.bind fun init =>
    (lockstep_expect (by decide) (by decide)).bind fun _ => lockstep_pure _

theorem formWith_lockstep (hs : W.Lockstep n sub sub') (hsub : Consuming sub) (form : StmtForm) :
    W.LockstepIf (n + 1) Together (formWith sub form) (formWith sub' form) := by
  cases form with
  | expression => exact expressionStmt_lockstep.when
  | block =>
    exact Lockstep.when ((blockWith_lockstep hs hsub).bind fun b => lockstep_pure _)
  | conditional => exact conditionalStmt_lockstep hs
  | whileLoop => exact whileStmt_lockstep hs
  | forLoop => exact forStmt_lockstep hs
  | breakLoop => exact breakStmt_lockstep
  | returnValue => exact returnStmt_lockstep
  | declaration => exact declarationStmt_lockstep

/-- The table can be used in the world. -/
def Allows (W : World) (table : StmtTable) : Prop :=
  W.Faithful ∨ (table .endOfInput = none ∧ table .classWord = none)

theorem stmtWith_lockstep (hs : W.Lockstep n sub sub') (hsub : Consuming sub) {table : StmtTable}
    (ht : W.Allows table) : W.Lockstep (n + 1) (stmtWith sub table) (stmtWith sub' table) := by
  intro c d hcd hn _
  simp only [stmtWith, run_kind_bind]
  have htogether : Together c d → W.Matches c (formWith sub (table.form c.current.kind) c)
      (formWith sub' (table.form d.current.kind) d) := by
    intro h
    rw [h]
    exact formWith_lockstep hs hsub _ c d hcd hn h
  rcases W.current_or hcd with h | ⟨hc, hd⟩
  · exact htogether h
  · rcases ht with hf | ⟨hnone, hnone'⟩
    · exact htogether (hf c d hcd)
    · rw [hc, hd, StmtTable.form, StmtTable.form, hnone, hnone']
      exact expressionStmt_lockstep c d hcd hn trivial

end Forms

/-- **Statements keep lockstep.** -/
theorem stmt_lockstep {table : StmtTable} (ht : W.Allows table) :
    W.Lockstep n (stmt table) (stmt table) :=
  lockstep_recursive (Q := Consuming) (fun c => consumesAt_failHere _ c)
    (fun sub => stmtWith_consuming sub table)
    fun _ _ _ _ hsub hs => stmtWith_lockstep hs hsub ht

theorem block_lockstep {table : StmtTable} (ht : W.Allows table) :
    W.Lockstep n (block table) (block table) :=
  LockstepIf.mono (blockWith_lockstep (stmt_lockstep ht) (stmt_consuming table)) (Nat.le_succ n)

end World
end BantamJava
