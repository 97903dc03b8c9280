/-
# The else of an if that was dropped

Let the innermost statement of nested `if`s be malformed: `if (a) if (b) ) ;`. The failure
takes all the `if`s with it, and recovery finds the `else` branches of those behind the `;`.
It skips one of them with its statement, for no further diagnostic, and then the block goes
on. With at most one `else` that is the first token behind the dropped text.

A second `else` is not skipped. The next turn of the loop starts at it, and since no
statement starts with `else`, it is reported too.

The `if`s fail as the statement inside does, with nothing reported on the way
(`stmt_fails_in_ifs`). Recovery leads behind the `;` and over one `else`
(`resumeStmt_skips_else`). As for simple statements, faulty lexemes in between are passed
and reported, and change nothing else.

Key definitions: `IfHead`, `ElseBranch`, `Fails`.
Key theorems: `stmt_fails_in_ifs`, `resumeStmt_skips_else`, `expr_refuses`,
`stmts_pass_failed_if`.
-/
import BantamJava.Proofs.SimpleStmtRecovery

namespace BantamJava

open BantamJava.Parser

/-! ### The parts of nested ifs -/

/-- An `if` with its condition. -/
inductive IfHead : List Token → Prop where
  | mk {w : List Token} {test : Expr} {t o c : Token} :
      t.kind = .ifWord → o.kind = .openParen → Expression w test → c.kind = .closeParen →
      IfHead (t :: o :: (w ++ [c]))

/-- An `else` with a statement that takes no `else` itself. -/
inductive ElseBranch : List Token → Prop where
  | mk {w : List Token} {st : Stmt} {l : Token} :
      l.kind = .elseWord → StmtPhrase w st → st.takesElse = false → ElseBranch (l :: w)

/-! ### Runs that fail -/

/-- From this cursor the parser fails with `f`, having consumed the tokens `w` and reported
nothing. -/
structure Fails {α : Type} (p : Parser α) (c : Cursor) (f : Fault) (w : List Token) : Prop where
  outcome : (p c).outcome = .error f
  consumed : consumedIn (p c).events = w
  faults : faultsIn (p c).events = []

namespace Fails

variable {α β : Type} {p : Parser α} {q : α → Parser β} {c : Cursor} {f : Fault} {a : α}
  {w w' x : List Token} {fs : List Fault}

theorem congr {p' : Parser α} (h : Fails p' c f w) (hp : p c = p' c) : Fails p c f w :=
  ⟨hp ▸ h.outcome, hp ▸ h.consumed, hp ▸ h.faults⟩

/-- What would follow makes no difference. -/
theorem before (h : Fails p c f w) (q : α → Parser β) : Fails (p >>= q) c f w := by
  have hrun := run_bind_error q h.outcome
  exact ⟨by rw [hrun], by rw [hrun, h.consumed], by rw [hrun, h.faults]⟩

theorem behind (hp : Yields p c a w []) (h : Fails (q a) (p c).cursor f w') :
    Fails (p >>= q) c f (w ++ w') := by
  have hrun := run_bind_ok q hp.outcome
  refine ⟨?_, ?_, ?_⟩
  · rw [hrun, h.outcome]
  · rw [hrun, consumedIn_append, hp.consumed, h.consumed]
  · rw [hrun, faultsIn_append, hp.faults, h.faults]
    rfl

/-- A turn that fails gives nothing, and reports the fault before it recovers. -/
theorem recovering_yields {recover : Nat → Parser Unit} (h : Fails p c f w)
    (hrecover : Yields (recover c.consumed) (p c).cursor () w' fs) :
    Yields (recovering p recover) c none (w ++ w') (f :: fs) := by
  have hafter := hrecover.map fun _ => (none : Option α)
  have hrun : recovering p recover c = _ := run_recovering_error h.outcome
  refine ⟨?_, ?_, ?_⟩
  · rw [hrun, hafter.outcome]
  · rw [hrun, consumedIn_append, consumedIn_cons, h.consumed, hafter.consumed]
    rfl
  · rw [hrun, faultsIn_append, faultsIn_cons, h.faults, hafter.faults]
    rfl

end Fails

variable {c : Cursor} {s : Token} {g u rest : List Token} {heads elses : List (List Token)}

/-- In front of a `;`, what is no expression is no statement. -/
theorem no_stmt_of_no_expression (hg : ∀ t ∈ g, t.kind ∉ boundaryKinds)
    (hno : ∀ e, ¬Expression g e) (hs : s.kind = .semicolon) (st : Stmt) :
    ¬StmtPhrase (g ++ [s]) st := by
  have hform : ∀ k : Kind, k ∉ boundaryKinds ∨ k = .semicolon →
      StmtTable.standard.form k = .expression := by
    intro k hk
    revert hk
    cases k <;> decide
  have hsplit : ∀ {t v}, g ++ [s] = t :: v → (StmtTable.standard.form t.kind).Phrase (t :: v) st →
      False := by
    intro t v heq hphrase
    have ht : t.kind ∉ boundaryKinds ∨ t.kind = .semicolon := by
      rcases List.mem_append.1 (heq ▸ List.mem_cons_self : t ∈ g ++ [s]) with ht | ht
      · exact .inl (hg t ht)
      · exact .inr (List.mem_singleton.1 ht ▸ hs)
    rw [hform _ ht] at hphrase
    obtain ⟨_, _, -, x, y, e, hxy, hx, s', z, rfl, -, rfl, -⟩ := hphrase
    obtain ⟨rfl, -⟩ := List.append_inj' (heq.trans hxy) rfl
    exact hno e hx
  intro h
  cases hw : g ++ [s] with
  | nil => simp at hw
  | cons t v =>
    rw [hw] at h
    exact hsplit hw h.phrase

/-! ### Nested ifs fail as one -/

theorem condition_yields {w x : List Token} {test : Expr} {o e : Token}
    (ho : o.kind = .openParen) (hw : Expression w test) (he : e.kind = .closeParen)
    (hc : c.Ahead (o :: (w ++ [e]) ++ x)) : Yields condition c test (o :: (w ++ [e])) [] := by
  have hread : ReadsAt Condition (fun _ _ => True) c (condition c) :=
    condition_reads c hc.pending (Nat.lt_succ_self _) trivial
  have hphrase : Condition (o :: (w ++ [e])) test :=
    ⟨o, _, rfl, ho, w, [e], test, rfl, hw, e, [], rfl, he, rfl, rfl⟩
  obtain ⟨hok, hconsumed, hfaults⟩ := hread.complete hphrase trivial hc.upcoming
  exact ⟨hok, hconsumed, hfaults⟩

/-- The form of a statement is that of its first token. -/
theorem run_stmt_of_kind {k : Kind} (h : c.current.kind = k) :
    stmt .standard c = formWith (stmt .standard) (StmtTable.standard.form k) c := by
  have hrun := congrArg (fun p => p.run c) (stmt_eq .standard)
  rw [← h]
  exact hrun.trans (run_kind_bind _ c)

/-- An `if` fails as its first branch does. -/
theorem stmt_fails_in_if {P : List Token → Prop} {h x : List Token} (hh : IfHead h)
    (hc : c.Ahead (h ++ x))
    (hx : ∀ d : Cursor, d.Ahead x → ∃ f w, P w ∧ Fails (stmt .standard) d f w) :
    ∃ f w, P w ∧ Fails (stmt .standard) c f (h ++ w) := by
  cases hh with
  | @mk v test t o e ht ho hv he =>
    have hword := advance_yields hc
    have htest := condition_yields ho hv he (hword.ahead hc)
    obtain ⟨f, w, hw, hfails⟩ := hx _ (htest.ahead (hword.ahead hc))
    refine ⟨f, w, hw, ?_⟩
    have hinside : Fails (conditionalStmt (stmt .standard)) c f ([t] ++ (o :: (v ++ [e]) ++ w)) :=
      .behind hword (.behind htest (hfails.before _))
    have hkind : c.current.kind = .ifWord := hc.current.1 ▸ ht
    exact hinside.congr (run_stmt_of_kind hkind)

theorem SimpleTokens.of_tokens (hg : ∀ t ∈ g, t.kind ∉ boundaryKinds) : SimpleTokens g :=
  @SimpleTokens.of_word none g nofun hg

/-- What is no statement fails in front of its `;`. -/
theorem stmt_fails (hg : ∀ t ∈ g, t.kind ∉ boundaryKinds) (hno : ∀ e, ¬Expression g e)
    (hs : s.kind = .semicolon) (hc : c.Ahead (g ++ s :: rest)) :
    ∃ f v, v <+: g ∧ Fails (stmt .standard) c f v := by
  have hv : SimpleTokens g := .of_tokens hg
  obtain ⟨f, herror, -⟩ := stmt_of_no_phrase (no_stmt_of_no_expression hg hno hs) hv hs hc
  have hfin := simpleStmt_finishes (hv.current hs hc).2 g [s] rest (hv.facing hs hc)
  obtain ⟨hpre, hnone⟩ := hfin.failed f herror
  exact ⟨f, _, hpre, herror, rfl, hnone⟩

/-- **A statement that fails takes the ifs around it with it**, and nothing is reported on
the way. -/
theorem stmt_fails_in_ifs (hheads : ∀ h ∈ heads, IfHead h) (hg : ∀ t ∈ g, t.kind ∉ boundaryKinds)
    (hno : ∀ e, ¬Expression g e) (hs : s.kind = .semicolon)
    (hc : c.Ahead (heads.flatten ++ (g ++ s :: rest))) :
    ∃ f v, v <+: g ∧ Fails (stmt .standard) c f (heads.flatten ++ v) := by
  induction heads generalizing c with
  | nil => exact stmt_fails hg hno hs hc
  | cons h heads ih =>
    have hc' : c.Ahead (h ++ (heads.flatten ++ (g ++ s :: rest))) := by
      rwa [List.flatten_cons, List.append_assoc] at hc
    obtain ⟨f, _, ⟨v, hv, rfl⟩, hfails⟩ := stmt_fails_in_if
      (P := fun w => ∃ v, v <+: g ∧ w = heads.flatten ++ v) (hheads h List.mem_cons_self) hc'
      fun d hd => by
        obtain ⟨f, v, hv, hd⟩ := ih (fun h hh => hheads h (List.mem_cons_of_mem _ hh)) hd
        exact ⟨f, _, ⟨v, hv, rfl⟩, hd⟩
    refine ⟨f, v, hv, ?_⟩
    rwa [List.flatten_cons, List.append_assoc]

/-! ### One else is skipped -/

section SkipElse

variable {sub : Parser Stmt} {again : Nat → Parser Unit}

/-- At an `else`, its statement is run behind it. -/
theorem run_skipElse (h : c.current.kind = .elseWord) :
    skipElse sub again c =
      let d := c.advance.1
      let after := (match (sub d).outcome with
        | .ok _ => pure ()
        | .error f => do
          report f
          let k ← kind
          if (← consumed) ≠ d.consumed ∨ endsBody k = false then again d.consumed :
        Parser Unit) (sub d).cursor
      ⟨after.outcome, after.cursor,
        .skippingElse :: (c.advance.2 ++ ((sub d).events ++ after.events))⟩ := by
  rw [skipElse, run_kind_bind, if_pos h, run_bind_ok (p := note .skippingElse) (a := ()) _ rfl,
    run_bind_ok (p := skip) (a := ()) _ rfl, run_consumed_bind,
    run_bind_ok (p := attempt sub) _ rfl]
  simp only [attempt, note, run_skip]
  rfl

theorem skipElse_of_ok {st : Stmt} (h : c.current.kind = .elseWord)
    (hok : (sub c.advance.1).outcome = .ok st) :
    skipElse sub again c = ⟨.ok (), (sub c.advance.1).cursor,
      .skippingElse :: (c.advance.2 ++ (sub c.advance.1).events)⟩ := by
  simp only [run_skipElse h, hok, run_pure, List.append_nil]

end SkipElse

/-- An `else` is skipped with its statement. -/
theorem skipElse_yields {b x : List Token} (hb : ElseBranch b) (hc : c.Ahead (b ++ x)) :
    Yields (skipElse (stmt .standard) (resumeStmt .standard)) c () b [] := by
  cases hb with
  | @mk w st l hl hw hclosed =>
    have hkind : c.current.kind = .elseWord := hc.current.1 ▸ hl
    have hword := advance_yields hc
    have hbehind : c.advance.1.Ahead (w ++ x) := hword.ahead hc
    have hfollow : MayFollow st x.head? := fun _ _ _ => hclosed
    obtain ⟨hok, hconsumed, hnone⟩ := hbehind.reads_stmt.complete hw hfollow hbehind.upcoming
    have hrun : skipElse (stmt .standard) (resumeStmt .standard) c = _ := skipElse_of_ok hkind hok
    have hevents : consumedIn c.advance.2 = [l] ∧ faultsIn c.advance.2 = [] :=
      ⟨hword.consumed, hword.faults⟩
    refine ⟨by rw [hrun], ?_, ?_⟩
    · rw [hrun, consumedIn_cons, consumedIn_append, hevents.1, hconsumed]
      rfl
    · rw [hrun, faultsIn_cons, faultsIn_append, hevents.2, hnone]
      rfl

/-- **Recovery leads behind the `;` and over one `else`**, whatever comes then. -/
theorem resumeStmt_skips_else {start : Nat} (hu : ∀ t ∈ u, t.kind ∉ boundaryKinds)
    (hs : s.kind = .semicolon) (helses : ∀ b ∈ elses, ElseBranch b)
    (hrest : ∀ t ∈ rest.head?, t.kind ≠ .elseWord)
    (hc : c.Ahead (u ++ s :: (elses.flatten ++ rest))) :
    Yields (resumeStmt .standard start) c () (u ++ s :: (elses.take 1).flatten) [] := by
  have hleave : Yields (leaveStmt start) c () (u ++ [s]) [] :=
    leaveStmt_yields (.of_tokens hu) (fun _ => hu) hs hc
  have hc' : c.Ahead (u ++ [s] ++ (elses.flatten ++ rest)) := by simpa using hc
  have hround : resumeStmt .standard start c = (leaveStmt start >>= fun _ =>
      skipElse (stmt .standard) (resumeStmt .standard)) c :=
    congrArg (fun p => p.run c) (resumeStmt_eq .standard start)
  cases elses with
  | nil => exact resumeStmt_yields (.of_tokens hu) (fun _ => hu) hs hrest hc
  | cons b elses =>
    have hb : ElseBranch b := helses b List.mem_cons_self
    have hstep := hleave.bind (f := fun _ => skipElse _ _) hc' fun d hd =>
      skipElse_yields hb (x := elses.flatten ++ rest) (by simpa using hd)
    simpa using hstep.congr hround

/-- A turn of the loop over statements that starts with nested ifs. -/
theorem stmtTurn_skips_else (hheads : ∀ h ∈ heads, IfHead h)
    (hg : ∀ t ∈ g, t.kind ∉ boundaryKinds) (hno : ∀ e, ¬Expression g e) (hs : s.kind = .semicolon)
    (helses : ∀ b ∈ elses, ElseBranch b) (hrest : ∀ t ∈ rest.head?, t.kind ≠ .elseWord)
    (hc : c.Ahead (heads.flatten ++ (g ++ s :: (elses.flatten ++ rest)))) :
    ∃ f, Yields (recovering (stmt .standard) (resumeStmt .standard)) c none
      (heads.flatten ++ (g ++ s :: (elses.take 1).flatten)) [f] := by
  obtain ⟨f, v, ⟨u, rfl⟩, hfails⟩ := stmt_fails_in_ifs hheads hg hno hs hc
  have hu : ∀ t ∈ u, t.kind ∉ boundaryKinds := fun t ht => hg t (List.mem_append_right _ ht)
  have hbehind : (stmt .standard c).cursor.Ahead (u ++ s :: (elses.flatten ++ rest)) := by
    refine ((stmt .standard).reaches c).ahead ?_
    rw [hfails.consumed]
    simpa using hc
  refine ⟨f, ?_⟩
  have hturn := hfails.recovering_yields (resumeStmt_skips_else hu hs helses hrest hbehind)
  simpa using hturn

/-! ### The second else is not -/

section Refusing

/-- The parser takes nothing, because no expression starts here. -/
def Refuses {α : Type} (p : Parser α) (c : Cursor) : Prop :=
  p c = ⟨.error ⟨.unexpectedFor c.current.value "expected an expression", c.current.position⟩,
    c, []⟩

theorem Refuses.before {α β : Type} {p : Parser α} (h : Refuses p c) (q : α → Parser β) :
    Refuses (p >>= q) c := by
  have hrun := run_bind_error q (congrArg Reply.outcome h)
  rwa [h] at hrun

theorem primaryBase_refuses (h : c.current.kind ∉ exprKinds) : Refuses (primaryBase expr) c := by
  unfold Refuses
  rw [primaryBase, run_kind_bind]
  generalize hk : c.current.kind = k at h
  cases k <;> first | rfl | exact absurd h (by decide)

theorem signed_refuses (h : c.current.kind ∉ exprKinds) : Refuses (signed expr) c := by
  have hsign : signOp? c.current.kind = none := by
    revert h
    cases c.current.kind <;> decide
  have hstep : Refuses (postStep expr) c := ((primaryBase_refuses h).before _).before _
  unfold Refuses
  rw [(terminates .standard).ofSigned.unfolds, signRound, run_current_bind, hsign]
  exact hstep

theorem operand_refuses (h : c.current.kind ∉ exprKinds) : Refuses (operand expr) c := by
  have hother : operand expr c = signed expr c := by
    rw [operand, run_kind_bind]
    generalize c.current.kind = k at h
    cases k <;> first | rfl | exact absurd h (by decide)
  unfold Refuses
  rw [hother]
  exact signed_refuses h

/-- **No expression starts here**, and that is what is reported. -/
theorem expr_refuses (h : c.current.kind ∉ exprKinds) : Refuses expr c := by
  have hproduct : Refuses (multiplicative expr) c := (operand_refuses h).before _
  have hsum : Refuses (additive expr) c := hproduct.before _
  have hcomparison : Refuses (relational expr) c := hsum.before _
  have hequality : Refuses (equality expr) c := hcomparison.before _
  have hconjunction : Refuses (conjunction expr) c := hequality.before _
  have hdisjunction : Refuses (disjunction expr) c := hconjunction.before _
  unfold Refuses
  rw [expr_eq, exprWith, run_current_bind]
  exact hdisjunction.before _

/-- No statement starts with an `else`. -/
theorem stmt_refuses_else (h : c.current.kind = .elseWord) : Refuses (stmt .standard) c := by
  have hexpr : Refuses expr c := expr_refuses (by rw [h]; decide)
  unfold Refuses
  rw [run_stmt_of_kind h]
  show expressionStmt c = _
  rw [expressionStmt, run_current_bind]
  exact hexpr.before _

end Refusing

/-! ### The loop -/

/-- The loop does not end where nested ifs with a malformed statement start. -/
theorem endsBody_of_ifs (hheads : ∀ h ∈ heads, IfHead h) (hg : ∀ t ∈ g, t.kind ∉ boundaryKinds)
    (hs : s.kind = .semicolon) (hc : c.upcoming = heads.flatten ++ (g ++ s :: rest)) :
    endsBody c.current.kind = false := by
  cases heads with
  | nil =>
    have hahead : c.cleared.Ahead (g ++ s :: rest) :=
      ⟨c.upcoming_cleared.trans hc, c.pending_cleared⟩
    exact (SimpleTokens.current (.of_tokens hg) hs hahead).1
  | cons h heads =>
    cases hheads h List.mem_cons_self with
    | mk ht _ _ _ =>
      rw [(Cursor.current_of_upcoming hc).1, ht]
      rfl

/-- **Of the `else` branches of an `if` that is dropped, one is skipped with it.** Let there
be ahead any number of `if`s with their conditions, then tokens that are no boundaries and no
expression, a `;`, any number of `else` branches, and anything that does not start with an
`else`. The first turn of the loop over the statements of a block raises one fault, finds
nothing, consumes all up to the `;` and the first branch, and goes on behind it. So with at
most one branch the loop goes on with what follows. A second branch is not skipped: the next
statement is looked for at its `else`, where there is none, and that is another fault. -/
theorem stmts_pass_failed_if (c : Cursor) (heads elses : List (List Token))
    (g rest : List Token) (s : Token) (hheads : ∀ h ∈ heads, IfHead h)
    (hg : ∀ t ∈ g, t.kind ∉ boundaryKinds) (hno : ∀ e, ¬Expression g e)
    (hs : s.kind = .semicolon) (helses : ∀ b ∈ elses, ElseBranch b)
    (hrest : ∀ t ∈ rest.head?, t.kind ≠ .elseWord)
    (hc : c.upcoming = heads.flatten ++ (g ++ s :: (elses.flatten ++ rest))) :
    let w := heads.flatten ++ (g ++ s :: (elses.take 1).flatten)
    let turn := recovering (stmt .standard) (resumeStmt .standard) c
    let behind := c.after w.length
    let others := stmtsWith (stmt .standard) behind
    ∃ (stmts : List Stmt) (passed : List Fault) (f : Fault),
      turn.outcome = .ok none ∧ consumedIn turn.events = w ∧ turn.cursor = behind ∧
      behind.upcoming = (elses.drop 1).flatten ++ rest ∧ others.outcome = .ok stmts ∧
      stmtsWith (stmt .standard) c =
        ⟨.ok stmts, others.cursor, turn.events ++ others.events⟩ ∧
      c.pending = passed ++ behind.pending ∧ Interleaves passed [f] (faultsIn turn.events) ∧
      ∀ l b more, elses.drop 1 = (l :: b) :: more →
        stmt .standard behind =
          ⟨.error ⟨.unexpectedFor l.value "expected an expression", l.position⟩, behind, []⟩ := by
  intro w turn behind others
  have hahead : c.cleared.Ahead (heads.flatten ++ (g ++ s :: (elses.flatten ++ rest))) :=
    ⟨c.upcoming_cleared.trans hc, c.pending_cleared⟩
  obtain ⟨f, hyields⟩ := stmtTurn_skips_else hheads hg hno hs helses hrest hahead
  have hsplit : c.upcoming = w ++ ((elses.drop 1).flatten ++ rest) := by
    have helses : elses.flatten = (elses.take 1).flatten ++ (elses.drop 1).flatten := by
      rw [← List.flatten_append, List.take_append_drop]
    rw [hc, helses]
    simp [w]
  have hgo := endsBody_of_ifs hheads hg hs hc
  obtain ⟨stmts, passed, hok, hw, hbehind, hupcoming, hstmts, hrun, hpassed, hmixed⟩ :=
    stmts_pass hgo hyields hsplit
  refine ⟨stmts, passed, f, hok, hw, hbehind, hupcoming, hstmts, hrun, hpassed, hmixed, ?_⟩
  intro l b more hmore
  have hl : l.kind = .elseWord := by
    have hmem : l :: b ∈ elses := List.mem_of_mem_drop (hmore ▸ List.mem_cons_self)
    cases helses _ hmem with
    | mk hl _ _ => exact hl
  have hcurrent : behind.current = l := by
    rw [hmore] at hupcoming
    exact (Cursor.current_of_upcoming hupcoming).1
  have hrefuses : Refuses (stmt .standard) behind := stmt_refuses_else (hcurrent ▸ hl)
  rwa [Refuses, hcurrent] at hrefuses

/-- Two `if`s, each with an `else`: in `if (a) if (b) ) ; else c ; else { } return ;` the turn
takes all up to the second `else`, for one fault, and the second `else` is refused. -/
theorem stmts_pass_failed_if_twice :
    let token : Kind → Token := fun k => ⟨k, k.describe, ⟨1, 1⟩⟩
    let head := [Kind.ifWord, .openParen, .identifier, .closeParen].map token
    let heads := [head, head]
    let g := [token .closeParen]
    let elses := [[Kind.elseWord, .identifier, .semicolon].map token,
      [Kind.elseWord, .openCurly, .closeCurly].map token]
    let rest := [Kind.returnWord, .semicolon].map token
    let tokens := heads.flatten ++ (g ++ token .semicolon :: (elses.flatten ++ rest))
    let c : Cursor := ⟨token .ifWord, tokens.tail.map .token, ⟨.atEnd ⟨1, 1⟩, rfl⟩, 0⟩
    let turn := recovering (stmt .standard) (resumeStmt .standard) c
    (∀ h ∈ heads, IfHead h) ∧ (∀ e, ¬Expression g e) ∧ (∀ b ∈ elses, ElseBranch b) ∧
      turn.outcome = .ok none ∧ turn.cursor.upcoming = (elses.drop 1).flatten ++ rest ∧
      (∃ f, Interleaves [] [f] (faultsIn turn.events)) ∧
      (stmt .standard turn.cursor).outcome =
        .error ⟨.unexpectedFor "else" "expected an expression", ⟨1, 1⟩⟩ := by
  intro token head heads g elses rest tokens c turn
  have hname : ExprPhrase .base [token .identifier] (.var ⟨1, 1⟩ none "identifier") :=
    .name (t := token .identifier) rfl .nothing
  have hsum := ExprPhrase.sum (.first (.product (.first (.signed (.unsigned (.unstepped
    (.chain (.start hname))))))))
  have hexpr : Expression [token .identifier] (.var ⟨1, 1⟩ none "identifier") :=
    .plain (.disjunction (.first (.conjunction (.first (.equality (.one (.comparison
      (.one hsum))))))))
  have hheads : ∀ h ∈ heads, IfHead h := by
    intro h hh
    obtain rfl : h = head := by simpa [heads] using hh
    exact .mk (w := [token .identifier]) (t := token .ifWord) (o := token .openParen)
      (c := token .closeParen) rfl rfl hexpr rfl
  have hno : ∀ e, ¬Expression g e := fun e he => absurd he.starts.kind_mem (by decide)
  have helses : ∀ b ∈ elses, ElseBranch b := by
    intro b hb
    rcases List.mem_cons.1 hb with rfl | hb
    · exact .mk (l := token .elseWord) rfl
        (.evaluate (w := []) (s := token .semicolon) hexpr rfl) rfl
    · obtain rfl := List.mem_singleton.1 hb
      exact .mk (l := token .elseWord) rfl
        (.block (w := []) (o := token .openCurly) (c := token .closeCurly) rfl .nil rfl) rfl
  have hrest : ∀ t ∈ rest.head?, t.kind ≠ .elseWord := by decide
  obtain ⟨stmts, passed, f, hok, -, hbehind, hup, -, -, hpassed, hmixed, helse⟩ :=
    stmts_pass_failed_if c heads elses g rest (token .semicolon) hheads (by decide) hno rfl helses
      hrest rfl
  have hquiet : c.pending = [] := rfl
  obtain ⟨rfl, -⟩ := List.append_eq_nil_iff.1 (hpassed.symm.trans hquiet)
  refine ⟨hheads, hno, helses, hok, hbehind ▸ hup, ⟨f, hmixed⟩, ?_⟩
  rw [hbehind, helse (token .elseWord) _ [] rfl]
  rfl

/-- The second `else` is reported, and the block behind it is taken for a statement of its
own: both are left over from the two `if`s that were dropped. -/
theorem parse_second_else :
    let parsed := parse "class A{void f(){if(a)if(b));else c();else{}}}" "A"
    parsed.diagnostics.map (·.fault) =
      [⟨.unexpectedFor ")" "expected an expression", ⟨1, 28⟩⟩,
       ⟨.unexpectedFor "else" "expected an expression", ⟨1, 39⟩⟩] ∧
    parsed.program = ⟨[⟨"A", none, [.method ⟨"void", "f", [], ⟨[.block ⟨1, 43⟩ []], ⟨1, 17⟩⟩,
      ⟨1, 9⟩⟩], ⟨1, 1⟩⟩], ⟨1, 1⟩⟩ := by
  decide +kernel

end BantamJava
