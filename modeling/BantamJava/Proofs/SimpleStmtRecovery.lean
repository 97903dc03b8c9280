/-
# A malformed statement costs one diagnostic

Up to a `;`, let there be a word that starts a simple statement, or none, and then any
tokens at all at which recovery does not stop. The loop over the statements of a block
takes these tokens and the `;` in one turn. If they are a statement, the turn gives it and
raises nothing. If not, it gives nothing and raises one fault.

Such tokens are a segment like that of a field in a class, and a simple statement that fails
has raised nothing before and is still in front of the `;` (`simpleStmt_finishes`). Wherever
that is, recovery leads behind the `;`; a token that it takes unseen is the first one, which
may be the `;` itself (`resumeStmt_yields`). A parser that does not fail has read up to the
`;`, so that is a statement; and a statement is found where it stands.

All this is about tokens alone. Faulty lexemes among them are reported as they are passed,
and change nothing else (`World.cleared`).

Key definitions: `simpleWords`, `boundaryKinds`, `SimpleTokens`.
Key theorems: `simpleStmt_finishes`, `resumeStmt_yields`, `stmtTurn_yields`,
`stmts_pass`, `stmts_pass_simple`.
-/
import BantamJava.Proofs.MemberRecovery
import BantamJava.Proofs.Reading.Complete
import BantamJava.Proofs.Reading.Stmt

namespace BantamJava

open BantamJava.Parser

/-! ### The tokens of a simple statement -/

/-- The words that start a statement without another one inside. -/
def simpleWords : List Kind := [.varWord, .returnWord, .breakWord]

/-- The kinds of tokens that start a statement with others inside. -/
def compoundKinds : List Kind := [.ifWord, .whileWord, .forWord, .openCurly]

/-- The kinds of tokens behind which a statement ends, or in front of which recovery
stops. -/
def boundaryKinds : List Kind :=
  [.semicolon, .openCurly, .closeCurly, .classWord, .ifWord, .whileWord, .forWord, .varWord,
   .returnWord, .breakWord, .endOfInput]

/-- In front of a `;`: perhaps a word that starts a simple statement, and then anything
but a boundary. -/
structure SimpleTokens (v : List Token) : Prop where
  each : ∀ t ∈ v, t.kind ∈ simpleWords ∨ t.kind ∉ boundaryKinds
  tail : ∀ t ∈ v.tail, t.kind ∉ boundaryKinds

namespace SimpleTokens

variable {v u : List Token}

theorem of_word {word : Option Token} {g : List Token} (hword : ∀ t ∈ word, t.kind ∈ simpleWords)
    (hg : ∀ t ∈ g, t.kind ∉ boundaryKinds) : SimpleTokens (word.toList ++ g) := by
  cases word with
  | none => exact ⟨fun t ht => .inr (hg t ht), fun t ht => hg t (List.mem_of_mem_tail ht)⟩
  | some w =>
    refine ⟨fun t ht => ?_, hg⟩
    rcases List.mem_cons.1 ht with rfl | ht
    · exact .inl (hword t rfl)
    · exact .inr (hg t ht)

/-- Such a token neither ends a segment nor a body, and starts no statement with others
inside. -/
theorem kinds {k : Kind} (h : k ∈ simpleWords ∨ k ∉ boundaryKinds) :
    (k ≠ .semicolon ∧ Unbraced k) ∧ k ≠ .classWord ∧ k ∉ compoundKinds := by
  revert h
  cases k <;> decide

theorem facing (h : SimpleTokens v) {c : Cursor} {s : Token} {rest : List Token}
    (hs : s.kind = .semicolon) (hc : c.Ahead (v ++ s :: rest)) : c.Facing v [s] rest := by
  refine ⟨hc, fun t ht => (kinds (h.each t ht)).1, fun t ht => ?_, .inl (.semicolon hs)⟩
  rcases List.mem_append.1 ht with ht | ht
  · exact (kinds (h.each t ht)).2.1
  · rw [List.mem_singleton.1 ht, hs]
    decide

/-- Behind the first token there are no boundaries. -/
theorem suffix (h : SimpleTokens (v ++ u)) (hv : v ≠ []) : ∀ t ∈ u, t.kind ∉ boundaryKinds := by
  intro t ht
  obtain ⟨t', v, rfl⟩ := List.exists_cons_of_ne_nil hv
  exact h.tail t (List.mem_append_right v ht)

theorem append_right (h : SimpleTokens (v ++ u)) : SimpleTokens u := by
  refine ⟨fun t ht => h.each t (List.mem_append_right _ ht), fun t ht => ?_⟩
  by_cases hv : v = []
  · subst hv
    exact h.tail t ht
  · exact h.suffix hv t (List.mem_of_mem_tail ht)

end SimpleTokens

/-! ### Simple statements -/

/-- The forms of simple statements, with the words that start them. -/
theorem StmtTable.form_simple {k : Kind} (h : k ∉ compoundKinds) :
    standard.form k = .declaration ∧ k = .varWord ∨
    standard.form k = .returnValue ∧ k = .returnWord ∨
    standard.form k = .breakLoop ∧ k = .breakWord ∨ standard.form k = .expression := by
  revert h
  cases k <;> decide

section Finishing

variable {c : Cursor}

theorem expressionStmt_finishes (c : Cursor) : Finishes expressionStmt c := by
  have hT := Trait.heading_allows
  refine .bind (Trait.heading.holds_current c) fun t _ => ?_
  refine .bind (Trait.expr_has hT _) fun e _ => ?_
  exact (expectElse_semicolon_finishes _ _).map _

theorem breakStmt_finishes (hk : c.current.kind = .breakWord) : Finishes breakStmt c := by
  refine .bind (Trait.hasAt_advance (Trait.heading_takes (by decide)) c hk) fun t _ => ?_
  exact (expect_semicolon_finishes _).map _

theorem returnStmt_finishes (hk : c.current.kind = .returnWord) : Finishes returnStmt c := by
  have hT := Trait.heading_allows
  refine .bind (Trait.hasAt_advance (Trait.heading_takes (by decide)) c hk) fun t _ => ?_
  refine .bind (Trait.exprUnless_has hT _ _) fun value _ => ?_
  exact (expect_semicolon_finishes _).map _

theorem declarationStmt_finishes (hk : c.current.kind = .varWord) :
    Finishes declarationStmt c := by
  have hT := Trait.heading_allows
  refine .bind (Trait.hasAt_advance (Trait.heading_takes (by decide)) c hk) fun t _ => ?_
  refine .bind (Trait.identifier_has hT _) fun name _ => ?_
  have hspelling := World.spelling_missingInitializer name
  refine .bind (Trait.has_expectElse (hT _ rfl) hspelling _) fun _ _ => ?_
  refine .bind (Trait.expr_has hT _) fun init _ => ?_
  exact (expect_semicolon_finishes _).map _

/-- **A simple statement stops behind its `;`**, or fails in front of it. -/
theorem simpleStmt_finishes (h : c.current.kind ∉ compoundKinds) : Finishes (stmt .standard) c := by
  rw [stmt_eq]
  refine .bind (Trait.heading.holds_kind c) fun k hk => ?_
  obtain rfl : c.current.kind = k := Except.ok.inj hk
  rcases StmtTable.form_simple h with ⟨hform, hk⟩ | ⟨hform, hk⟩ | ⟨hform, hk⟩ | hform <;> rw [hform]
  · exact declarationStmt_finishes hk
  · exact returnStmt_finishes hk
  · exact breakStmt_finishes hk
  · exact expressionStmt_finishes c

/-- A simple statement raises no fault before it fails. -/
theorem simpleStmt_quiet (h : c.current.kind ∉ compoundKinds) :
    Trait.quiet.holds (stmt .standard) c := by
  have hT := Trait.quiet_allows.unbraced
  rw [stmt_eq]
  refine Trait.holds_kind_bind ?_
  rcases StmtTable.form_simple h with ⟨hform, hk⟩ | ⟨hform, hk⟩ | ⟨hform, hk⟩ | hform <;> rw [hform]
  · exact Trait.declarationStmt_has hT c hk
  · exact Trait.returnStmt_has hT c hk
  · exact Trait.breakStmt_has hT c hk
  · exact Trait.expressionStmt_has hT c

end Finishing

/-! ### Recovery -/

section Skipping

variable {c : Cursor} {start : Nat}

theorem run_skipStmt (c : Cursor) : skipStmt c = skipStmtRound skipStmt c :=
  congrArg (fun p => p.run c) (terminates .standard).ofSkipStmt.unfolds

theorem skipStmt_of_semicolon (h : c.current.kind = .semicolon) : skipStmt c = skip c := by
  rw [run_skipStmt, skipStmtRound, run_kind_bind, h]
  rfl

theorem skipStmt_of_other (h : c.current.kind ∉ boundaryKinds) :
    skipStmt c = (skip >>= fun _ => skipStmt) c := by
  have hkind : c.current.kind ≠ .endOfInput ∧ c.current.kind ≠ .semicolon ∧
      stopsRecovery c.current.kind = false := by
    revert h
    cases c.current.kind <;> decide
  obtain ⟨hend, hsemi, hstop⟩ := hkind
  rw [run_skipStmt, skipStmtRound, run_kind_bind, if_neg hend, if_neg hsemi, hstop]
  rfl

theorem leaveStmt_of_ne (h : c.consumed ≠ start) : leaveStmt start c = skipStmt c := by
  rw [leaveStmt, forceStep, bind_assoc, run_consumed_bind, if_neg h, pure_bind]
  rfl

theorem leaveStmt_of_eq (h : c.consumed = start) : leaveStmt start c =
    (advance >>= fun t => if t.kind == .semicolon then pure () else skipStmt) c := by
  rw [leaveStmt, forceStep, bind_assoc, run_consumed_bind, if_pos h, bind_assoc]
  simp only [pure_bind]

end Skipping

variable {c : Cursor} {s : Token} {v u rest : List Token}

/-- Recovery passes over all that is in front of the `;`, and over that. -/
theorem skipStmt_yields (hu : ∀ t ∈ u, t.kind ∉ boundaryKinds) (hs : s.kind = .semicolon)
    (hc : c.Ahead (u ++ s :: rest)) : Yields skipStmt c () (u ++ [s]) [] := by
  induction u generalizing c with
  | nil =>
    obtain ⟨rfl, -⟩ := hc.current
    exact (skip_yields hc).congr (skipStmt_of_semicolon hs)
  | cons t u ih =>
    obtain ⟨rfl, -⟩ := hc.current
    have hstep := (skip_yields hc).bind (f := fun _ => skipStmt) (x := u ++ s :: rest) hc
      fun d hd => ih (fun t ht => hu t (List.mem_cons_of_mem _ ht)) hd
    exact hstep.congr (skipStmt_of_other (hu _ List.mem_cons_self))

/-- The first token is left unseen if none has been consumed. -/
theorem leaveStmt_yields {start : Nat} (hu : SimpleTokens u)
    (hmoved : c.consumed ≠ start → ∀ t ∈ u, t.kind ∉ boundaryKinds) (hs : s.kind = .semicolon)
    (hc : c.Ahead (u ++ s :: rest)) : Yields (leaveStmt start) c () (u ++ [s]) [] := by
  by_cases hstart : c.consumed = start
  · refine Yields.congr ?_ (leaveStmt_of_eq hstart)
    cases u with
    | nil =>
      -- a lone `;`: its end is reached with it
      have hs' : (s.kind == .semicolon) = true := beq_iff_eq.2 hs
      refine (advance_yields hc).bind hc fun d _ => ?_
      rw [if_pos hs']
      exact .of_pure ()
    | cons t u =>
      have ht : (t.kind == .semicolon) = false :=
        beq_eq_false_iff_ne.2 (SimpleTokens.kinds (hu.each t List.mem_cons_self)).1.1
      refine (advance_yields hc).bind (x := u ++ s :: rest) hc fun d hd => ?_
      rw [if_neg (by rw [ht]; decide)]
      exact skipStmt_yields hu.tail hs hd
  · exact (skipStmt_yields (hmoved hstart) hs hc).congr (leaveStmt_of_ne hstart)

theorem Cursor.Ahead.ne_elseWord (hc : c.Ahead rest)
    (hrest : ∀ t ∈ rest.head?, t.kind ≠ .elseWord) : c.current.kind ≠ .elseWord := by
  intro he
  have hup := c.upcoming_of_ne (he ▸ nofun)
  refine hrest c.current ?_ he
  rw [← hc.upcoming, hup]
  rfl

/-- **Recovery leads behind the `;`**, if no `else` is there. -/
theorem resumeStmt_yields {start : Nat} (hu : SimpleTokens u)
    (hmoved : c.consumed ≠ start → ∀ t ∈ u, t.kind ∉ boundaryKinds) (hs : s.kind = .semicolon)
    (hrest : ∀ t ∈ rest.head?, t.kind ≠ .elseWord) (hc : c.Ahead (u ++ s :: rest)) :
    Yields (resumeStmt .standard start) c () (u ++ [s]) [] := by
  have hc' : c.Ahead (u ++ [s] ++ rest) := by simpa using hc
  have helse : ∀ d : Cursor, d.Ahead rest →
      Yields (skipElse (stmt .standard) (resumeStmt .standard)) d () [] [] := by
    intro d hd
    refine (Yields.of_pure ()).congr ?_
    rw [skipElse, run_kind_bind, if_neg (hd.ne_elseWord hrest)]
  have hstep := (leaveStmt_yields hu hmoved hs hc).bind (f := fun _ => skipElse _ _) hc' helse
  rw [List.append_nil] at hstep
  refine hstep.congr ?_
  rw [resumeStmt_eq]
  rfl

/-! ### Turns of the loop -/

theorem SimpleTokens.current (h : SimpleTokens v) (hs : s.kind = .semicolon)
    (hc : c.Ahead (v ++ s :: rest)) :
    endsBody c.current.kind = false ∧ c.current.kind ∉ compoundKinds := by
  cases v with
  | nil =>
    obtain ⟨rfl, -⟩ := hc.current
    rw [hs]
    decide
  | cons t v =>
    obtain ⟨rfl, hend⟩ := hc.current
    obtain ⟨⟨-, hbrace⟩, hclass, hcompound⟩ := kinds (h.each _ List.mem_cons_self)
    exact ⟨by simp [endsBody, hend, hclass, hbrace.2], hcompound⟩

/-- **A turn of the loop over the statements** ends behind the `;`, gives the statement if
there is one, and reports what is wrong otherwise. -/
theorem stmtTurn_yields (hv : SimpleTokens v) (hs : s.kind = .semicolon)
    (hrest : ∀ t ∈ rest.head?, t.kind ≠ .elseWord) (hc : c.Ahead (v ++ s :: rest)) :
    Yields (recovering (stmt .standard) (resumeStmt .standard)) c
      (stmt .standard c).outcome.toOption (v ++ [s]) (faultsIn (stmt .standard c).journal) := by
  have hface := hv.facing hs hc
  have hfin := simpleStmt_finishes (hv.current hs hc).2 v [s] rest hface
  refine recovering_yields hface hfin fun u hu hface' => ?_
  rw [hu] at hv
  refine resumeStmt_yields hv.append_right (fun hne => hv.suffix fun hnil => hne ?_) hs hrest
    hface'.ahead
  rw [((stmt .standard).reaches c).consumed_eq, hnil]
  rfl

theorem Cursor.Ahead.reads_stmt (hc : c.Ahead u) :
    ReadsAt StmtPhrase MayFollow c (stmt .standard c) :=
  stmt_reads c hc.pending (Nat.lt_succ_self _) trivial

/-- A statement is found where it stands. -/
theorem stmt_of_phrase {st : Stmt} (hst : StmtPhrase (v ++ [s]) st)
    (hrest : ∀ t ∈ rest.head?, t.kind ≠ .elseWord) (hc : c.Ahead (v ++ s :: rest)) :
    (stmt .standard c).outcome = .ok st ∧ faultsIn (stmt .standard c).journal = [] := by
  have hfollow : MayFollow st rest.head? := fun t ht he => absurd he (hrest t ht)
  obtain ⟨hok, -, hnone⟩ := hc.reads_stmt.complete hst hfollow (by simpa using hc.upcoming)
  exact ⟨hok, by rw [Reply.journal, hok, hnone]⟩

/-- What is no statement fails, for one fault. -/
theorem stmt_of_no_phrase (hno : ∀ st, ¬StmtPhrase (v ++ [s]) st) (hv : SimpleTokens v)
    (hs : s.kind = .semicolon) (hc : c.Ahead (v ++ s :: rest)) :
    ∃ f, (stmt .standard c).outcome = .error f ∧ faultsIn (stmt .standard c).journal = [f] := by
  have hcompound := (hv.current hs hc).2
  have hfin := simpleStmt_finishes hcompound v [s] rest (hv.facing hs hc)
  cases ho : (stmt .standard c).outcome with
  | error f =>
    refine ⟨f, rfl, ?_⟩
    rw [Reply.journal, ho, faultsIn_append, (hfin.failed f ho).2]
    rfl
  | ok st =>
    -- the parser has read all of it, so it would be a statement
    have hquiet : faultsIn (stmt .standard c).events ++ _ = c.pending := simpleStmt_quiet hcompound
    rw [hc.pending] at hquiet
    have hnone : (stmt .standard c).trouble? = none := by
      rw [Reply.trouble?, Reply.journal, ho]
      exact firstReport_eq_none_iff.2 (List.append_eq_nil_iff.1 hquiet).1
    obtain ⟨-, fs, hyields, -⟩ := hfin.done st ho
    have hphrase := hc.reads_stmt.sound st hnone ho
    rw [hyields.consumed] at hphrase
    exact absurd hphrase (hno st)

/-! ### Past faulty lexemes -/

/-- With faulty lexemes or without, a turn finds the same and consumes the same tokens; the
faults of the lexemes that are passed are told among the others. -/
theorem stmtTurn_cleared (hgo : endsBody c.current.kind = false) :
    let turn := recovering (stmt .standard) (resumeStmt .standard)
    (turn c.cleared).outcome = (turn c).outcome ∧
      consumedIn (turn c.cleared).events = consumedIn (turn c).events ∧
      Told c (turn c).events (turn c.cleared).events := by
  intro turn
  have hlockstep : World.cleared.LockstepIf (c.left + 1)
      (fun c _ => endsBody c.current.kind = false) turn turn :=
    World.stmtTurn_lockstep (World.stmt_lockstep (.inl World.cleared_faithful))
  have hmatch := hlockstep c c.cleared rfl (Nat.lt_succ_self _) hgo
  obtain ⟨houtcome, hconsumed, -⟩ := hmatch.of_cleared
  exact ⟨houtcome, hconsumed, hmatch.said⟩

/-! ### The loop -/

/-- The loop over the statements makes a turn and goes on. -/
theorem stmts_go_on (hgo : endsBody c.current.kind = false) :
    let turn := recovering (stmt .standard) (resumeStmt .standard) c
    let others := stmtsWith (stmt .standard) turn.cursor
    ∃ found stmts, turn.outcome = .ok found ∧ others.outcome = .ok stmts ∧
      stmtsWith (stmt .standard) c =
        ⟨.ok (found.toList ++ stmts), others.cursor, turn.events ++ others.events⟩ := by
  intro turn others
  obtain ⟨found, hfound⟩ := recovering_ok (p := stmt .standard) (resumeStmt_ok .standard) c
  obtain ⟨stmts, hstmts⟩ := (stmts_end .standard turn.cursor).1
  refine ⟨found, stmts, hfound, hstmts, ?_⟩
  have hunfold := congrArg (fun p => p.run c) (terminates .standard).ofStmts.unfolds
  have hround : stmtsWith (stmt .standard) c = _ := hunfold.trans (run_collectRound hgo)
  rw [hround, run_bind_ok _ hfound, run_bind_ok _ hstmts, run_pure, List.append_nil]

/-- What a turn of the loop over statements does to the tokens alone it does in front of
faulty lexemes too, which are reported as they are passed; and the loop goes on behind it. -/
theorem stmts_pass {found : Option Stmt} {w : List Token} {raised : List Fault}
    (hgo : endsBody c.current.kind = false)
    (h : Yields (recovering (stmt .standard) (resumeStmt .standard)) c.cleared found w raised)
    (hc : c.upcoming = w ++ rest) :
    let turn := recovering (stmt .standard) (resumeStmt .standard) c
    let behind := c.after w.length
    let others := stmtsWith (stmt .standard) behind
    ∃ (stmts : List Stmt) (passed : List Fault),
      turn.outcome = .ok found ∧ consumedIn turn.events = w ∧ turn.cursor = behind ∧
      behind.upcoming = rest ∧ others.outcome = .ok stmts ∧
      stmtsWith (stmt .standard) c =
        ⟨.ok (found.toList ++ stmts), others.cursor, turn.events ++ others.events⟩ ∧
      c.pending = passed ++ behind.pending ∧
      Interleaves passed raised (faultsIn turn.events) := by
  intro turn behind others
  obtain ⟨houtcome, hconsumed, passed, hpassed, hmixed⟩ := stmtTurn_cleared hgo
  obtain ⟨found', stmts, hfound, hstmts, hrun⟩ := stmts_go_on hgo
  have hreach := (recovering (stmt .standard) (resumeStmt .standard)).reaches c
  have hw : consumedIn turn.events = w := hconsumed.symm.trans h.consumed
  have hbehind : turn.cursor = behind := by rw [hreach.cursor, hw]
  have hupcoming : behind.upcoming = rest := by
    have htokens : c.upcoming = consumedIn turn.events ++ turn.cursor.upcoming := hreach.tokens
    rw [hc, hw, hbehind] at htokens
    exact (List.append_cancel_left htokens).symm
  have hok : turn.outcome = .ok found := houtcome.symm.trans h.outcome
  obtain rfl : found' = found := Except.ok.inj (hfound.symm.trans hok)
  rw [hw] at hpassed
  rw [h.faults] at hmixed
  rw [hbehind] at hstmts hrun
  exact ⟨stmts, passed, hok, hw, hbehind, hupcoming, hstmts, hrun, hpassed, hmixed⟩

/-- **A malformed simple statement costs one diagnostic, and only itself.** Let there be
ahead a `var`, `return` or `break` or none of these, then any tokens at all that are no
boundaries, a `;`, and anything that does not start with an `else`. The loop over the
statements of a block consumes exactly the tokens up to the `;` in its first turn and goes on
behind them. If they are a statement, it is the one that the turn finds, and the turn raises
no fault. If not, the turn finds nothing and raises one fault. What else is reported in the
turn are the faulty lexemes passed. -/
theorem stmts_pass_simple (c : Cursor) (word : Option Token) (g rest : List Token) (s : Token)
    (hword : ∀ t ∈ word, t.kind ∈ simpleWords) (hg : ∀ t ∈ g, t.kind ∉ boundaryKinds)
    (hs : s.kind = .semicolon) (hrest : ∀ t ∈ rest.head?, t.kind ≠ .elseWord)
    (hc : c.upcoming = word.toList ++ g ++ s :: rest) :
    let w := word.toList ++ g ++ [s]
    let turn := recovering (stmt .standard) (resumeStmt .standard) c
    let behind := c.after w.length
    let others := stmtsWith (stmt .standard) behind
    ∃ (found : Option Stmt) (stmts : List Stmt) (passed raised : List Fault),
      turn.outcome = .ok found ∧ consumedIn turn.events = w ∧ turn.cursor = behind ∧
      behind.upcoming = rest ∧ others.outcome = .ok stmts ∧
      stmtsWith (stmt .standard) c =
        ⟨.ok (found.toList ++ stmts), others.cursor, turn.events ++ others.events⟩ ∧
      c.pending = passed ++ behind.pending ∧ Interleaves passed raised (faultsIn turn.events) ∧
      (∀ st, StmtPhrase w st → found = some st ∧ raised = []) ∧
      ((∀ st, ¬StmtPhrase w st) → found = none ∧ raised.length = 1) := by
  intro w turn behind others
  have hv : SimpleTokens (word.toList ++ g) := .of_word hword hg
  have hahead : c.cleared.Ahead (word.toList ++ g ++ s :: rest) :=
    ⟨c.upcoming_cleared.trans hc, c.pending_cleared⟩
  have hgo : endsBody c.current.kind = false := (hv.current hs hahead).1
  have hyields := stmtTurn_yields hv hs hrest hahead
  have hsplit : c.upcoming = w ++ rest := by rw [hc, List.append_cons]
  obtain ⟨stmts, passed, hfound, hw, hbehind, hupcoming, hstmts, hrun, hpassed, hmixed⟩ :=
    stmts_pass hgo hyields hsplit
  refine ⟨_, stmts, passed, _, hfound, hw, hbehind, hupcoming, hstmts, hrun, hpassed, hmixed,
    fun st hst => ?_, fun hno => ?_⟩
  · obtain ⟨hok, hnone⟩ := stmt_of_phrase hst hrest hahead
    exact ⟨by rw [hok]; rfl, hnone⟩
  · obtain ⟨f, herror, hone⟩ := stmt_of_no_phrase hno hv hs hahead
    exact ⟨by rw [herror]; rfl, by rw [hone]; rfl⟩

/-- A declaration without a value, with more tokens, an `else` and a stray character in
front of its `;`: in `var x ) else # ; return ;` the loop goes on with the `return`, and the
declaration costs one fault beside that of the stray character. -/
theorem stmts_pass_simple_uninitialised :
    let token : Kind → Token := fun k => ⟨k, k.describe, ⟨1, 1⟩⟩
    let stray : Fault := ⟨.unrecognised "#", ⟨1, 1⟩⟩
    let word := some (token .varWord)
    let g := [Kind.identifier, .closeParen, .elseWord].map token
    let rest := [Kind.returnWord, .semicolon].map token
    let w := word.toList ++ g ++ [token .semicolon]
    let c : Cursor := ⟨token .varWord, g.map .token ++ .fault stray :: (token .semicolon :: rest).map
      .token, ⟨.atEnd ⟨1, 1⟩, rfl⟩, 0⟩
    let turn := recovering (stmt .standard) (resumeStmt .standard) c
    (∀ t ∈ word, t.kind ∈ simpleWords) ∧ (∀ t ∈ g, t.kind ∉ boundaryKinds) ∧
      turn.outcome = .ok none ∧ consumedIn turn.events = w ∧
      (∃ (behind : Cursor) (stmts : List Stmt), behind.upcoming = rest ∧
        (stmtsWith (stmt .standard) behind).outcome = .ok stmts ∧
        (stmtsWith (stmt .standard) c).outcome = .ok stmts) ∧
      ∃ f, Interleaves [stray] [f] (faultsIn turn.events) := by
  intro token stray word g rest w c turn
  have hword : ∀ t ∈ word, t.kind ∈ simpleWords := by
    intro t ht
    obtain rfl := Option.some.inj ht
    decide
  have hg : ∀ t ∈ g, t.kind ∉ boundaryKinds := by decide
  have hno : ∀ st, ¬StmtPhrase w st := by
    intro st h
    have hphrase : StmtForm.declaration.Phrase _ st := h.phrase
    obtain ⟨_, _, h₁, -, _, _, h₂, -, t, _, h₃, ht, -⟩ := hphrase
    cases h₁
    cases h₂
    cases h₃
    exact absurd ht (by decide)
  have hrest : ∀ t ∈ rest.head?, t.kind ≠ .elseWord := by decide
  obtain ⟨found, stmts, passed, raised, hfound, hw, -, hbehind, hstmts, hrun, hpassed, hmixed, -,
    hnone⟩ := stmts_pass_simple c word g rest (token .semicolon) hword hg rfl hrest rfl
  obtain ⟨rfl, hone⟩ := hnone hno
  obtain ⟨f, rfl⟩ := List.length_eq_one_iff.1 hone
  have hpending : [stray] = passed ++ [] := hpassed
  rw [List.append_nil] at hpending
  subst hpending
  have hall : (stmtsWith (stmt .standard) c).outcome = .ok stmts := congrArg Reply.outcome hrun
  exact ⟨hword, hg, hfound, hw, ⟨_, stmts, hbehind, hstmts, hall⟩, f, hmixed⟩

end BantamJava
