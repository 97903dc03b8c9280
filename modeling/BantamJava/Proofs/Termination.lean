/-
# Parsing ends, and reads its whole input

The recursions of the grammar are bounded by the number of items to come.
Here the bound is shown never to decide a result (`Parser.Descends`): every
recursive parser equals its own body, with itself for the parser that the body
is given, and at any cursor the body depends on that parser only at cursors
with fewer tokens left. What makes this work is that each nested use stands
behind a consumed token, which is lockstep of a run with itself. A recursion
that descends is the only solution of its equation, so whatever it did with
its bound reached, it would come out the same (`Parser.Descends.unique`).

With these equations the loops of the grammar can be followed to their end: a
parse of a program stops at the end token and nowhere else, and has then
consumed every token of its source once and in order, whatever the source and
whatever form of statement each kind of token starts.

Key definitions: `World.alone`, `Parser.Descends`, `Parser.Terminates`.
Key theorems: `Parser.descends_fix`, `Parser.Descends.unique`, `Parser.terminates`,
`Parser.program_ends`, `parse_consumes_all`.
-/
import BantamJava.Proofs.Lockstep.Program

namespace BantamJava

/-! ### A run beside itself -/

namespace World

open BantamJava.Parser

variable {α : Type} {n : Nat}

/-- One run beside itself: all that matches is equal. -/
def alone : World := shifted 0

theorem alone_faithful : alone.Faithful := shifted_faithful 0

theorem Matches.eq_of_alone {c : Cursor} {r s : Reply α} (h : alone.Matches c r s) : s = r := by
  obtain ⟨hcursor, hevents, houtcome⟩ := h.eq_of_shifted
  obtain ⟨o, d, es⟩ := r
  obtain ⟨o', d', es'⟩ := s
  obtain rfl : d' = d := hcursor
  obtain rfl : es' = es := hevents
  obtain rfl : o' = o := houtcome
  rfl

theorem alone_lockstep_iff {p q : Parser α} :
    alone.Lockstep n p q ↔ ∀ c : Cursor, c.left < n → q c = p c := by
  constructor
  · intro h c hc
    exact (h c c rfl hc trivial).eq_of_alone
  · rintro h c d hd hc -
    obtain rfl : d = c := hd
    rw [h d hc]
    refine ⟨rfl, rfl, ?_⟩
    cases (p d).outcome with
    | ok a => exact .ok a
    | error e => exact .error rfl

theorem alone_refl (p : Parser α) : alone.Lockstep n p p :=
  alone_lockstep_iff.2 fun _ _ => rfl

end World

namespace Parser

open World

variable {α ι : Type}

/-! ### Recursion without a bound -/

section Recursion

/-- The parsers `p` are a recursion over `body` that comes to its end. They are what `body` makes
of them, and what it makes at a cursor depends on the parsers it is given at those cursors only
that have fewer tokens left. The parsers that `body` makes have the property `Q`, and those that
it is given may be taken to have it. -/
structure Descends {α ι : Type} (Q : Parser α → Prop) (body : (ι → Parser α) → ι → Parser α)
    (p : ι → Parser α) : Prop where
  unfolds : ∀ i, p i = body p i
  makes : ∀ self i, Q (body self i)
  congr : ∀ (self self' : ι → Parser α) (c : Cursor), (∀ i, Q (self i)) →
    (∀ i (d : Cursor), d.left < c.left → self i d = self' i d) →
    ∀ i, body self i c = body self' i c

/-- A recursion without an argument that comes to its end. -/
def DescendsAlone (Q : Parser α → Prop) (body : Parser α → Parser α) (p : Parser α) : Prop :=
  Descends Q (fun self (_ : Unit) => body (self ())) fun _ => p

/-- Nothing is asked of a parser. -/
def Whatever (_ : Parser α) : Prop := True

variable {body : (ι → Parser α) → ι → Parser α} {Q : Parser α → Prop}

/-- **A recursion that comes to its end is the only solution of its equation**: no bound, and
nothing done with a bound reached, can make a difference. -/
theorem Descends.unique {p q : ι → Parser α} (h : Descends Q body p) (hq : ∀ i, q i = body q i) :
    q = p := by
  have hmade : ∀ i, Q (q i) := fun i => hq i ▸ h.makes q i
  refine funext fun i => ext fun c => ?_
  generalize hn : c.left = n
  induction n using Nat.strongRecOn generalizing i c with
  | ind n ih =>
    have hsmaller : ∀ j (d : Cursor), d.left < c.left → q j d = p j d := fun j d hd =>
      ih d.left (hn ▸ hd) j d rfl
    calc q i c = body q i c := congrArg (fun r => r.run c) (hq i)
      _ = body p i c := h.congr q p c hmade hsmaller i
      _ = p i c := (congrArg (fun r => r.run c) (h.unfolds i)).symm

/-- If every nested use stands behind a consumed token, a body depends on the parsers it is given
only where fewer tokens are left. -/
theorem congr_of_lockstep
    (h : ∀ n self self', (∀ i, Q (self i)) → (∀ i, alone.Lockstep n (self i) (self' i)) →
      ∀ i, alone.Lockstep (n + 1) (body self i) (body self' i))
    (self self' : ι → Parser α) (c : Cursor) (hself : ∀ i, Q (self i))
    (hsmaller : ∀ i (d : Cursor), d.left < c.left → self i d = self' i d) (i : ι) :
    body self i c = body self' i c := by
  have hnested : ∀ j, alone.Lockstep c.left (self j) (self' j) := fun j =>
    alone_lockstep_iff.2 fun d hd => (hsmaller j d hd).symm
  have hbody := alone_lockstep_iff.1 (h c.left self self' hself hnested i)
  exact (hbody c (Nat.lt_succ_self _)).symm

/-- **A recursive parser equals its body, and comes to its end**, if every nested use stands
behind a consumed token. -/
theorem descends_fix (hstuck : Q stuck) (hbody : ∀ self i, Q (body self i))
    (h : ∀ n self self', (∀ i, Q (self i)) → (∀ i, alone.Lockstep n (self i) (self' i)) →
      ∀ i, alone.Lockstep (n + 1) (body self i) (body self' i)) : Descends Q body (fix body) := by
  refine ⟨fun i => ext fun c => ?_, hbody, congr_of_lockstep h⟩
  have hQ : ∀ items j, Q (fixOver body items j) := by
    intro items j
    cases items <;> exact hbody _ _
  refine congr_of_lockstep h _ _ c (hQ c.rest) (fun j d hd => ?_) i
  -- the bound of a nested use, and the one it would start with, are both high enough
  have hc := c.left_le
  have hd' := d.left_le
  have hsame : ∀ i j, alone.LockstepIf (d.left + 1) (fun _ _ => i = j)
      (fixOver body c.rest i) (fixOver body (default :: d.rest) j) := by
    refine lockstep_fixOver (N := d.left + 1) hstuck hbody
      (fun n self self' _ hq hs i j e e' he hn hij => ?_) _ _ _ (Nat.le_refl _) (by omega)
      (by simp only [List.length_cons]; omega)
    subst hij
    exact h n self self' hq (fun i => (hs i i).weaken fun _ _ _ _ => rfl) i e e' he hn trivial
  exact (hsame j j d d rfl (Nat.lt_succ_self _) rfl).eq_of_alone.symm

theorem descends_fix_any
    (h : ∀ n self self', (∀ i, alone.Lockstep n (self i) (self' i)) →
      ∀ i, alone.Lockstep (n + 1) (body self i) (body self' i)) :
    Descends Whatever body (fix body) :=
  descends_fix trivial (fun _ _ => trivial) fun n _ _ _ => h n _ _

end Recursion

theorem DescendsAlone.unfolds {body : Parser α → Parser α} {p : Parser α} {Q : Parser α → Prop}
    (h : DescendsAlone Q body p) : p = body p :=
  Descends.unfolds h ()

theorem descends_recursive {body : Parser α → Parser α} {Q : Parser α → Prop} (hstuck : Q stuck)
    (hbody : ∀ self, Q (body self))
    (h : ∀ n self self', Q self → alone.Lockstep n self self' →
      alone.Lockstep (n + 1) (body self) (body self')) :
    DescendsAlone Q body (recursive body) :=
  descends_fix hstuck (fun _ _ => hbody _) fun n _ _ hq hs _ => h n _ _ (hq ()) (hs ())

theorem descends_recursive_any {body : Parser α → Parser α}
    (h : ∀ n self self', alone.Lockstep n self self' →
      alone.Lockstep (n + 1) (body self) (body self')) :
    DescendsAlone Whatever body (recursive body) :=
  descends_recursive trivial (fun _ => trivial) fun n _ _ _ => h n _ _

/-! ### The recursions of the grammar -/

theorem descends_collect {stop : Kind → Bool} {p : Parser (Option α)}
    (hlt : ∀ c : Cursor, stop c.current.kind = false → (p c).cursor.left < c.left) :
    DescendsAlone Whatever (collectRound stop p) (collect stop p) :=
  descends_recursive_any fun _ _ _ =>
    collectRound_lockstep (.inl alone_faithful) (alone_refl p).when hlt

theorem descends_resumeStmtWith (sub : Parser Stmt) :
    Descends Whatever (resumeRound sub) (resumeStmtWith sub) := by
  refine descends_fix_any fun n self self' hs start => alone_lockstep_iff.2 fun c hc => ?_
  refine Matches.eq_of_alone (resumeRound_lockstep (alone_refl sub) ?_ start start c c rfl hc
    ⟨rfl, fun _ => rfl⟩)
  rintro first second d d' hd hl ⟨hstart, -⟩
  obtain rfl : second = first := hstart
  exact hs second d d' hd hl trivial

theorem left_classTurn_lt_of_stop (table : StmtTable) (c : Cursor)
    (h : (c.current.kind == .endOfInput) = false) :
    (recovering (classDecl table) resumeClass c).cursor.left < c.left :=
  left_classTurn_lt table (by simpa using h)

/-- No recursion of the grammar runs on without end: every recursive parser and every loop is the
solution of the equation that defines it, and comes back to itself with fewer tokens left only. -/
structure Terminates (table : StmtTable) : Prop where
  ofExpr : DescendsAlone Whatever exprWith expr
  ofSigned : DescendsAlone Whatever (signRound expr) (signed expr)
  ofDots : Descends Whatever (dotRound expr) (fix (dotRound expr))
  ofChain : ∀ op? ∈ [orOp?, andOp?, additiveOp?, multiplicativeOp?], ∀ operand,
    Descends Whatever (chainRound op? operand) (fix (chainRound op? operand))
  ofCommas : ∀ {α : Type} (p : Parser α),
    DescendsAlone Whatever (commaRound p) (commaSeparated p)
  ofStmt : DescendsAlone Consuming (fun sub => stmtWith sub table) (stmt table)
  ofStmts : DescendsAlone Whatever
    (collectRound endsBody (recovering (stmt table) (resumeStmt table))) (stmtsWith (stmt table))
  ofMembers : DescendsAlone Whatever
    (collectRound endsBody (recovering (member table) resumeMember)) (members table)
  ofClasses : DescendsAlone Whatever
    (collectRound (· == .endOfInput) (recovering (classDecl table) resumeClass)) (classes table)
  ofResume : Descends Whatever (resumeRound (stmt table)) (resumeStmt table)
  ofSkipStmt : DescendsAlone Whatever skipStmtRound skipStmt
  ofSkipMember : Descends Whatever skipMemberRound skipMember
  ofSkipClass : DescendsAlone Whatever skipClassRound skipClass

theorem terminates (table : StmtTable) : Terminates table where
  ofExpr := descends_recursive_any fun _ _ _ => exprWith_lockstep
  ofSigned := descends_recursive_any fun _ _ _ => signRound_lockstep (alone_refl expr)
  ofDots := descends_fix_any fun _ _ _ => dotRound_lockstep (alone_refl expr)
  ofChain := by
    intro op? hop operand
    have hblind : Blind op? := by
      simp only [List.mem_cons, List.not_mem_nil, or_false] at hop
      rcases hop with rfl | rfl | rfl | rfl <;> exact ⟨rfl, rfl⟩
    exact descends_fix_any fun _ _ _ => chainRound_lockstep hblind (alone_refl operand)
  ofCommas p := descends_recursive_any fun _ _ _ => commaRound_lockstep (alone_refl p)
  ofStmt := descends_recursive (fun c => consumesAt_failHere _ c)
    (fun sub => stmtWith_consuming sub table)
    fun _ _ _ hsub hs => stmtWith_lockstep hs hsub (.inl alone_faithful)
  ofStmts := descends_collect fun _ => left_stmtTurn_lt (stmt_consuming table)
  ofMembers := descends_collect fun _ => left_memberTurn_lt table
  ofClasses := descends_collect (left_classTurn_lt_of_stop table)
  ofResume := descends_resumeStmtWith (stmt table)
  ofSkipStmt := descends_recursive_any fun _ _ _ => skipStmtRound_lockstep
  ofSkipMember := descends_fix_any fun _ _ _ hs depth =>
    (skipMemberRound_lockstep (fun k => (hs k).when) depth).weaken fun _ _ _ _ => trivial
  ofSkipClass := descends_recursive_any fun _ _ _ => skipClassRound_lockstep

theorem collect_eq {stop : Kind → Bool} {p : Parser (Option α)}
    (hlt : ∀ c : Cursor, stop c.current.kind = false → (p c).cursor.left < c.left) :
    collect stop p = collectRound stop p (collect stop p) :=
  (descends_collect hlt).unfolds

theorem expr_eq : expr = exprWith expr := (terminates .standard).ofExpr.unfolds

theorem stmt_eq (table : StmtTable) : stmt table = stmtWith (stmt table) table :=
  (terminates table).ofStmt.unfolds

theorem skipClass_eq : skipClass = skipClassRound skipClass :=
  (terminates .standard).ofSkipClass.unfolds

/-- A round of recovery uses the next one only where fewer tokens are left. -/
theorem resumeRound_congr (sub : Parser Stmt) {again again' : Nat → Parser Unit} {c : Cursor}
    (h : ∀ start (d : Cursor), d.left < c.left → again start d = again' start d) (start : Nat) :
    resumeRound sub again start c = resumeRound sub again' start c :=
  (descends_resumeStmtWith sub).congr again again' c (fun _ => trivial) h start

theorem resumeStmt_eq (table : StmtTable) (start : Nat) :
    resumeStmt table start = resumeRound (stmt table) (resumeStmt table) start :=
  (terminates table).ofResume.unfolds start

theorem classes_eq (table : StmtTable) : classes table =
    collectRound (· == .endOfInput) (recovering (classDecl table) resumeClass) (classes table) :=
  (terminates table).ofClasses.unfolds

/-! ### Loops to their end -/

/-- Where a loop is not to stop, it makes a turn and goes on. -/
theorem run_collectRound {stop : Kind → Bool} {p : Parser (Option α)} {again : Parser (List α)}
    {c : Cursor} (h : stop c.current.kind = false) :
    collectRound stop p again c = (do
      let found ← p
      let others ← again
      pure (found.toList ++ others) : Parser (List α)) c := by
  simp only [collectRound, run_kind_bind, h, Bool.false_eq_true, if_false]

/-- A loop whose turns never fail and always consume a token ends where it is
to stop. -/
theorem collect_ends (stop : Kind → Bool) {p : Parser (Option α)}
    (hlt : ∀ c : Cursor, stop c.current.kind = false → (p c).cursor.left < c.left)
    (hok : ∀ c : Cursor, ∃ a, (p c).outcome = .ok a) (c : Cursor) :
    (∃ as, (collect stop p c).outcome = .ok as) ∧
      stop (collect stop p c).cursor.current.kind = true := by
  generalize hn : c.left = n
  induction n using Nat.strongRecOn generalizing c with
  | ind n ih =>
    rw [collect_eq hlt, collectRound, run_kind_bind]
    cases hs : stop c.current.kind with
    | true => exact ⟨⟨[], rfl⟩, hs⟩
    | false =>
      obtain ⟨a, ha⟩ := hok c
      have hl := hlt c hs
      obtain ⟨⟨as, has⟩, hstop⟩ := ih _ (hn ▸ hl) (p c).cursor rfl
      simp only [Bool.false_eq_true, if_false]
      rw [run_bind_ok _ ha, run_bind_ok _ has]
      exact ⟨⟨_, rfl⟩, hstop⟩

theorem skipClass_ok (c : Cursor) : (skipClass c).outcome = .ok () := by
  generalize hn : c.left = n
  induction n using Nat.strongRecOn generalizing c with
  | ind n ih =>
    rw [skipClass_eq, skipClassRound, run_kind_bind]
    split
    · rfl
    · next hk =>
      have hl := left_skip_lt (c := c) fun he => hk (.inl he)
      rw [run_bind_ok (p := skip) (a := ()) _ rfl]
      exact ih _ (hn ▸ hl) _ rfl

theorem forceStep_ok (start : Nat) (c : Cursor) : ∃ b, (forceStep start c).outcome = .ok b := by
  rw [forceStep, run_consumed_bind]
  split
  · exact ⟨c.current.kind == .semicolon, rfl⟩
  · exact ⟨false, rfl⟩

theorem resumeClass_ok (start : Nat) (c : Cursor) : (resumeClass start c).outcome = .ok () := by
  obtain ⟨b, hb⟩ := forceStep_ok start c
  rw [resumeClass, run_bind_ok _ hb]
  exact skipClass_ok _

theorem recovering_ok {p : Parser α} {recover : Nat → Parser Unit}
    (h : ∀ start c, (recover start c).outcome = .ok ()) (c : Cursor) :
    ∃ a, (recovering p recover c).outcome = .ok a := by
  rw [recovering, run_consumed_bind, run_bind_ok (p := attempt p) _ rfl]
  cases (p c).outcome with
  | ok a => exact ⟨some a, rfl⟩
  | error e =>
    refine ⟨none, ?_⟩
    show ((recover c.consumed >>= fun _ => pure none : Parser (Option α)) (p c).cursor).outcome = _
    rw [run_bind_ok _ (h _ _)]
    rfl

theorem classes_ends (table : StmtTable) (c : Cursor) :
    (∃ cs, (classes table c).outcome = .ok cs) ∧
      (classes table c).cursor.current.kind = .endOfInput := by
  obtain ⟨hok, hstop⟩ := collect_ends (· == .endOfInput) (left_classTurn_lt_of_stop table)
    (recovering_ok resumeClass_ok) c
  exact ⟨hok, eq_of_beq hstop⟩

theorem run_program {table : StmtTable} {c : Cursor} {cs : List Class}
    (h : (classes table c).outcome = .ok cs) :
    program table c = ⟨.ok ⟨cs, c.current.position⟩, (classes table c).cursor,
      (classes table c).events⟩ := by
  rw [program, run_current_bind, run_bind_ok _ h, run_pure, List.append_nil]

/-- **The parser of programs ends at the end of the input, with a program.** -/
theorem program_ends (table : StmtTable) (c : Cursor) :
    (∃ prog, (program table c).outcome = .ok prog) ∧
      (program table c).cursor.current.kind = .endOfInput := by
  obtain ⟨⟨cs, hcs⟩, hend⟩ := classes_ends table c
  rw [run_program hcs]
  exact ⟨⟨_, rfl⟩, hend⟩

end Parser

/-! ### Sessions -/

/-- The items hold no end token. -/
def NoEnd (items : List Item) : Prop := ∀ t, .token t ∈ items → t.kind ≠ .endOfInput

theorem Cursor.upcoming_ofSource (s : Source) : (Cursor.ofSource s).1.upcoming = s.tokens :=
  Cursor.tokensAhead_pull s.finish s.items

namespace Session

theorem classes_parse {s : Session} {as : List Class}
    (h : (Parser.classes s.table s.cursor).outcome = .ok as) : s.parse.1.classes = as := by
  simp only [parse, Parser.run_program h]
  rfl

theorem position_parse (s : Session) : s.parse.1.position = s.cursor.current.position := by
  obtain ⟨cs, hcs⟩ := (Parser.classes_ends s.table s.cursor).1
  simp only [parse, Parser.run_program hcs]
  rfl

theorem diagnostics_parse {s : Session} {as : List Class}
    (h : (Parser.classes s.table s.cursor).outcome = .ok as) :
    s.parse.2.diagnostics = (faultsIn s.journal ++
      faultsIn (Parser.classes s.table s.cursor).events).map (.ofFault s.file) := by
  simp [parse, diagnostics, Parser.run_program h, Event.fault?]

theorem faults_parse {s : Session} {as : List Class}
    (h : (Parser.classes s.table s.cursor).outcome = .ok as) :
    s.parse.2.diagnostics.map (·.fault) =
      faultsIn s.journal ++ faultsIn (Parser.classes s.table s.cursor).events := by
  rw [diagnostics_parse h, List.map_map]
  exact List.map_id _

/-- A session with more forms of statements, registered one after another. -/
def registerAll (s : Session) (registrations : List (Kind × StmtForm)) : Session :=
  registrations.foldl (fun s r => s.register r.1 r.2) s

theorem registerAll_cursor (registrations : List (Kind × StmtForm)) (s : Session) :
    (s.registerAll registrations).cursor = s.cursor := by
  induction registrations generalizing s with
  | nil => rfl
  | cons r rs ih => exact ih (s.register r.1 r.2)

theorem registerAll_journal (registrations : List (Kind × StmtForm)) (s : Session) :
    (s.registerAll registrations).journal = s.journal := by
  induction registrations generalizing s with
  | nil => rfl
  | cons r rs ih => exact ih (s.register r.1 r.2)

end Session

open BantamJava.Parser in
/-- **Parsing ends and consumes the whole input**, whatever the source and
whatever forms of statements were registered. Every recursion comes to its end; the
parse returns a program and stops at the end token; it has consumed the tokens
of the source, each once and in order. Each turn of the three loops of the
grammar leaves fewer tokens than it found, and recovery after a statement comes
back to itself only with fewer tokens left. -/
theorem parse_consumes_all (file : String) (s : Source) (registrations : List (Kind × StmtForm)) :
    let session := (Session.start file s).registerAll registrations
    let ended := session.parse.2
    Terminates session.table ∧
    (program session.table session.cursor).outcome = .ok session.parse.1 ∧
    ended.cursor.current.kind = .endOfInput ∧
    consumedIn ended.journal = s.tokens ∧
    ended.cursor.consumed = s.tokens.length ∧
    (∀ c : Cursor, c.current.kind ≠ .endOfInput →
      (recovering (classDecl session.table) resumeClass c).cursor.left < c.left) ∧
    (∀ c : Cursor, endsBody c.current.kind = false →
      (recovering (member session.table) resumeMember c).cursor.left < c.left) ∧
    (∀ c : Cursor, endsBody c.current.kind = false →
      (recovering (stmt session.table) (resumeStmt session.table) c).cursor.left < c.left) ∧
    (∀ (c : Cursor) (again again' : Nat → Parser Unit),
      (∀ start (d : Cursor), d.left < c.left → again start d = again' start d) →
      ∀ start, resumeRound (stmt session.table) again start c =
        resumeRound (stmt session.table) again' start c) := by
  intro session ended
  have hcursor : session.cursor = (Cursor.ofSource s).1 := Session.registerAll_cursor _ _
  have hjournal : session.journal = (Cursor.ofSource s).2 := Session.registerAll_journal _ _
  obtain ⟨⟨prog, hprog⟩, hend⟩ := program_ends session.table session.cursor
  have hreach := (program session.table).reaches session.cursor
  have hnil := Cursor.upcoming_eq_nil_iff.2 hend
  have hall : consumedIn (program session.table session.cursor).events = s.tokens := by
    have htokens := hreach.tokens
    rw [hnil, List.append_nil, hcursor, Cursor.upcoming_ofSource] at htokens
    rw [hcursor, ← htokens]
  refine ⟨terminates _, ?_, hend, ?_, ?_, fun c => left_classTurn_lt _,
    fun c => left_memberTurn_lt _, fun c => left_stmtTurn_lt (stmt_consuming _),
    fun c again again' => resumeRound_congr _⟩
  · rw [hprog]
    simp only [Session.parse, hprog]
    rfl
  · show consumedIn ((session.journal ++ .started :: _) ++ [_]) = s.tokens
    rw [hjournal, consumedIn_append, consumedIn_append, consumedIn_cons, hall]
    simp [Cursor.ofSource, Cursor.consumedIn_pull, Event.consumed?]
  · show (program session.table session.cursor).cursor.consumed = _
    rw [hreach.consumed_eq, hall, hcursor]
    simp [Cursor.ofSource]

end BantamJava
