/-
# Reading statements

Each form of statement is read as the grammar says, if the parser `sub` that it
takes for nested statements reads the language of statements.

An `else` may follow a statement only if the statement does not take it
(`MayFollow`). When the parser has read a statement and an `else` stands behind
it, the statement cannot take that `else`: otherwise the words read would start
a longer statement too, which reading excludes (`takesElse_eq_false`). So the
parser may give the `else` to the `if` around it.

Key definitions: `MayFollow`, `StmtForm.Phrase`.
Key theorems: `StmtPhrase.extend`, `takesElse_eq_false`, `StmtPhrase.phrase`,
`formWith_reads`, `stmt_reads`, `block_reads`.
-/
import BantamJava.Proofs.Reading.Expr

namespace BantamJava

instance : Viable StmtPhrase :=
  ⟨_, _, .breakLoop (t := .sample .breakWord) (s := .sample .semicolon) rfl rfl⟩

instance : Viable BlockPhrase :=
  ⟨_, _, .mk (o := .sample .openCurly) (c := .sample .closeCurly) rfl .nil rfl⟩

instance {α : Type} (D : Lang α) : Viable (Optional D) := ⟨[], none, .none⟩

/-! ### What may follow a statement -/

/-- The token, if there is one, may follow the statement: the statement does not
take it. -/
def MayFollow (s : Stmt) (o : Option Token) : Prop :=
  ∀ t, o = some t → t.kind = .elseWord → s.takesElse = false

theorem mayFollow_of_ne {s : Stmt} {t : Token} (ht : t.kind ≠ .elseWord) :
    MayFollow s (some t) := by
  intro t' heq he
  cases heq
  exact absurd he ht

/-- A statement that takes an `else` goes on with one. -/
theorem StmtPhrase.extend {v x : List Token} {s no : Stmt} {l : Token} (h : StmtPhrase v s)
    (htakes : s.takesElse = true) (hl : l.kind = .elseWord) (hx : StmtPhrase x no) :
    ∃ s', StmtPhrase (v ++ l :: x) s' := by
  match h with
  | @StmtPhrase.ifThen _ _ _ yes _ _ _ ht ho htest hc hyes =>
    -- the innermost `if` takes it
    cases hopen : yes.takesElse with
    | false =>
      simp only [List.cons_append, List.append_assoc]
      exact ⟨_, .ifElse ht ho htest hc hyes hopen hl hx⟩
    | true =>
      obtain ⟨yes', hyes'⟩ := extend hyes hopen hl hx
      simp only [List.cons_append, List.append_assoc]
      exact ⟨_, .ifThen ht ho htest hc hyes'⟩
  | .ifElse ht ho htest hc hyes hclosed hl' hno =>
    obtain ⟨no', hno'⟩ := extend hno htakes hl hx
    simp only [List.cons_append, List.append_assoc]
    exact ⟨_, .ifElse ht ho htest hc hyes hclosed hl' hno'⟩
  | .whileLoop ht ho htest hc hbody =>
    obtain ⟨body', hbody'⟩ := extend hbody htakes hl hx
    simp only [List.cons_append, List.append_assoc]
    exact ⟨_, .whileLoop ht ho htest hc hbody'⟩
  | .forLoop ht ho hinit hs htest hs' hupdate hc hbody =>
    obtain ⟨body', hbody'⟩ := extend hbody htakes hl hx
    simp only [List.cons_append, List.append_assoc]
    exact ⟨_, .forLoop ht ho hinit hs htest hs' hupdate hc hbody'⟩
  | .evaluate _ _ | .block _ _ _ | .breakLoop _ _ | .returnWith _ _ _ | .declare _ _ _ _ _ =>
    cases htakes

/-- **An `else` behind a statement that has been read does not belong to it.** -/
theorem takesElse_eq_false {c : Cursor} {p : Parser Stmt} {s : Stmt}
    (h : ReadsAt StmtPhrase MayFollow c (p c)) (ht : (p c).trouble? = none)
    (hs : (p c).outcome = .ok s) (helse : (p c).cursor.At .elseWord) : s.takesElse = false := by
  cases htakes : s.takesElse with
  | false => rfl
  | true =>
    -- what has been read and the `else` would start a longer statement
    obtain ⟨x, no, hx⟩ := Viable.exists_phrase (G := StmtPhrase)
    obtain ⟨s', hs'⟩ := (h.sound s ht hs).extend htakes (l := (p c).cursor.current) helse hx
    have hne : (p c).cursor.current.kind ≠ .endOfInput := by
      rw [show (p c).cursor.current.kind = _ from helse]
      decide
    have hreach := (p.reaches c).tokens
    rw [Cursor.upcoming_of_ne hne] at hreach
    have hword := h.unique s ht hs _ s' [] hs' (fun t h => by cases h)
    rw [hreach, List.append_nil, List.take_length_add_append, List.take_length_add_append] at hword
    have hlength := congrArg List.length (hword rfl).1
    simp at hlength

/-! ### Parts of statements -/

section Parts

open BantamJava.Parser

variable {n : Nat}

/-- An expression in parentheses. -/
abbrev Condition : Lang Expr :=
  Lang.token .openParen fun _ => Lang.seq Expression fun e =>
    Lang.token .closeParen fun _ => Lang.unit e

theorem condition_reads : Reads n Condition (fun _ _ => True) condition := by
  refine reads_expect_then (by decide) fun _ => ?_
  exact expr_reads.bind (fun e => reads_expect_then (by decide) fun _ => reads_pure e)
    fun e => leads_token (ends_of_kind (by decide))

theorem condition_bind_reads {α : Type} {H : Expr → Lang α} {F : Follow α} {f : Expr → Parser α}
    (hf : ∀ e, Reads n (H e) F (f e)) [∀ e, Viable (H e)] :
    Reads n (Lang.seq Condition H) F (condition >>= f) :=
  condition_reads.bind hf fun _ _ _ _ _ _ => trivial

/-- An expression, if there is one, and then a token. -/
abbrev OptionalUntil {α : Type} (k : Kind) (H : Option Expr → Lang α) : Lang α :=
  Lang.seq (Optional Expression) fun e => Lang.token k fun _ => H e

theorem exprUnless_reads {k : Kind} (hk : k = .semicolon ∨ k = .closeParen) :
    Reads n (Optional Expression) (fun _ => Before k) (exprUnless k) := by
  have htight : k.tightness < 1 := by rcases hk with rfl | rfl <;> exact Nat.one_pos
  have hstart : k ∉ exprKinds := by rcases hk with rfl | rfl <;> decide
  have hread : Reads n (Lang.mapped some Expression) (fun _ => Before k)
      (expr >>= fun e => pure (some e)) := by
    refine expr_reads.map some ?_
    rintro e o ⟨t, rfl, ht⟩
    exact ends_of_kind htight t ht
  refine (reads_unless hread ?_).congr fun w o => ⟨?_, ?_⟩
  · rintro w o ⟨e, he, -⟩
    obtain ⟨t, v, rfl, ht⟩ := he.starts
    exact ⟨t, v, rfl, fun h => hstart (h ▸ ht)⟩
  · rintro (⟨rfl, rfl⟩ | ⟨e, he, rfl⟩)
    · exact .none
    · exact .some he
  · intro h
    cases h with
    | none => exact .inl ⟨rfl, rfl⟩
    | some h => exact .inr ⟨_, h, rfl⟩

theorem exprUnless_bind_reads {α : Type} {k : Kind} (hk : k = .semicolon ∨ k = .closeParen)
    {H : Option Expr → Lang α} {F : Follow α} {f : Option Expr → Parser α}
    (hf : ∀ e, Reads n (H e) F (f e)) [∀ e, Viable (H e)] :
    Reads n (OptionalUntil k H) F (exprUnless k >>= fun e => expect k >>= fun _ => f e) := by
  have hne : k ≠ .endOfInput := by rcases hk with rfl | rfl <;> decide
  exact (exprUnless_reads hk).bind (fun e => reads_expect_then hne fun _ => hf e)
    fun _ => leads_token before_of_kind

/-- A missing brace is reported, and what was read up to there is kept. -/
theorem closeBody_reads : Reads n (Lang.token .closeCurly fun _ => Lang.unit ())
    (fun _ _ => True) closeBody := by
  have hread : Reads n (Lang.token .closeCurly fun _ => Lang.unit ()) (fun _ _ => True)
      (expect .closeCurly >>= fun _ => pure ()) :=
    reads_expect_then (by decide) fun _ => reads_pure ()
  intro c hc hn hP
  have hclose := hread c hc hn hP
  rw [closeBody, run_bind_ok (p := attempt (expect .closeCurly)) _ rfl]
  cases ha : (expect .closeCurly c).outcome with
  | ok t =>
    rw [run_bind_ok _ ha] at hclose
    simpa [attempt, ha] using hclose
  | error f =>
    -- both have the same first fault, reported or not
    rw [run_bind_error _ ha] at hclose
    refine hclose.of_trouble? ?_ fun hnone => ?_
    · simp [attempt, ha, report, note, Reply.trouble?, Reply.journal]
    · obtain ⟨b, hb, -⟩ := Reply.exists_ok_of_trouble?_eq_none hnone
      cases hb

theorem closeBody_bind_reads {α : Type} {G : Lang α} {F : Follow α} {q : Unit → Parser α}
    (hq : Reads n G F (q ())) [Viable G] :
    Reads n (Lang.token .closeCurly fun _ => G) F (closeBody >>= q) := by
  have hread := closeBody_reads.bind (fun _ => hq) fun _ _ _ _ _ _ => trivial
  refine hread.congr fun w a => ⟨?_, ?_⟩
  · rintro ⟨_, x, _, rfl, ⟨t, _, rfl, ht, rfl, rfl⟩, hx⟩
    exact ⟨t, x, rfl, ht, hx⟩
  · rintro ⟨t, x, rfl, ht, hx⟩
    exact ⟨[t], x, (), rfl, ⟨t, [], rfl, ht, rfl, rfl⟩, hx⟩

end Parts

/-! ### The forms of statements -/

/-- What follows the first branch of an `if`. -/
abbrev elseRest (p : Position) (test : Expr) (yes : Stmt) : Lang Stmt :=
  Lang.opt (.ifElse p test yes none) fun w s => yes.takesElse = false ∧
    Lang.token .elseWord (fun _ => Lang.mapped (fun no => .ifElse p test yes (some no)) StmtPhrase)
      w s

/-- Statements of a form. -/
def StmtForm.Phrase : StmtForm → Lang Stmt
  | .expression => fun w s => ∃ t v, w = t :: v ∧
      Lang.seq Expression (fun e => Lang.token .semicolon fun _ =>
        Lang.unit (.evaluate t.position e)) w s
  | .block => Lang.mapped (fun b => .block b.position b.stmts) BlockPhrase
  | .conditional => Lang.token .ifWord fun t => Lang.seq Condition fun test =>
      Lang.seq StmtPhrase fun yes => elseRest t.position test yes
  | .whileLoop => Lang.token .whileWord fun t => Lang.seq Condition fun test =>
      Lang.mapped (.whileLoop t.position test) StmtPhrase
  | .forLoop => Lang.token .forWord fun t => Lang.token .openParen fun _ =>
      OptionalUntil .semicolon fun init => OptionalUntil .semicolon fun test =>
        OptionalUntil .closeParen fun update =>
          Lang.mapped (.forLoop t.position init test update) StmtPhrase
  | .breakLoop => Lang.token .breakWord fun t => Lang.token .semicolon fun _ =>
      Lang.unit (.breakLoop t.position)
  | .returnValue => Lang.token .returnWord fun t => OptionalUntil .semicolon fun value =>
      Lang.unit (.returnWith t.position value)
  | .declaration => Lang.token .varWord fun t => Lang.token .identifier fun m =>
      Lang.token .assignment fun _ => Lang.seq Expression fun init =>
        Lang.token .semicolon fun _ => Lang.unit (.declare t.position m.value init)

theorem StmtPhrase.phrase {t : Token} {v : List Token} {s : Stmt} (h : StmtPhrase (t :: v) s) :
    (StmtTable.standard.form t.kind).Phrase (t :: v) s := by
  cases h with
  | evaluate he hs =>
    have hform : ∀ k ∈ exprKinds, StmtTable.standard.form k = .expression := by
      simp [exprKinds, baseKinds, signKinds, StmtTable.form, StmtTable.standard]
    rw [hform _ he.starts.kind_mem]
    exact ⟨_, _, rfl, _, _, _, rfl, he, _, _, rfl, hs, rfl, rfl⟩
  | block ho hs hc =>
    rw [ho]
    exact ⟨_, .mk ho hs hc, rfl⟩
  | ifThen ht ho he hc hyes =>
    rw [ht]
    refine ⟨_, _, rfl, ht, _, _, _, ?_, ⟨_, _, rfl, ho, _, _, _, rfl, he, _, _, rfl, hc, rfl, rfl⟩,
      _, [], _, (List.append_nil _).symm, hyes, .inl ⟨rfl, rfl⟩⟩
    simp
  | ifElse ht ho he hc hyes hclosed hl hno =>
    rw [ht]
    refine ⟨_, _, rfl, ht, _, _, _, ?_, ⟨_, _, rfl, ho, _, _, _, rfl, he, _, _, rfl, hc, rfl, rfl⟩,
      _, _, _, rfl, hyes, .inr ⟨hclosed, _, _, rfl, hl, _, hno, rfl⟩⟩
    simp
  | whileLoop ht ho he hc hbody =>
    rw [ht]
    refine ⟨_, _, rfl, ht, _, _, _, ?_, ⟨_, _, rfl, ho, _, _, _, rfl, he, _, _, rfl, hc, rfl, rfl⟩,
      _, hbody, rfl⟩
    simp
  | forLoop ht ho hinit hs htest hs' hupdate hc hbody =>
    rw [ht]
    exact ⟨_, _, rfl, ht, _, _, rfl, ho, _, _, _, rfl, hinit, _, _, rfl, hs, _, _, _, rfl, htest,
      _, _, rfl, hs', _, _, _, rfl, hupdate, _, _, rfl, hc, _, hbody, rfl⟩
  | breakLoop ht hs =>
    rw [ht]
    exact ⟨_, _, rfl, ht, _, _, rfl, hs, rfl, rfl⟩
  | returnWith ht hvalue hs =>
    rw [ht]
    exact ⟨_, _, rfl, ht, _, _, _, rfl, hvalue, _, _, rfl, hs, rfl, rfl⟩
  | declare ht hm ha he hs =>
    rw [ht]
    exact ⟨_, _, rfl, ht, _, _, rfl, hm, _, _, rfl, ha, _, _, _, rfl, he, _, _, rfl, hs, rfl, rfl⟩

theorem not_phrase_nil (form : StmtForm) (s : Stmt) : ¬ form.Phrase [] s := by
  intro h
  cases form with
  | expression =>
    obtain ⟨_, _, hnil, -⟩ := h
    cases hnil
  | block =>
    obtain ⟨_, hblock, -⟩ := h
    cases hblock
  | conditional | whileLoop | forLoop | breakLoop | returnValue | declaration =>
    obtain ⟨_, _, hnil, -⟩ := h
    cases hnil

theorem stmtPhrase_of_phrase {form : StmtForm} {w : List Token} {s : Stmt}
    (h : form.Phrase w s) : StmtPhrase w s := by
  cases form with
  | expression =>
    obtain ⟨t, _, hw, v, _, e, rfl, he, m, _, rfl, hm, rfl, rfl⟩ := h
    obtain ⟨t', v, rfl, -⟩ := he.starts
    cases hw
    exact .evaluate he hm
  | block =>
    obtain ⟨b, hb, rfl⟩ := h
    cases hb with
    | mk ho hs hc => exact .block ho hs hc
  | conditional =>
    obtain ⟨t, _, rfl, ht, _, _, _, rfl, ⟨o, _, rfl, ho, w, _, e, rfl, he, c, _, rfl, hc, rfl, rfl⟩,
      v, _, yes, rfl, hyes, hrest⟩ := h
    rcases hrest with ⟨rfl, rfl⟩ | ⟨hclosed, l, _, rfl, hl, no, hno, rfl⟩
    · have := StmtPhrase.ifThen ht ho he hc hyes
      simpa using this
    · have := StmtPhrase.ifElse ht ho he hc hyes hclosed hl hno
      simpa using this
  | whileLoop =>
    obtain ⟨t, _, rfl, ht, _, _, _, rfl, ⟨o, _, rfl, ho, w, _, e, rfl, he, c, _, rfl, hc, rfl, rfl⟩,
      body, hbody, rfl⟩ := h
    have := StmtPhrase.whileLoop ht ho he hc hbody
    simpa using this
  | forLoop =>
    obtain ⟨t, _, rfl, ht, o, _, rfl, ho, _, _, _, rfl, hinit, _, _, rfl, hs, _, _, _, rfl, htest,
      _, _, rfl, hs', _, _, _, rfl, hupdate, _, _, rfl, hc, _, hbody, rfl⟩ := h
    exact .forLoop ht ho hinit hs htest hs' hupdate hc hbody
  | breakLoop =>
    obtain ⟨t, _, rfl, ht, m, _, rfl, hm, rfl, rfl⟩ := h
    exact .breakLoop ht hm
  | returnValue =>
    obtain ⟨t, _, rfl, ht, _, _, _, rfl, hvalue, m, _, rfl, hm, rfl, rfl⟩ := h
    exact .returnWith ht hvalue hm
  | declaration =>
    obtain ⟨t, _, rfl, ht, m, _, rfl, hm, a, _, rfl, ha, _, _, _, rfl, he, _, _, rfl, hs, rfl,
      rfl⟩ := h
    exact .declare ht hm ha he hs

/-- The kinds of tokens with which a statement starts. -/
theorem StmtPhrase.starts {w : List Token} {s : Stmt} (h : StmtPhrase w s) :
    ∃ t v, w = t :: v ∧ Parser.endsBody t.kind = false ∧ t.kind ≠ .elseWord := by
  have hexpr : ∀ k ∈ exprKinds, Parser.endsBody k = false ∧ k ≠ .elseWord := by
    simp [exprKinds, baseKinds, signKinds, Parser.endsBody]
  cases h with
  | evaluate he _ => exact ⟨_, _, rfl, hexpr _ he.starts.kind_mem⟩
  | block ht _ _ | ifThen ht _ _ _ _ | ifElse ht _ _ _ _ _ _ _ | whileLoop ht _ _ _ _
  | forLoop ht _ _ _ _ _ _ _ _ | breakLoop ht _ | returnWith ht _ _ | declare ht _ _ _ _ =>
    refine ⟨_, _, rfl, ?_⟩
    rw [ht]
    exact ⟨rfl, by simp⟩

section Forms

open BantamJava.Parser

variable {n : Nat} {sub : Parser Stmt}

/-! ### Blocks -/

theorem stmtsWith_reads (hs : Reads n StmtPhrase MayFollow sub) :
    Reads n (Many StmtPhrase) (fun _ => Stops endsBody) (stmtsWith sub) := by
  refine collect_reads rfl (fun w s h => ?_) (fun s o h t ht helse => ?_) (reads_recovering hs)
  · obtain ⟨t, v, rfl, hstop, helse⟩ := h.starts
    exact ⟨t, v, rfl, hstop, fun _ => mayFollow_of_ne helse⟩
  · have hstop := h t ht
    rw [helse] at hstop
    cases hstop

theorem blockWith_reads {F : Follow Block} (hs : Reads n StmtPhrase MayFollow sub) :
    Reads (n + 1) BlockPhrase F (blockWith sub) := by
  have hread : Reads (n + 1) (Lang.token .openCurly fun o => Lang.seq (Many StmtPhrase)
      fun stmts => Lang.token .closeCurly fun _ => Lang.unit (⟨stmts, o.position⟩ : Block)) F
      (blockWith sub) := by
    refine reads_expect_bind (by decide) fun o => (stmtsWith_reads hs).bind
      (fun stmts => closeBody_bind_reads (reads_pure _)) fun stmts => leads_token fun t ht => ?_
    intro t' heq
    cases heq
    rw [ht]
    rfl
  refine hread.congr fun w b => ⟨?_, ?_⟩
  · rintro ⟨o, _, rfl, ho, v, _, stmts, rfl, hv, c, _, rfl, hc, rfl, rfl⟩
    exact .mk ho hv hc
  · intro h
    cases h with
    | mk ho hv hc => exact ⟨_, _, rfl, ho, _, _, _, rfl, hv, _, _, rfl, hc, rfl, rfl⟩

/-! ### The other forms -/

theorem expressionStmt_reads {F : Follow Stmt} :
    Reads n StmtForm.expression.Phrase F expressionStmt := by
  have hviable : Viable StmtForm.expression.Phrase := by
    obtain ⟨w, e, he⟩ := Viable.exists_phrase (G := Expression)
    obtain ⟨t, v, rfl, -⟩ := he.starts
    exact ⟨_, _, t, _, rfl, _, _, e, rfl, he, .sample .semicolon, [], rfl, rfl, rfl, rfl⟩
  refine reads_current (H := fun t => Lang.seq Expression fun e => Lang.token .semicolon fun _ =>
    Lang.unit (.evaluate t.position e)) (fun t => ?_) ?_ (not_phrase_nil _) fun t v s => ⟨?_, ?_⟩
  · have hread : Reads n (Lang.seq Expression fun e => Lang.token .semicolon fun _ =>
        Lang.unit (.evaluate t.position e)) F (expr >>= fun e =>
          expectElse .semicolon .unexpected >>= fun _ => pure (.evaluate t.position e)) :=
      expr_reads.bind (fun e => reads_expectElse_then (by decide) (fun _ _ => rfl)
        fun _ => reads_pure _) fun e => leads_token (ends_of_kind (by decide))
    exact hread.when
  · rintro t s ⟨v, x, e, heq, he, -⟩
    rw [(List.append_eq_nil_iff.1 heq.symm).1] at he
    exact not_expression_nil e he
  · intro h
    exact ⟨t, v, rfl, h⟩
  · rintro ⟨t', v', heq, h⟩
    cases heq
    exact h

/-- **An `else` belongs to the nearest `if` that has none.** -/
theorem conditionalStmt_reads (hs : Reads n StmtPhrase MayFollow sub) :
    ReadsIf (n + 1) (Cursor.At .ifWord) StmtForm.conditional.Phrase MayFollow
      (conditionalStmt sub) := by
  refine readsIf_advance_bind (by decide) fun t => condition_bind_reads fun test => ?_
  -- an `else` that stands behind the first branch is not its own
  refine hs.bind_post (Q := fun yes c => c.At .elseWord → yes.takesElse = false)
    (fun c yes hread ht hyes => takesElse_eq_false hread ht hyes) (fun yes => ?_) fun yes => ?_
  · have hread : Reads n (Lang.opt (.ifElse t.position test yes none) (Lang.token .elseWord
        fun _ => Lang.mapped (fun no => .ifElse t.position test yes (some no)) StmtPhrase))
        MayFollow (kind >>= fun k => if k = .elseWord then
          skip >>= fun _ => sub >>= fun no => pure (.ifElse t.position test yes (some no))
        else pure (.ifElse t.position test yes none)) := by
      refine reads_opt (by decide) (readsIf_skip_then (by decide) (hs.map _ fun _ _ h => h)) ?_
      intro t ht h
      cases h t rfl ht
    refine hread.when.convert (fun c hc w s hw hhead => ?_) fun c hc w s x hw hx _ => ⟨?_, hx⟩
    · rcases hw with hw | ⟨l, v, rfl, hl, hv⟩
      · exact .inl hw
      · have hat : c.At .elseWord := by
          rw [Cursor.At, ← eq_current_of_head? (hhead l rfl)]
          exact hl
        exact .inr ⟨hc hat, l, v, rfl, hl, hv⟩
    · rcases hw with hw | ⟨-, hw⟩
      · exact .inl hw
      · exact .inr hw
  · rintro w s x (⟨rfl, rfl⟩ | ⟨hclosed, -⟩) hx
    · intro l hl helse
      cases hx l hl helse
    · exact fun _ _ _ => hclosed

theorem whileStmt_reads (hs : Reads n StmtPhrase MayFollow sub) :
    ReadsIf (n + 1) (Cursor.At .whileWord) StmtForm.whileLoop.Phrase MayFollow (whileStmt sub) :=
  readsIf_advance_bind (by decide) fun _ => condition_bind_reads fun _ => hs.map _ fun _ _ h => h

theorem forStmt_reads (hs : Reads n StmtPhrase MayFollow sub) :
    ReadsIf (n + 1) (Cursor.At .forWord) StmtForm.forLoop.Phrase MayFollow (forStmt sub) := by
  refine readsIf_advance_bind (by decide) fun t => reads_expect_then (by decide) fun _ => ?_
  refine exprUnless_bind_reads (.inl rfl) fun init => ?_
  refine exprUnless_bind_reads (.inl rfl) fun test => ?_
  refine exprUnless_bind_reads (.inr rfl) fun update => ?_
  exact hs.map _ fun _ _ h => h

theorem breakStmt_reads {F : Follow Stmt} :
    ReadsIf (n + 1) (Cursor.At .breakWord) StmtForm.breakLoop.Phrase F breakStmt :=
  readsIf_advance_bind (by decide) fun _ => reads_expect_then (by decide) fun _ => reads_pure _

theorem returnStmt_reads {F : Follow Stmt} :
    ReadsIf (n + 1) (Cursor.At .returnWord) StmtForm.returnValue.Phrase F returnStmt :=
  readsIf_advance_bind (by decide) fun _ =>
    exprUnless_bind_reads (.inl rfl) fun _ => reads_pure _

theorem declarationStmt_reads {F : Follow Stmt} :
    ReadsIf (n + 1) (Cursor.At .varWord) StmtForm.declaration.Phrase F declarationStmt := by
  refine readsIf_advance_bind (by decide) fun t => ?_
  refine identifier_bind_reads (H := fun name => Lang.token .assignment fun _ =>
    Lang.seq Expression fun init => Lang.token .semicolon fun _ =>
      Lang.unit (Stmt.declare t.position name init)) fun name => ?_
  refine reads_expectElse_then (by decide) (fun _ _ => rfl) fun _ => ?_
  exact expr_reads.bind (fun init => reads_expect_then (by decide) fun _ => reads_pure _)
    fun init => leads_token (ends_of_kind (by decide))

/-- A statement is read by the form that its first token starts. -/
theorem formWith_reads (hs : Reads n StmtPhrase MayFollow sub) (k : Kind) :
    ReadsIf (n + 1) (Cursor.At k) (StmtTable.standard.form k).Phrase MayFollow
      (formWith sub (StmtTable.standard.form k)) := by
  unfold StmtTable.form StmtTable.standard
  split
  · exact conditionalStmt_reads hs
  · exact ((blockWith_reads (F := fun _ _ => True) hs).map _ fun _ _ _ => trivial).when
  · exact declarationStmt_reads
  · exact returnStmt_reads
  · exact forStmt_reads hs
  · exact whileStmt_reads hs
  · exact breakStmt_reads
  · exact expressionStmt_reads.when

theorem stmtWith_reads (hs : Reads n StmtPhrase MayFollow sub) :
    Reads (n + 1) StmtPhrase MayFollow (stmtWith sub .standard) := by
  refine reads_kind fun k => (formWith_reads hs k).convert_at (fun w s h => ?_) (fun s h => ?_)
    fun t v s ht h => ?_
  · exact stmtPhrase_of_phrase h
  · obtain ⟨_, _, hnil, -⟩ := h.starts
    cases hnil
  · rw [← ht]
    exact h.phrase

/-- **Statements are read as the grammar says.** -/
theorem stmt_reads : Reads n StmtPhrase MayFollow (stmt .standard) :=
  reads_recursive fun _ _ _ => stmtWith_reads

theorem block_reads {F : Follow Block} : Reads n BlockPhrase F (block .standard) :=
  (blockWith_reads stmt_reads).mono (Nat.le_succ n)

end Forms

end BantamJava
