/-
# Recovery makes nothing up

Whatever tokens a source has, the program that is parsed from them is made of them.
Each class has an interval of the tokens, these intervals are in the order of the
classes, and so it goes on inside: a class or a method consists of its header and its
braces, a statement of its words and its parts, each with an interval of its own, one
right behind another. Expressions, parameters, fields and the simple statements are
just what the grammar makes of the tokens of their intervals. Tokens that belong to no
node stand inside braces, between the statements or members that were kept, or between
classes: this is where recovery drops things, and it does nothing else. Only a closing
brace may be missing, and then it was reported.

Key definitions: `Stmt.isSimple`, `Transcript.KeptStmt`, `Transcript.KeptMember`,
`Transcript.KeptClass`.
Key theorems: `Transcript.keeps_stmt`, `Transcript.keeps_member`,
`Transcript.keeps_classDecl`, `parse_keeps_intervals`.
-/
import BantamJava.Proofs.Intervals.Basic

namespace BantamJava

open BantamJava.Parser

/-- Whether a statement has no statements in it. -/
def Stmt.isSimple : Stmt → Bool
  | .evaluate .. | .breakLoop .. | .returnWith .. | .declare .. => true
  | _ => false

namespace Transcript

variable (T : Transcript)

/-! ### What is kept -/

/-- The interval of a statement that was kept. -/
inductive KeptStmt : Span Stmt where
  | simple {i j : Nat} {s : Stmt} (hs : s.isSimple = true) (h : T.Phrase StmtPhrase i j s) :
      KeptStmt i j s
  | block {i a m j : Nat} {o : Token} {stmts : List Stmt} (ho : T.Sign .openCurly i a o)
      (hstmts : Listing KeptStmt a m stmts) (hclose : T.Closes m j) :
      KeptStmt i j (.block o.position stmts)
  | ifThen {i a b j : Nat} {t : Token} {test : Expr} {yes : Stmt}
      (ht : T.Sign .ifWord i a t) (htest : T.Phrase Condition a b test)
      (hyes : KeptStmt b j yes) : KeptStmt i j (.ifElse t.position test yes none)
  | ifElse {i a b c d j : Nat} {t l : Token} {test : Expr} {yes no : Stmt}
      (ht : T.Sign .ifWord i a t) (htest : T.Phrase Condition a b test)
      (hyes : KeptStmt b c yes) (hl : T.Sign .elseWord c d l) (hno : KeptStmt d j no) :
      KeptStmt i j (.ifElse t.position test yes (some no))
  | whileLoop {i a b j : Nat} {t : Token} {test : Expr} {body : Stmt}
      (ht : T.Sign .whileWord i a t) (htest : T.Phrase Condition a b test)
      (hbody : KeptStmt b j body) : KeptStmt i j (.whileLoop t.position test body)
  | forLoop {i a b c d e g m n j : Nat} {t o s s' r : Token} {init test update : Option Expr}
      {body : Stmt} (ht : T.Sign .forWord i a t) (ho : T.Sign .openParen a b o)
      (hinit : T.Phrase (Optional Expression) b c init) (hs : T.Sign .semicolon c d s)
      (htest : T.Phrase (Optional Expression) d e test) (hs' : T.Sign .semicolon e g s')
      (hupdate : T.Phrase (Optional Expression) g m update) (hr : T.Sign .closeParen m n r)
      (hbody : KeptStmt n j body) :
      KeptStmt i j (.forLoop t.position init test update body)

/-- The interval of a member that was kept. -/
inductive KeptMember : Span Member where
  | field {i j : Nat} {d : Field} (h : T.Phrase MemberPhrase i j (.field d)) :
      KeptMember i j (.field d)
  | method {i a b c d e j : Nat} {type : String} {params : List Formal} {stmts : List Stmt}
      {n o r q : Token} (htype : T.Phrase TypePhrase i a type) (hn : T.Sign .identifier a b n)
      (ho : T.Sign .openParen b c o) (hparams : T.Phrase (Listed FormalPhrase) c d params)
      (hr : T.Sign .closeParen d e r) (hbody : T.Braced T.KeptStmt e j q stmts) :
      KeptMember i j
        (.method ⟨type, n.value, params, ⟨stmts, q.position⟩, (T.tokenAt i).position⟩)

/-- The interval of a class that was kept. -/
inductive KeptClass : Span Class where
  | plain {i a b j : Nat} {t n o : Token} {members : List Member}
      (ht : T.Sign .classWord i a t) (hn : T.Sign .identifier a b n)
      (hbody : T.Braced T.KeptMember b j o members) :
      KeptClass i j ⟨n.value, none, members, t.position⟩
  | extending {i a b c d j : Nat} {t n x p o : Token} {members : List Member}
      (ht : T.Sign .classWord i a t) (hn : T.Sign .identifier a b n)
      (hx : T.Sign .extendsWord b c x) (hp : T.Sign .identifier c d p)
      (hbody : T.Braced T.KeptMember d j o members) :
      KeptClass i j ⟨n.value, some p.value, members, t.position⟩

variable {T} {sub : Parser Stmt}

/-- A statement that was kept has tokens: its parts, one right behind another, are inside
of it and apart from each other. -/
theorem KeptStmt.lt {i j : Nat} {s : Stmt} : T.KeptStmt i j s → i < j
  | .simple _ h => by
    obtain ⟨t, w, hslice, -⟩ := h.derives.starts
    have hlength := congrArg List.length hslice
    simp only [Transcript.slice, List.length_take, List.length_cons] at hlength
    omega
  | .block ho hstmts hclose => by
    have hopen := ho.next
    have hinside := hstmts.le
    have hends := hclose.le
    omega
  | .ifThen ht htest hyes => by
    have hif := ht.next
    have hcondition := htest.le
    have hbranch := hyes.lt
    omega
  | .ifElse ht htest hyes hl hno => by
    have hif := ht.next
    have hcondition := htest.le
    have hbranch := hyes.lt
    have helse := hl.next
    have hbranch' := hno.lt
    omega
  | .whileLoop ht htest hbody => by
    have hwhile := ht.next
    have hcondition := htest.le
    have hinside := hbody.lt
    omega
  | .forLoop ht ho hinit hs htest hs' hupdate hr hbody => by
    have hfor := ht.next
    have hparens := And.intro ho.next hr.next
    have hsemicolons := And.intro hs.next hs'.next
    have hinit := hinit.le
    have htest := htest.le
    have hupdate := hupdate.le
    have hinside := hbody.lt
    omega

/-! ### Phrases -/

theorem keeps_condition : T.Keeps (T.Phrase Condition) condition :=
  keeps_phrase (fun _ => condition_reads) (Trait.condition_has Trait.quiet_allows.unbraced.exprs)

theorem keeps_exprUnless {k : Kind} (hk : k = .semicolon ∨ k = .closeParen) :
    T.Keeps (T.Phrase (Optional Expression)) (exprUnless k) :=
  keeps_phrase (fun _ => exprUnless_reads hk)
    (Trait.exprUnless_has Trait.quiet_allows.unbraced.exprs k)

theorem keeps_parameters : T.Keeps (T.Phrase (Listed FormalPhrase)) parameters :=
  keeps_phrase (fun _ => parameters_reads) (Trait.parameters_has Trait.quiet_allows.unbraced.exprs)

theorem keeps_typeName : T.Keeps (T.Phrase TypePhrase) typeName :=
  keeps_phrase (fun _ => typeName_reads) (Trait.typeName_has Trait.quiet_allows.unbraced.exprs)

/-! ### Statements -/

/-- The forms without statements in them give simple statements. -/
theorem isSimple_of_phrase {form : StmtForm}
    (hform : form = .expression ∨ form = .breakLoop ∨ form = .returnValue ∨ form = .declaration)
    {w : List Token} {s : Stmt} (h : form.Phrase w s) : s.isSimple = true := by
  rcases hform with rfl | rfl | rfl | rfl
  · obtain ⟨t, _, -, v, _, e, -, -, m, _, -, -, -, rfl⟩ := h
    rfl
  · obtain ⟨t, _, -, -, m, _, -, -, -, rfl⟩ := h
    rfl
  · obtain ⟨t, _, -, -, v, _, value, -, -, m, _, -, -, -, rfl⟩ := h
    rfl
  · obtain ⟨t, _, -, -, n, _, -, -, a, _, -, -, v, _, e, -, -, m, _, -, -, -, rfl⟩ := h
    rfl

/-- A form of statements that is read without catching a fault. -/
theorem keepsIf_simple {P : Cursor → Prop} {form : StmtForm} {F : Follow Stmt} {p : Parser Stmt}
    (hform : form = .expression ∨ form = .breakLoop ∨ form = .returnValue ∨ form = .declaration)
    (hreads : ∀ n, ReadsIf (n + 1) P form.Phrase F p)
    (hquiet : ∀ c, P c → Trait.quiet.holds p c) : T.KeepsIf P T.KeptStmt p := by
  refine (keepsIf_phrase hreads hquiet).mono ?_
  intro i j s h
  exact .simple (isSimple_of_phrase hform h.derives) (h.map stmtPhrase_of_phrase)

section Forms

variable (hs : T.Keeps T.KeptStmt sub)

include hs

theorem keeps_blockWith :
    T.Keeps (fun i j b => ∃ o stmts, T.Braced T.KeptStmt i j o stmts ∧ b = ⟨stmts, o.position⟩)
      (blockWith sub) :=
  keeps_braced (keeps_recovering hs _) fun o stmts => (⟨stmts, o.position⟩ : Block)

theorem keepsIf_conditionalStmt :
    T.KeepsIf (Cursor.At .ifWord) T.KeptStmt (conditionalStmt sub) := by
  have helse : ∀ (t : Token) (test : Expr) (yes : Stmt), T.Keeps
      (fun i j s => (j = i ∧ s = Stmt.ifElse t.position test yes none) ∨
        ∃ d l no, T.Sign .elseWord i d l ∧ T.KeptStmt d j no ∧
          s = Stmt.ifElse t.position test yes (some no))
      (kind >>= fun k => if k = .elseWord then
          skip >>= fun _ => sub >>= fun no => pure (Stmt.ifElse t.position test yes (some no))
        else pure (Stmt.ifElse t.position test yes none)) := by
    intro t test yes
    refine keeps_kind fun k => ?_
    by_cases hk : k = .elseWord
    · rw [if_pos hk, hk]
      refine ((keepsIf_skip (by decide)).bind fun _ => hs.bind fun no => keeps_pure _).mono ?_
      rintro i j s ⟨d, -, ⟨l, hl⟩, _, no, hno, rfl, rfl⟩
      exact .inr ⟨d, l, no, hl, hno, rfl⟩
    · rw [if_neg hk]
      exact Keeps.when ((keeps_pure _).mono fun i j s h => .inl h)
  refine ((keepsIf_advance (by decide)).bind fun t => keeps_condition.bind fun test =>
    hs.bind fun yes => helse t test yes).mono ?_
  rintro i j s ⟨a, t, ht, b, test, htest, c, yes, hyes, ⟨rfl, rfl⟩ | ⟨d, l, no, hl, hno, rfl⟩⟩
  · exact .ifThen ht htest hyes
  · exact .ifElse ht htest hyes hl hno

theorem keepsIf_whileStmt : T.KeepsIf (Cursor.At .whileWord) T.KeptStmt (whileStmt sub) := by
  refine ((keepsIf_advance (by decide)).bind fun t => keeps_condition.bind fun test =>
    hs.bind fun body => keeps_pure _).mono ?_
  rintro i j _ ⟨a, t, ht, b, test, htest, m, body, hbody, rfl, rfl⟩
  exact .whileLoop ht htest hbody

theorem keepsIf_forStmt : T.KeepsIf (Cursor.At .forWord) T.KeptStmt (forStmt sub) := by
  refine ((keepsIf_advance (by decide)).bind fun t => (keeps_expect (by decide)).bind fun _ =>
    (keeps_exprUnless (.inl rfl)).bind fun init => (keeps_expect (by decide)).bind fun _ =>
    (keeps_exprUnless (.inl rfl)).bind fun test => (keeps_expect (by decide)).bind fun _ =>
    (keeps_exprUnless (.inr rfl)).bind fun update => (keeps_expect (by decide)).bind fun _ =>
    hs.bind fun body => keeps_pure _).mono ?_
  rintro i j _ ⟨a, t, ht, b, o, ho, c, init, hinit, d, s, hs, e, test, htest, g, s', hs',
    m, update, hupdate, n, r, hr, _, body, hbody, rfl, rfl⟩
  exact .forLoop ht ho hinit hs htest hs' hupdate hr hbody

theorem keepsIf_formWith (k : Kind) :
    T.KeepsIf (Cursor.At k) T.KeptStmt (formWith sub (StmtTable.standard.form k)) := by
  unfold StmtTable.form StmtTable.standard
  split
  · exact keepsIf_conditionalStmt hs
  · refine Keeps.when (((keeps_blockWith hs).bind fun b => keeps_pure _).mono ?_)
    rintro i j _ ⟨_, _, ⟨o, stmts, ⟨a, m, ho, hstmts, hclose⟩, rfl⟩, rfl, rfl⟩
    exact .block ho hstmts hclose
  · exact keepsIf_simple (by decide) (fun _ => declarationStmt_reads (F := fun _ _ => True))
      (Trait.declarationStmt_has Trait.quiet_allows.unbraced)
  · exact keepsIf_simple (by decide) (fun _ => returnStmt_reads (F := fun _ _ => True))
      (Trait.returnStmt_has Trait.quiet_allows.unbraced)
  · exact keepsIf_forStmt hs
  · exact keepsIf_whileStmt hs
  · exact keepsIf_simple (by decide) (fun _ => breakStmt_reads (F := fun _ _ => True))
      (Trait.breakStmt_has Trait.quiet_allows.unbraced)
  · exact keepsIf_simple (by decide) (fun _ => (expressionStmt_reads (F := fun _ _ => True)).when)
      (fun c _ => Trait.expressionStmt_has Trait.quiet_allows.unbraced c)

end Forms

/-- **Statements keep to the intervals of their tokens.** -/
theorem keeps_stmt : T.Keeps T.KeptStmt (stmt .standard) :=
  keeps_recursive fun _ hs => keeps_kind fun k => keepsIf_formWith hs k

/-! ### Members -/

variable (T) in
/-- The interval of the rest of a method, from its opening parenthesis on. -/
def MethodRest (p : Position) (type name : String) : Span Method :=
  fun i j m => ∃ a b c params o r q stmts, T.Sign .openParen i a o ∧
    T.Phrase (Listed FormalPhrase) a b params ∧ T.Sign .closeParen b c r ∧
    T.Braced T.KeptStmt c j q stmts ∧ m = ⟨type, name, params, ⟨stmts, q.position⟩, p⟩

theorem keepsIf_methodRest (p : Position) (type name : String) :
    T.KeepsIf (Cursor.At .openParen) (T.MethodRest p type name)
      (methodRest .standard p type name) := by
  refine KeepsIf.after_note rfl (((keepsIf_skip (by decide)).bind fun _ =>
    keeps_parameters.bind fun params => (keeps_expect (by decide)).bind fun _ =>
    (keeps_blockWith keeps_stmt).bind fun body => keeps_pure _).mono ?_)
  rintro i j m ⟨a, -, ⟨o, ho⟩, b, params, hparams, c, r, hr, _, _, ⟨q, stmts, hbody, rfl⟩, rfl, rfl⟩
  exact ⟨a, b, c, params, o, r, q, stmts, ho, hparams, hr, hbody, rfl⟩

theorem keeps_fieldRest (p : Position) (type name : String) :
    T.Keeps (T.Phrase (fieldLang p type name)) (fieldRest p type name) :=
  keeps_phrase (fun _ => fieldRest_reads (F := fun _ _ => True) p type name)
    (Trait.fieldRest_has (fun _ => trivial) p type name)

/-- The type, the name and the rest of a field make a member of the grammar. -/
theorem phrase_field {i a b j : Nat} {type : String} {n : Token} {d : Field}
    (htype : T.Phrase TypePhrase i a type) (hn : T.Sign .identifier a b n)
    (hd : T.Phrase (fieldLang (T.tokenAt i).position type n.value) b j d) :
    T.Phrase MemberPhrase i j (.field d) := by
  have hrest : T.Phrase (memberRest (T.tokenAt i).position type n.value) b j (.field d) :=
    ⟨hd.le, hd.bound, .inr ⟨d, hd.derives, rfl⟩⟩
  have hseq := htype.seq (H := fun type => Lang.token .identifier fun n =>
    memberRest (T.tokenAt i).position type n.value) (hn.phrase hrest)
  obtain ⟨t, w, hslice, -⟩ := htype.derives.starts
  have hwhole : T.slice i j = t :: (w ++ T.slice a j) := by
    rw [slice_append htype.le (Nat.le_trans hn.le hd.le), hslice]
    rfl
  refine hseq.map fun h => ?_
  rw [tokenAt_of_slice hslice, hwhole] at h
  rw [hwhole]
  exact memberPhrase_iff.2 (typed_iff.1 h)

/-- **Members keep to the intervals of their tokens.** -/
theorem keeps_member : T.Keeps T.KeptMember (member .standard) := by
  have hrest : ∀ (p : Position) (type name : String), T.Keeps
      (fun i j m => (∃ f, T.MethodRest p type name i j f ∧ m = Member.method f) ∨
        ∃ d, T.Phrase (fieldLang p type name) i j d ∧ m = Member.field d)
      (kind >>= fun k => if k = .openParen then
          methodRest .standard p type name >>= fun f => pure (Member.method f)
        else fieldRest p type name >>= fun d => pure (Member.field d)) := by
    intro p type name
    refine keeps_kind fun k => ?_
    by_cases hk : k = .openParen
    · rw [if_pos hk, hk]
      refine ((keepsIf_methodRest p type name).bind fun f => keeps_pure (Member.method f)).mono ?_
      rintro i j m ⟨_, f, hf, rfl, rfl⟩
      exact .inl ⟨f, hf, rfl⟩
    · rw [if_neg hk]
      refine Keeps.when (((keeps_fieldRest p type name).bind fun d =>
        keeps_pure (Member.field d)).mono ?_)
      rintro i j m ⟨_, d, hd, rfl, rfl⟩
      exact .inr ⟨d, hd, rfl⟩
  refine (keeps_current.bind fun t => keeps_typeName.bind fun type =>
    keeps_identifier.bind fun name => hrest t.position type name).mono ?_
  rintro i j m ⟨_, _, ⟨rfl, rfl⟩, a, type, htype, b, _, ⟨n, hn, rfl⟩, hcases⟩
  rcases hcases with ⟨f, hf, rfl⟩ | ⟨d, hd, rfl⟩
  · obtain ⟨c, d, e, params, o, r, q, stmts, ho, hparams, hr, hbody, rfl⟩ := hf
    exact .method htype hn ho hparams hr hbody
  · exact .field (phrase_field htype hn hd)

/-! ### Classes -/

theorem keeps_extendsClause :
    T.Keeps (fun i j parent => (j = i ∧ parent = none) ∨
      ∃ a x p, T.Sign .extendsWord i a x ∧ T.Sign .identifier a j p ∧ parent = some p.value)
      extendsClause := by
  refine keeps_kind fun k => ?_
  by_cases hk : k = .extendsWord
  · rw [if_pos hk, hk]
    refine ((keepsIf_skip (by decide)).bind fun _ => keeps_identifier.bind fun parent =>
      keeps_pure (some parent)).mono ?_
    rintro i j _ ⟨a, -, ⟨x, hx⟩, _, _, ⟨p, hp, rfl⟩, rfl, rfl⟩
    exact .inr ⟨a, x, p, hx, hp, rfl⟩
  · rw [if_neg hk]
    exact Keeps.when ((keeps_pure none).mono fun i j parent h => .inl h)

/-- **Classes keep to the intervals of their tokens.** -/
theorem keeps_classDecl : T.Keeps T.KeptClass (classDecl .standard) := by
  have hbody : ∀ (t : Token) (name : String) (parent : Option String), T.Keeps
      (fun i j k => ∃ o ms, T.Braced T.KeptMember i j o ms ∧ k = ⟨name, parent, ms, t.position⟩)
      (note (.enteredClass name) >>= fun _ => expect .openCurly >>= fun _ =>
        members .standard >>= fun ms => closeBody >>= fun _ =>
        pure (⟨name, parent, ms, t.position⟩ : Class)) := by
    intro t name parent
    refine KeepsIf.after_note rfl ?_
    exact keeps_braced (keeps_recovering keeps_member resumeMember) fun _ ms =>
      (⟨name, parent, ms, t.position⟩ : Class)
  refine ((keeps_expect (by decide)).bind fun t => keeps_identifier.bind fun name =>
    keeps_extendsClause.bind fun parent => hbody t name parent).mono ?_
  rintro i j _ ⟨a, t, ht, b, _, ⟨n, hn, rfl⟩, c, parent, hparent, o, ms, hms, rfl⟩
  rcases hparent with ⟨rfl, rfl⟩ | ⟨d, x, p, hx, hp, rfl⟩
  · exact .plain ht hn hms
  · exact .extending ht hn hx hp hms

/-! ### Programs -/

theorem keeps_classes :
    T.Keeps (fun i j classes => Listing T.KeptClass i j classes) (classes .standard) :=
  (keeps_collect _ (keeps_recovering keeps_classDecl _)).mono fun _ _ _ h => h.1

theorem along_ofSource {s : Source} (hs : faultsAhead s.items = []) (told : List Fault) :
    (⟨s.tokens, s.last, told⟩ : Transcript).Along (Cursor.ofSource s).1 := by
  have hfaults := Cursor.faultsAhead_pull s.finish s.items
  rw [hs] at hfaults
  constructor
  · exact Nat.zero_le _
  · exact Cursor.upcoming_ofSource s
  · exact Cursor.endAhead_pull s.finish s.items
  · exact (List.append_eq_nil_iff.1 hfaults.symm).2

end Transcript

/-! ### One tree for a phrase -/

/-- The language gives the same tokens no two values. -/
def Unambiguous {α : Type} (D : Lang α) : Prop :=
  ∀ w a b, (∀ t ∈ w, t.kind ≠ .endOfInput) → D w a → D w b → b = a

/-- **What is read can be read in one way only**, if it may stand at the end of the
input: there the parser finds any value that the language gives. -/
theorem unambiguous_of_reads {α : Type} {D : Lang α} {F : Follow α} {p : Parser α}
    (hreads : ∀ n, Reads n D F p) (hF : ∀ a, F a none) : Unambiguous D := by
  intro w a b hw ha hb
  let source : Source := ⟨w.map .token, .atEnd .start, rfl⟩
  let c := (Cursor.ofSource source).1
  have hup : c.upcoming = w ++ [] := by
    rw [List.append_nil]
    exact (Cursor.upcoming_ofSource source).trans (Cursor.tokensAhead_tokens hw)
  have hpending : c.pending = [] :=
    (Transcript.along_ofSource (s := source) (Cursor.faultsAhead_tokens w) []).quiet
  have hread := hreads (c.left + 1) c hpending (Nat.lt_succ_self _) trivial
  cases htrouble : (p c).trouble? with
  | some found =>
    -- a fault would exclude these very tokens
    obtain ⟨i, -, -, -, -, hno⟩ := hread.fault found.1 found.2 htrouble
    exact absurd (by rw [hup]) (hno w a [] ha (hF a))
  | none =>
    obtain ⟨found, hfound, -⟩ := Reply.exists_ok_of_trouble?_eq_none htrouble
    have hunique := fun x hx =>
      (hread.unique found htrouble hfound w x [] hx (hF x) (by rw [hup])).2
    rw [hunique a ha, hunique b hb]

/-- **Recovery makes nothing up.** Whatever the tokens are, each class of the program
that is parsed from them was kept with an interval of the tokens, these intervals are in
the order of the classes and apart from each other, and so it goes on inside the
classes. No statement has an empty interval. Where this comes down to phrases of the
grammar, the grammar gives one value to the tokens of a phrase and no other. -/
theorem parse_keeps_intervals (file : String) (us : List Token) (e : EndToken) :
    let source : Source := ⟨us.map .token, e⟩
    let parsed := (Session.start file source).parse
    let T : Transcript := ⟨source.tokens, source.last, parsed.2.diagnostics.map (·.fault)⟩
    Listing T.KeptClass 0 source.tokens.length parsed.1.classes ∧
      (∀ i j s, T.KeptStmt i j s → i < j) ∧
      Unambiguous Expression ∧ Unambiguous TypePhrase ∧ Unambiguous FormalPhrase ∧
      Unambiguous StmtPhrase ∧ Unambiguous MemberPhrase := by
  intro source parsed T
  refine ⟨?_, fun _ _ _ h => h.lt, unambiguous_of_reads (fun _ => expr_reads) (fun _ => nofun),
    unambiguous_of_reads (fun _ => typeName_reads) (fun _ => nofun),
    unambiguous_of_reads (fun _ => formal_reads (F := fun _ _ => True)) (fun _ => trivial),
    unambiguous_of_reads (fun _ => stmt_reads) (fun _ => nofun),
    unambiguous_of_reads (fun _ => member_reads (F := fun _ _ => True)) (fun _ => trivial)⟩
  obtain ⟨cs, hcs⟩ := (classes_ends .standard (Session.start file source).cursor).1
  have hfaults : T.told = _ := Session.faults_parse (s := Session.start file source) hcs
  have halong : T.Along (Session.start file source).cursor :=
    Transcript.along_ofSource (Cursor.faultsAhead_tokens us) T.told
  have hlisting := Transcript.keeps_classes _ halong trivial (fun f hf => ?_) cs hcs
  · rw [show parsed.1.classes = cs from Session.classes_parse hcs]
    exact hlisting.widen_right (halong.reaches ((classes .standard).reaches _)).bound
  · rw [hfaults]
    exact List.mem_append_right _ hf

end BantamJava
