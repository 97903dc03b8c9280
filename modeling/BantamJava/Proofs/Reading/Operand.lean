/-
# Reading operands

The parts of expressions without an operator between two operands: names with
what follows them, chains of names, operators before and behind an operand, and
new objects and casts. Each parser reads the language of its level, if the
parser `sub` that it takes for nested expressions reads the language of
expressions. Nested expressions stand behind a consumed token, so the recursion
will close.

At each point the next token decides how a phrase goes on: the kinds of tokens
with which the alternatives start differ (`ExprPhrase.starts`), and so do the
kinds that may stand behind a phrase (`Ends`).

Key definitions: `exprKinds`, `DotRest`.
Key theorems: `ExprPhrase.starts`, `primaryBase_reads`, `dotted_iff`,
`primaryWith_reads`, `signed_reads`, `operand_reads`.
-/
import BantamJava.Parsing.Expr
import BantamJava.Proofs.Reading.Chain

namespace BantamJava

/-! ### How expressions start -/

/-- The kinds of tokens with which a chain of names starts. -/
def baseKinds : List Kind :=
  [.openParen, .number, .string, .boolean, .thisWord, .superWord, .identifier]

/-- The kinds of operators before an operand. -/
def signKinds : List Kind := [.dash, .not, .plusPlus, .minusMinus]

/-- The kinds of tokens with which an expression starts. -/
def exprKinds : List Kind := baseKinds ++ signKinds ++ [.newWord, .castWord]

theorem ExprPhrase.starts_base {w : List Token} {e : Expr} (h : ExprPhrase .base w e) :
    Starts baseKinds w := by
  cases h with
  | parens ho _ _ => exact ⟨_, _, rfl, by simp [baseKinds, ho]⟩
  | integer ht _ => exact ⟨_, _, rfl, by simp [baseKinds, ht]⟩
  | string ht => exact ⟨_, _, rfl, by simp [baseKinds, ht]⟩
  | boolean ht => exact ⟨_, _, rfl, by simp [baseKinds, ht]⟩
  | this ht => exact ⟨_, _, rfl, by simp [baseKinds, ht]⟩
  | super ht => exact ⟨_, _, rfl, by simp [baseKinds, ht]⟩
  | name ht _ => exact ⟨_, _, rfl, by simp [baseKinds, ht]⟩

theorem ExprPhrase.starts_primary {w : List Token} {e : Expr} (h : ExprPhrase .primary w e) :
    Starts baseKinds w := by
  cases h with
  | chain h => exact h.starts fun _ _ => starts_base

theorem ExprPhrase.starts_stepped {w : List Token} {e : Expr} (h : ExprPhrase .stepped w e) :
    Starts baseKinds w := by
  cases h with
  | postIncr h _ => exact h.starts_primary.append _
  | postDecr h _ => exact h.starts_primary.append _
  | unstepped h => exact h.starts_primary

theorem ExprPhrase.starts_signed {w : List Token} {e : Expr} (h : ExprPhrase .signed w e) :
    Starts (baseKinds ++ signKinds) w := by
  cases h with
  | negative ht _ => exact ⟨_, _, rfl, by simp [signKinds, ht]⟩
  | not ht _ => exact ⟨_, _, rfl, by simp [signKinds, ht]⟩
  | preIncr ht _ => exact ⟨_, _, rfl, by simp [signKinds, ht]⟩
  | preDecr ht _ => exact ⟨_, _, rfl, by simp [signKinds, ht]⟩
  | unsigned h => exact h.starts_stepped.mono (by simp)

theorem ExprPhrase.starts_operand {w : List Token} {e : Expr} (h : ExprPhrase .operand w e) :
    Starts exprKinds w := by
  cases h with
  | newObject ht _ _ _ => exact ⟨_, _, rfl, by simp [exprKinds, ht]⟩
  | newArray ht _ _ _ _ => exact ⟨_, _, rfl, by simp [exprKinds, ht]⟩
  | cast ht _ _ _ _ _ => exact ⟨_, _, rfl, by simp [exprKinds, ht]⟩
  | signed h => exact h.starts_signed.mono (by simp [exprKinds])

theorem ExprPhrase.starts_product {w : List Token} {e : Expr} (h : ExprPhrase .product w e) :
    Starts exprKinds w := by
  cases h with
  | product h => exact h.starts fun _ _ => starts_operand

theorem ExprPhrase.starts_sum {w : List Token} {e : Expr} (h : ExprPhrase .sum w e) :
    Starts exprKinds w := by
  cases h with
  | sum h => exact h.starts fun _ _ => starts_product

theorem ExprPhrase.starts_comparison {w : List Token} {e : Expr}
    (h : ExprPhrase .comparison w e) : Starts exprKinds w := by
  cases h with
  | comparison h => exact h.starts fun _ _ => starts_sum
  | instanceOf h _ _ => exact h.starts_sum.append _

theorem ExprPhrase.starts_disjunction {w : List Token} {e : Expr}
    (h : ExprPhrase .disjunction w e) : Starts exprKinds w := by
  cases h with
  | disjunction h =>
    refine h.starts fun _ _ h => ?_
    cases h with
    | conjunction h =>
      refine h.starts fun _ _ h => ?_
      cases h with
      | equality h => exact h.starts fun _ _ => starts_comparison

/-- **An expression starts with one of these tokens.** -/
theorem ExprPhrase.starts {w : List Token} {e : Expr} (h : Expression w e) :
    Starts exprKinds w := by
  cases h with
  | plain h => exact h.starts_disjunction
  | assign h _ _ _ => exact h.starts_disjunction.append _

/-! ### Something to say at each level -/

instance (l : ExprLevel) : Viable (ExprPhrase l) := by
  have hbase : ExprPhrase .base [.sample .identifier] _ := .name rfl .nothing
  have hprimary : ExprPhrase .primary _ _ := .chain (.start hbase)
  have hstepped : ExprPhrase .stepped _ _ := .unstepped hprimary
  have hsigned : ExprPhrase .signed _ _ := .unsigned hstepped
  have hoperand : ExprPhrase .operand _ _ := .signed hsigned
  have hproduct : ExprPhrase .product _ _ := .product (.first hoperand)
  have hsum : ExprPhrase .sum _ _ := .sum (.first hproduct)
  have hcomparison : ExprPhrase .comparison _ _ := .comparison (.one hsum)
  have hequality : ExprPhrase .equality _ _ := .equality (.one hcomparison)
  have hconjunction : ExprPhrase .conjunction _ _ := .conjunction (.first hequality)
  have hdisjunction : ExprPhrase .disjunction _ _ := .disjunction (.first hconjunction)
  have hassignment : ExprPhrase .assignment _ _ := .plain hdisjunction
  cases l with
  | assignment => exact ⟨_, _, hassignment⟩
  | disjunction => exact ⟨_, _, hdisjunction⟩
  | conjunction => exact ⟨_, _, hconjunction⟩
  | equality => exact ⟨_, _, hequality⟩
  | comparison => exact ⟨_, _, hcomparison⟩
  | sum => exact ⟨_, _, hsum⟩
  | product => exact ⟨_, _, hproduct⟩
  | operand => exact ⟨_, _, hoperand⟩
  | signed => exact ⟨_, _, hsigned⟩
  | stepped => exact ⟨_, _, hstepped⟩
  | primary => exact ⟨_, _, hprimary⟩
  | base => exact ⟨_, _, hbase⟩

instance (D : Lang Expr) : Viable (SuffixPhrase D) := ⟨[], .nothing, .nothing⟩

/-! ### Arguments -/

section Levels

open BantamJava.Parser

variable {n : Nat} {sub : Parser Expr}

theorem not_expression_nil (e : Expr) : ¬ Expression [] e :=
  fun h => h.starts.ne_nil rfl

theorem argumentsWith_reads (hs : Reads n Expression (ends 1) sub) :
    Reads n (Listed Expression) (fun _ => Before .closeParen) (argumentsWith sub) := by
  refine listed_reads (fun w e h => ?_) (fun e t ht => ?_) hs
  · obtain ⟨t, v, rfl, ht⟩ := h.starts
    refine ⟨t, v, rfl, fun hk => ?_⟩
    rw [hk] at ht
    simp [exprKinds, baseKinds, signKinds] at ht
  · rcases ht with ht | ht
    · exact ends_of_kind (by decide) t ht
    · exact ends_of_kind (by decide) t ht

/-! ### Names -/

theorem SuffixPhrase.of_nil {D : Lang Expr} {s : Suffix} (h : SuffixPhrase D [] s) :
    s = .nothing := by
  cases h with
  | nothing => rfl

/-- What the first token says of what follows a name. -/
theorem SuffixPhrase.cons_cases {D : Lang Expr} {t : Token} {v : List Token} {s : Suffix}
    (h : SuffixPhrase D (t :: v) s) :
    match t.kind with
    | .openParen => ∃ w c args, v = w ++ [c] ∧ Listed D w args ∧ c.kind = .closeParen ∧
        s = .arguments args
    | .openBracket => ∃ w c i, v = w ++ [c] ∧ D w i ∧ c.kind = .closeBracket ∧ s = .index i
    | _ => False := by
  cases h with
  | arguments ho hargs hc =>
    rw [ho]
    exact ⟨_, _, _, rfl, hargs, hc, rfl⟩
  | index ho hi hc =>
    rw [ho]
    exact ⟨_, _, _, rfl, hi, hc, rfl⟩

theorem nameSuffix_reads (hs : Reads n Expression (ends 1) sub) (receiver : Option Expr)
    (name : String) (p : Position) :
    Reads (n + 1) (Lang.mapped (Suffix.attach p receiver name) (SuffixPhrase Expression)) (ends 10)
      (nameSuffix sub receiver name p) := by
  refine reads_kind fun k => ?_
  split
  · refine ReadsIf.convert_opt (G := Lang.token .openParen fun _ =>
        Lang.seq (Listed Expression) fun args =>
          Lang.token .closeParen fun _ => Lang.unit (.call p receiver name args))
      (readsIf_skip_bind (by decide) ((argumentsWith_reads hs).bind
        (fun args => reads_expect_then (by decide) fun _ => reads_pure _)
        fun args => leads_token before_of_kind)) (by decide)
      (fun w e hw => ?_) (fun e t _ ht => not_ends_of_kind (by decide) t ht) fun t v e ht h => ?_
    · obtain ⟨o, _, rfl, ho, v, _, args, rfl, hargs, c, _, rfl, hc, rfl, rfl⟩ := hw
      exact ⟨_, .arguments ho hargs hc, rfl⟩
    · obtain ⟨s, hs, rfl⟩ := h
      have hcases := hs.cons_cases
      rw [ht] at hcases
      obtain ⟨w, c, args, rfl, hargs, hc, rfl⟩ := hcases
      exact ⟨_, _, rfl, ht, _, _, _, rfl, hargs, _, _, rfl, hc, rfl, rfl⟩
  · refine ReadsIf.convert_opt (G := Lang.token .openBracket fun _ =>
        Lang.seq Expression fun index =>
          Lang.token .closeBracket fun _ => Lang.unit (.element p receiver name index))
      (readsIf_skip_bind (by decide) (hs.bind
        (fun index => reads_expect_then (by decide) fun _ => reads_pure _)
        fun index => leads_token (ends_of_kind (by decide)))) (by decide)
      (fun w e hw => ?_) (fun e t _ ht => not_ends_of_kind (by decide) t ht) fun t v e ht h => ?_
    · obtain ⟨o, _, rfl, ho, v, _, index, rfl, hindex, c, _, rfl, hc, rfl, rfl⟩ := hw
      exact ⟨_, .index ho hindex hc, rfl⟩
    · obtain ⟨s, hs, rfl⟩ := h
      have hcases := hs.cons_cases
      rw [ht] at hcases
      obtain ⟨w, c, index, rfl, hindex, hc, rfl⟩ := hcases
      exact ⟨_, _, rfl, ht, _, _, _, rfl, hindex, _, _, rfl, hc, rfl, rfl⟩
  · next hparen hbracket =>
    refine (reads_pure _).when.convert (fun c _ w e hw _ => ?_)
      fun c hc w e x hw hx hhead => ⟨?_, hx⟩
    · obtain ⟨rfl, rfl⟩ := hw
      exact ⟨_, .nothing, rfl⟩
    · obtain ⟨s, hs, rfl⟩ := hw
      cases w with
      | nil => exact ⟨rfl, by rw [hs.of_nil]; rfl⟩
      | cons t v =>
        have hcases := hs.cons_cases
        rw [hc.kind_of_head? hhead.symm] at hcases
        split at hcases
        · exact absurd rfl hparen
        · exact absurd rfl hbracket
        · exact hcases.elim

/-! ### Chains of names -/

theorem not_base_nil (e : Expr) : ¬ ExprPhrase .base [] e :=
  fun h => h.starts_base.ne_nil rfl

/-- What the first token says of the start of a chain. -/
theorem ExprPhrase.base_cases {t : Token} {v : List Token} {e : Expr}
    (h : ExprPhrase .base (t :: v) e) :
    match t.kind with
    | .openParen => ∃ w c, v = w ++ [c] ∧ Expression w e ∧ c.kind = .closeParen
    | .number => v = [] ∧ ∃ m, readInteger? t.value = some m ∧ e = .int t.position m
    | .string => v = [] ∧ e = .string t.position t.value
    | .boolean => v = [] ∧ e = .bool t.position (t.value == "true")
    | .thisWord => v = [] ∧ e = .var t.position none t.value
    | .superWord => v = [] ∧ e = .var t.position none t.value
    | .identifier => ∃ s, SuffixPhrase Expression v s ∧ e = s.attach t.position none t.value
    | _ => False := by
  cases h with
  | parens ho he hc => rw [ho]; exact ⟨_, _, rfl, he, hc⟩
  | integer ht hm => rw [ht]; exact ⟨rfl, _, hm, rfl⟩
  | string ht => rw [ht]; exact ⟨rfl, rfl⟩
  | boolean ht => rw [ht]; exact ⟨rfl, rfl⟩
  | this ht => rw [ht]; exact ⟨rfl, rfl⟩
  | super ht => rw [ht]; exact ⟨rfl, rfl⟩
  | name ht hs => rw [ht]; exact ⟨_, hs, rfl⟩

/-- The value of a number is read when its token has been consumed, so a number
out of range is one token back. -/
theorem integerConstant_reads :
    ReadsIf n (Cursor.At .number) (fun w e => ∃ t m, w = [t] ∧ t.kind = .number ∧
      readInteger? t.value = some m ∧ e = .int t.position m) (ends 10) integerConstant := by
  intro c hc _ hP
  have hk : c.current.kind ≠ .endOfInput := by rw [show c.current.kind = _ from hP]; decide
  have hconsumed : consumedIn (advance c).events = [c.current] := Cursor.consumedIn_advance hk
  have hquiet : firstReport (advance c).events = none := trouble?_advance hc
  rw [integerConstant, run_bind_ok (p := advance) (a := c.current) _ rfl]
  cases hm : readInteger? c.current.value with
  | some m =>
    simp only [run_pure, List.append_nil]
    refine ⟨fun e _ he => ?_, fun e _ he w e' x hw _ heq => ?_, fun i f h => ?_⟩
    · obtain rfl := Except.ok.inj he
      exact ⟨c.current, m, hconsumed, hP, hm, rfl⟩
    · obtain rfl := Except.ok.inj he
      obtain ⟨t, m', rfl, -, hm', rfl⟩ := hw
      obtain rfl := eq_current_of_head? (head?_eq_of_take heq).symm
      rw [hm] at hm'
      obtain rfl := Option.some.inj hm'
      exact ⟨hconsumed.symm, rfl⟩
    · rw [Reply.trouble?_ok, hquiet] at h
      cases h
  | none =>
    simp only [run_fail, List.append_nil]
    refine ⟨fun e _ he => ?_, fun e _ he => ?_, fun i f h => ?_⟩
    · cases he
    · cases he
    · simp only [Reply.trouble?, Reply.journal, firstReport_append_of_none hquiet, hconsumed,
        firstReport, Option.map_some, Option.some.injEq, Prod.mk.injEq] at h
      obtain ⟨rfl, rfl⟩ := h
      refine ⟨0, rfl, Nat.zero_le _, rfl, ?_, fun w e x hw _ heq => ?_⟩
      · exact ⟨_, _, ⟨.number, "0", .start⟩, 0, rfl, rfl, by decide, rfl⟩
      · obtain ⟨t, m', rfl, -, hm', rfl⟩ := hw
        obtain rfl := eq_current_of_head? (head?_eq_of_take heq).symm
        rw [hm] at hm'
        cases hm'

/-- A chain that starts with a token that says it all. -/
theorem constant_reads {k : Kind} (hk : k ≠ .endOfInput) {make : Token → Expr}
    (hto : ∀ t, t.kind = k → ExprPhrase .base [t] (make t))
    (hof : ∀ t v e, t.kind = k → ExprPhrase .base (t :: v) e → v = [] ∧ e = make t) :
    ReadsIf (n + 1) (Cursor.At k) (ExprPhrase .base) (ends 10)
      (advance >>= fun t => pure (make t)) := by
  refine ReadsIf.convert_at (G := Lang.token k fun t => Lang.unit (make t))
    (readsIf_advance_bind hk fun t => reads_pure _) (fun w e hw => ?_) not_base_nil
    fun t v e ht h => ?_
  · obtain ⟨t, _, rfl, ht, rfl, rfl⟩ := hw
    exact hto t ht
  · obtain ⟨rfl, rfl⟩ := hof t v e ht h
    exact ⟨_, _, rfl, ht, rfl, rfl⟩

theorem primaryBase_reads (hs : Reads n Expression (ends 1) sub) :
    Reads (n + 1) (ExprPhrase .base) (ends 10) (primaryBase sub) := by
  refine reads_kind fun k => ?_
  split
  · refine ReadsIf.convert_at (G := Lang.token .openParen fun _ => Lang.seq Expression fun e =>
        Lang.token .closeParen fun _ => Lang.unit e)
      (readsIf_skip_bind (by decide) (hs.bind
        (fun e => reads_expect_then (by decide) fun _ => reads_pure _)
        fun e => leads_token (ends_of_kind (by decide)))) (fun w e hw => ?_) not_base_nil
      fun t v e ht h => ?_
    · obtain ⟨o, _, rfl, ho, v, _, e, rfl, he, c, _, rfl, hc, rfl, rfl⟩ := hw
      exact .parens ho he hc
    · have hcases := h.base_cases
      rw [ht] at hcases
      obtain ⟨w, c, rfl, he, hc⟩ := hcases
      exact ⟨_, _, rfl, ht, _, _, _, rfl, he, _, _, rfl, hc, rfl, rfl⟩
  · refine ReadsIf.convert_at integerConstant_reads (fun w e hw => ?_) not_base_nil
      fun t v e ht h => ?_
    · obtain ⟨t, m, rfl, ht, hm, rfl⟩ := hw
      exact .integer ht hm
    · have hcases := h.base_cases
      rw [ht] at hcases
      obtain ⟨rfl, m, hm, rfl⟩ := hcases
      exact ⟨_, _, rfl, ht, hm, rfl⟩
  · exact constant_reads (by decide) (fun t ht => .string ht) fun t v e ht h => by
      have hcases := h.base_cases
      rwa [ht] at hcases
  · exact constant_reads (by decide) (fun t ht => .boolean ht) fun t v e ht h => by
      have hcases := h.base_cases
      rwa [ht] at hcases
  · exact constant_reads (by decide) (fun t ht => .this ht) fun t v e ht h => by
      have hcases := h.base_cases
      rwa [ht] at hcases
  · exact constant_reads (by decide) (fun t ht => .super ht) fun t v e ht h => by
      have hcases := h.base_cases
      rwa [ht] at hcases
  · refine ReadsIf.convert_at (G := Lang.token .identifier fun t =>
        Lang.mapped (Suffix.attach t.position none t.value) (SuffixPhrase Expression))
      (readsIf_advance_then (by decide) fun t => nameSuffix_reads hs none t.value t.position)
      (fun w e hw => ?_) not_base_nil fun t v e ht h => ?_
    · obtain ⟨t, v, rfl, ht, s, hs, rfl⟩ := hw
      exact .name ht hs
    · have hcases := h.base_cases
      rw [ht] at hcases
      obtain ⟨s, hs, rfl⟩ := hcases
      exact ⟨_, _, rfl, ht, _, hs, rfl⟩
  · next h1 h2 h3 h4 h5 h6 h7 =>
    refine readsIf_failHere (fun _ _ => rfl) fun c hc w e x hw _ hhead => ?_
    cases w with
    | nil => exact not_base_nil e hw
    | cons t v =>
      have hk := hc.kind_of_head? hhead.symm
      have hmem := hw.starts_base.kind_mem
      rw [hk] at hmem
      simp only [baseKinds, List.mem_cons, List.not_mem_nil, or_false] at hmem
      rcases hmem with h | h | h | h | h | h | h
      · exact h1 h
      · exact h2 h
      · exact h3 h
      · exact h4 h
      · exact h5 h
      · exact h6 h
      · exact h7 h

/-- What follows a receiver. -/
inductive DotRest (D : Lang Expr) : Expr → Lang Expr where
  | nil {r : Expr} : DotRest D r [] r
  | cons {v w : List Token} {r b : Expr} {s : Suffix} {t n : Token} :
      t.kind = .dot → n.kind = .identifier → SuffixPhrase D v s →
      DotRest D (s.attach r.position (some r) n.value) w b → DotRest D r (t :: n :: (v ++ w)) b

instance (D : Lang Expr) (r : Expr) : Viable (DotRest D r) := ⟨[], r, .nil⟩

theorem DotRest.snoc {D : Lang Expr} {r e : Expr} {w v : List Token} {s : Suffix} {t m : Token}
    (h : DotRest D r w e) (ht : t.kind = .dot) (hm : m.kind = .identifier)
    (hs : SuffixPhrase D v s) :
    DotRest D r (w ++ t :: m :: v) (s.attach e.position (some e) m.value) := by
  induction h with
  | nil =>
    rw [List.nil_append, ← List.append_nil v]
    exact .cons ht hm hs .nil
  | cons ht' hm' hs' _ ih =>
    rw [List.cons_append, List.cons_append, List.append_assoc]
    exact .cons ht' hm' hs' ih

theorem DotRest.prepend {B D : Lang Expr} {r e : Expr} {w : List Token} (h : DotRest D r w e)
    {v : List Token} (hv : Dotted B D v r) : Dotted B D (v ++ w) e := by
  induction h generalizing v with
  | nil =>
    rw [List.append_nil]
    exact hv
  | cons ht hm hs _ ih =>
    have := ih (.dot hv ht hm hs)
    rwa [List.append_assoc] at this

/-- A chain of names may be taken apart at its first dot. -/
theorem dotted_iff {B D : Lang Expr} {w : List Token} {e : Expr} :
    Dotted B D w e ↔ Lang.seq B (DotRest D) w e := by
  constructor
  · intro h
    induction h with
    | start h => exact ⟨_, [], _, (List.append_nil _).symm, h, .nil⟩
    | dot _ ht hm hs ih =>
      obtain ⟨v, x, a, rfl, hv, hx⟩ := ih
      exact ⟨v, _, a, List.append_assoc _ _ _, hv, hx.snoc ht hm hs⟩
  · rintro ⟨v, x, a, rfl, hv, hx⟩
    exact hx.prepend (.start hv)

theorem dotRest_iff {D : Lang Expr} {r e : Expr} {w : List Token} :
    DotRest D r w e ↔ Lang.opt r (Lang.token .dot fun _ => Lang.token .identifier fun m =>
      Lang.seq (Lang.mapped (Suffix.attach r.position (some r) m.value) (SuffixPhrase D))
        (DotRest D)) w e := by
  constructor
  · intro h
    cases h with
    | nil => exact .inl ⟨rfl, rfl⟩
    | cons ht hm hs hw => exact .inr ⟨_, _, rfl, ht, _, _, rfl, hm, _, _, _, rfl, ⟨_, hs, rfl⟩, hw⟩
  · rintro (⟨rfl, rfl⟩ | ⟨t, _, rfl, ht, m, _, rfl, hm, v, x, _, rfl, ⟨s, hs, rfl⟩, hx⟩)
    · exact .nil
    · exact .cons ht hm hs hx

theorem leads_dotRest (r : Expr) : Leads (DotRest Expression r) (ends 9) (Ends 10) := by
  intro w e x hw hx
  cases hw with
  | nil => exact hx.mono (Nat.le_succ 9)
  | cons ht _ _ _ => exact ends_of_kind (by decide) _ ht

theorem dotRound_reads (hs : Reads n Expression (ends 1) sub) {again : Expr → Parser Expr}
    (ha : ∀ e, Reads n (DotRest Expression e) (ends 9) (again e)) (r : Expr) :
    Reads (n + 1) (DotRest Expression r) (ends 9) (dotRound sub again r) := by
  refine Reads.congr ?_ fun w e => dotRest_iff.symm
  refine reads_opt (by decide) (readsIf_skip_bind (by decide) ?_) (not_ends_of_kind (by decide))
  refine identifier_bind_reads (H := fun name => Lang.seq (Lang.mapped
    (Suffix.attach r.position (some r) name) (SuffixPhrase Expression)) (DotRest Expression))
    fun name => ?_
  have hsuffix := nameSuffix_reads hs (some r) name r.position
  exact (hsuffix.mono (Nat.le_succ n)).bind ha leads_dotRest

/-- **A chain of names is read from left to right.** -/
theorem primaryWith_reads (hs : Reads n Expression (ends 1) sub) :
    Reads (n + 1) (ExprPhrase .primary) (ends 9) (primaryWith sub) := by
  have hread : Reads (n + 1) (Lang.seq (ExprPhrase .base) (DotRest Expression)) (ends 9)
      (primaryWith sub) := by
    refine (primaryBase_reads hs).bind (fun base => ?_) leads_dotRest
    exact reads_fix (G := DotRest Expression) (F := fun _ => ends 9)
      (fun _ _ hm => dotRound_reads (hs.mono (Nat.le_of_succ_le_succ hm))) base
  refine hread.congr fun w e => ⟨fun h => ?_, fun h => ?_⟩
  · exact .chain (dotted_iff.2 h)
  · cases h with
    | chain h => exact dotted_iff.1 h

/-! ### Operators with one operand -/

theorem stepOp?_eq_some {k : Kind} {op : StepOp} (h : stepOp? k = some op) :
    k = .plusPlus ∧ op = .incr ∨ k = .minusMinus ∧ op = .decr := by
  unfold stepOp? at h
  split at h
  · exact .inl ⟨rfl, (Option.some.inj h).symm⟩
  · exact .inr ⟨rfl, (Option.some.inj h).symm⟩
  · cases h

theorem stepped_iff {w : List Token} {e : Expr} :
    ExprPhrase .stepped w e ↔ Lang.seq (ExprPhrase .primary) (fun e => Lang.opt e
      (Lang.entry stepOp? fun op => Lang.unit (.step e.position op .after e))) w e := by
  constructor
  · intro h
    cases h with
    | postIncr h ht => exact ⟨_, _, _, rfl, h, .inr ⟨_, _, .incr, rfl, by rw [ht]; rfl, rfl, rfl⟩⟩
    | postDecr h ht => exact ⟨_, _, _, rfl, h, .inr ⟨_, _, .decr, rfl, by rw [ht]; rfl, rfl, rfl⟩⟩
    | unstepped h => exact ⟨_, [], _, (List.append_nil _).symm, h, .inl ⟨rfl, rfl⟩⟩
  · rintro ⟨v, x, a, rfl, hv, ⟨rfl, rfl⟩ | ⟨t, _, op, rfl, hop, rfl, rfl⟩⟩
    · rw [List.append_nil]
      exact .unstepped hv
    · rcases stepOp?_eq_some hop with ⟨ht, rfl⟩ | ⟨ht, rfl⟩
      · exact .postIncr hv ht
      · exact .postDecr hv ht

theorem binding_stepOp? : Binding stepOp? 8 := by
  refine ⟨rfl, fun k op h => ?_⟩
  rcases stepOp?_eq_some h with ⟨rfl, -⟩ | ⟨rfl, -⟩ <;> rfl

theorem postStep_reads (hs : Reads n Expression (ends 1) sub) :
    Reads (n + 1) (ExprPhrase .stepped) (ends 8) (postStep sub) := by
  refine Reads.congr ?_ fun w e => stepped_iff.symm
  refine (primaryWith_reads hs).bind (fun e => reads_kind fun k => ?_) fun e => leads_opt
    (fun o h => h.mono (Nat.le_succ 8)) (leads_entry fun t op ht => (binding_stepOp?.ends ht).1)
  cases hk : stepOp? k with
  | none => exact readsIf_entry_none hk
  | some op =>
    exact readsIf_entry_some rfl hk
      (readsIf_skip_then (binding_stepOp?.ne_end hk) (reads_pure _))
      fun t op ht => (binding_stepOp?.ends ht).2

theorem not_signed_nil (e : Expr) : ¬ ExprPhrase .signed [] e :=
  fun h => h.starts_signed.ne_nil rfl

theorem signed_cons_iff {t : Token} {v : List Token} {e : Expr} {make : Position → Expr → Expr}
    (hm : signOp? t.kind = some make) :
    ExprPhrase .signed (t :: v) e ↔
      ∃ operand, ExprPhrase .signed v operand ∧ e = make t.position operand := by
  constructor
  · intro h
    cases h with
    | negative ht h | not ht h | preIncr ht h | preDecr ht h =>
      rw [ht] at hm
      obtain rfl := Option.some.inj hm
      exact ⟨_, h, rfl⟩
    | unsigned h =>
      have hmem := h.starts_stepped.kind_mem
      have hall : ∀ k ∈ baseKinds, signOp? k = none := by simp [baseKinds, signOp?]
      rw [hall _ hmem] at hm
      cases hm
  · rintro ⟨operand, h, rfl⟩
    unfold signOp? at hm
    split at hm
    · next ht => exact Option.some.inj hm ▸ .negative ht h
    · next ht => exact Option.some.inj hm ▸ .not ht h
    · next ht => exact Option.some.inj hm ▸ .preIncr ht h
    · next ht => exact Option.some.inj hm ▸ .preDecr ht h
    · cases hm

theorem signed_cons_iff_stepped {t : Token} {v : List Token} {e : Expr}
    (hm : signOp? t.kind = none) :
    ExprPhrase .signed (t :: v) e ↔ ExprPhrase .stepped (t :: v) e := by
  constructor
  · intro h
    cases h with
    | negative ht _ | not ht _ | preIncr ht _ | preDecr ht _ =>
      rw [ht] at hm
      cases hm
    | unsigned h => exact h
  · exact .unsigned

/-- What the first token of a signed operand says of the rest. -/
def signedFrom (t : Token) : Lang Expr :=
  match signOp? t.kind with
  | none => ExprPhrase .stepped
  | some make => Lang.token t.kind fun _ => Lang.mapped (make t.position) (ExprPhrase .signed)

theorem signRound_reads (hs : Reads n Expression (ends 1) sub) {again : Parser Expr}
    (ha : Reads n (ExprPhrase .signed) (ends 8) again) :
    Reads (n + 1) (ExprPhrase .signed) (ends 8) (signRound sub again) := by
  refine reads_current (H := signedFrom) (fun t => ?_) (fun t e h => ?_) not_signed_nil
    fun t v e => ?_
  · unfold signedFrom
    cases hm : signOp? t.kind with
    | none => exact (postStep_reads hs).when
    | some make =>
      have hne : t.kind ≠ .endOfInput := by
        intro he
        rw [he] at hm
        cases hm
      have hread : ReadsIf (n + 1) (Cursor.At t.kind) (Lang.token t.kind fun _ =>
          Lang.mapped (make t.position) (ExprPhrase .signed)) (ends 8)
          (skip >>= fun _ => again >>= fun operand => pure (make t.position operand)) :=
        readsIf_skip_bind hne (ha.map _ fun _ _ h => h)
      exact hread.weaken fun c hc => by rw [← hc]; rfl
  · unfold signedFrom at h
    cases hm : signOp? t.kind with
    | none =>
      rw [hm] at h
      exact h.starts_stepped.ne_nil rfl
    | some make =>
      rw [hm] at h
      obtain ⟨_, _, hnil, -⟩ := h
      cases hnil
  · unfold signedFrom
    cases hm : signOp? t.kind with
    | none => exact (signed_cons_iff_stepped hm).symm
    | some make =>
      rw [signed_cons_iff hm]
      constructor
      · rintro ⟨_, _, heq, -, h⟩
        cases heq
        exact h
      · intro h
        exact ⟨t, v, rfl, rfl, h⟩

theorem signed_reads (hs : Reads n Expression (ends 1) sub) :
    Reads (n + 1) (ExprPhrase .signed) (ends 8) (signed sub) :=
  reads_recursive fun _ _ hm => signRound_reads (hs.mono (Nat.le_of_succ_le_succ hm))

/-! ### Objects, arrays and casts -/

theorem not_operand_nil (e : Expr) : ¬ ExprPhrase .operand [] e :=
  fun h => h.starts_operand.ne_nil rfl

/-- What follows the name of a class behind `new`. -/
abbrev newRest (p : Position) (name : String) : Lang Expr :=
  Lang.either
    (Lang.token .openParen fun _ => Lang.token .closeParen fun _ =>
      Lang.unit (.new p name none))
    (Lang.token .openBracket fun _ => Lang.seq Expression fun size =>
      Lang.token .closeBracket fun _ => Lang.unit (.new p name (some size)))

theorem newWith_reads {F : Follow Expr} (hs : Reads n Expression (ends 1) sub) :
    ReadsIf (n + 1) (Cursor.At .newWord) (Lang.token .newWord fun t =>
      Lang.token .identifier fun m => newRest t.position m.value) F (newWith sub) := by
  refine readsIf_advance_bind (by decide) fun t => ?_
  refine identifier_bind_reads (H := newRest t.position) fun name => reads_kind fun k => ?_
  split
  · refine ReadsIf.convert_at (readsIf_skip_then (by decide)
      (reads_expect_then (by decide) fun _ => reads_pure _)) (fun w e hw => .inl hw)
      (fun e h => ?_) fun o v e ho h => ?_
    · rcases h with ⟨_, _, h, -⟩ | ⟨_, _, h, -⟩ <;> cases h
    · rcases h with h | ⟨_, _, heq, ho', -⟩
      · exact h
      · cases heq
        rw [ho] at ho'
        cases ho'
  · refine ReadsIf.convert_at (readsIf_skip_then (by decide) (hs.bind
      (fun size => reads_expect_then (by decide) fun _ => reads_pure _)
      fun size => leads_token (ends_of_kind (by decide)))) (fun w e hw => .inr hw)
      (fun e h => ?_) fun o v e ho h => ?_
    · rcases h with ⟨_, _, h, -⟩ | ⟨_, _, h, -⟩ <;> cases h
    · rcases h with ⟨_, _, heq, ho', -⟩ | h
      · cases heq
        rw [ho] at ho'
        cases ho'
      · exact h
  · next hparen hbracket =>
    refine readsIf_failHere (fun _ _ => rfl) fun c hc w e x hw _ hhead => ?_
    rcases hw with ⟨t', _, rfl, ht', -⟩ | ⟨t', _, rfl, ht', -⟩
    · exact hparen ((hc.kind_of_head? hhead.symm).symm.trans ht')
    · exact hbracket ((hc.kind_of_head? hhead.symm).symm.trans ht')

theorem castWith_reads {F : Follow Expr} (hs : Reads n Expression (ends 1) sub) :
    ReadsIf (n + 1) (Cursor.At .castWord) (Lang.token .castWord fun t =>
      Lang.token .openParen fun _ => Lang.seq TypePhrase fun type => Lang.token .comma fun _ =>
        Lang.seq Expression fun e => Lang.token .closeParen fun _ =>
          Lang.unit (.cast t.position type e)) F (castWith sub) := by
  refine readsIf_advance_bind (by decide) fun t => reads_expect_then (by decide) fun _ => ?_
  refine typeName_reads.bind (fun type => reads_expect_then (by decide) fun _ => ?_)
    fun type => leads_token (avoids_of_kind (by decide))
  exact hs.bind (fun e => reads_expect_then (by decide) fun _ => reads_pure _)
    fun e => leads_token (ends_of_kind (by decide))

/-- What the first token says of an operand. -/
theorem ExprPhrase.operand_cases {t : Token} {v : List Token} {e : Expr}
    (h : ExprPhrase .operand (t :: v) e) :
    match t.kind with
    | .newWord => ∃ m w, v = m :: w ∧ m.kind = .identifier ∧ newRest t.position m.value w e
    | .castWord => ∃ o w type m x a c, v = o :: (w ++ m :: (x ++ [c])) ∧ o.kind = .openParen ∧
        TypePhrase w type ∧ m.kind = .comma ∧ Expression x a ∧ c.kind = .closeParen ∧
        e = .cast t.position type a
    | _ => ExprPhrase .signed (t :: v) e := by
  cases h with
  | newObject ht hm ho hc =>
    rw [ht]
    exact ⟨_, _, rfl, hm, .inl ⟨_, _, rfl, ho, _, _, rfl, hc, rfl, rfl⟩⟩
  | newArray ht hm ho he hc =>
    rw [ht]
    exact ⟨_, _, rfl, hm, .inr ⟨_, _, rfl, ho, _, _, _, rfl, he, _, _, rfl, hc, rfl, rfl⟩⟩
  | cast ht ho hw hm he hc =>
    rw [ht]
    exact ⟨_, _, _, _, _, _, _, rfl, ho, hw, hm, he, hc, rfl⟩
  | signed h =>
    have hmem := h.starts_signed.kind_mem
    split
    · next ht =>
      rw [ht] at hmem
      simp [baseKinds, signKinds] at hmem
    · next ht =>
      rw [ht] at hmem
      simp [baseKinds, signKinds] at hmem
    · exact h

theorem operand_reads (hs : Reads n Expression (ends 1) sub) :
    Reads (n + 1) (ExprPhrase .operand) (ends 8) (operand sub) := by
  refine reads_kind fun k => ?_
  split
  · refine (newWith_reads hs).convert_at (fun w e hw => ?_) not_operand_nil fun t v e ht h => ?_
    · obtain ⟨t, _, rfl, ht, m, _, rfl, hm, h | h⟩ := hw
      · obtain ⟨o, _, rfl, ho, c, _, rfl, hc, rfl, rfl⟩ := h
        exact .newObject ht hm ho hc
      · obtain ⟨o, _, rfl, ho, w, _, size, rfl, hw, c, _, rfl, hc, rfl, rfl⟩ := h
        exact .newArray ht hm ho hw hc
    · have hcases := h.operand_cases
      rw [ht] at hcases
      obtain ⟨m, w, rfl, hm, hw⟩ := hcases
      exact ⟨_, _, rfl, ht, _, _, rfl, hm, hw⟩
  · refine (castWith_reads hs).convert_at (fun w e hw => ?_) not_operand_nil fun t v e ht h => ?_
    · obtain ⟨t, _, rfl, ht, o, _, rfl, ho, w, _, type, rfl, hw, m, _, rfl, hm, x, _, a, rfl, hx,
        c, _, rfl, hc, rfl, rfl⟩ := hw
      exact .cast ht ho hw hm hx hc
    · have hcases := h.operand_cases
      rw [ht] at hcases
      obtain ⟨o, w, type, m, x, a, c, rfl, ho, hw, hm, hx, hc, rfl⟩ := hcases
      exact ⟨_, _, rfl, ht, _, _, rfl, ho, _, _, _, rfl, hw, _, _, rfl, hm, _, _, _, rfl, hx,
        _, _, rfl, hc, rfl, rfl⟩
  · next hnew hcast =>
    refine (signed_reads hs).when.convert_at (fun w e hw => .signed hw) not_operand_nil
      fun t v e ht h => ?_
    have hcases := h.operand_cases
    rw [ht] at hcases
    split at hcases
    · exact absurd rfl hnew
    · exact absurd rfl hcast
    · exact hcases

end Levels
end BantamJava
