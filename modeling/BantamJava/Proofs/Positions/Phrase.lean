/-
# The place of an expression in its phrase

An expression has the position of the first token of its phrase that opens no parenthesis:
of its operator if that comes first, of its left operand or of its receiver otherwise, and
parentheses count for nothing. And its operands are phrases inside of its own, apart from
each other and in their order.

The grammar is gone through level by level. Only a parenthesis leads back to the loosest
level, and then the phrase inside of it is shorter, so the induction is on the length.

Key definitions: `Scattered`, `LeadsAt`, `AnyExpr`, `InPlace`.
Key theorems: `Scattered.append`, `Chain.placed`, `AnyExpr.placed`.
-/
import BantamJava.Proofs.Intervals.Grammar
import BantamJava.Proofs.TreeNodes

namespace BantamJava

/-! ### Phrases in a word -/

section Scattered

variable {α : Type} {D D' : Lang α} {w v : List Token} {a : α} {as bs : List α}

/-- Phrases inside of a word, one behind another, with any tokens before, between and behind
them. -/
inductive Scattered (D : Lang α) : Lang (List α) where
  | nil {w : List Token} : Scattered D w []
  | cons {u v w : List Token} {a : α} {as : List α} :
      D v a → Scattered D w as → Scattered D (u ++ (v ++ w)) (a :: as)

namespace Scattered

theorem single (h : D w a) : Scattered D w [a] := by
  have hcons := cons (u := []) h (nil (w := []))
  rwa [List.nil_append, List.append_nil] at hcons

theorem behind (u : List Token) (h : Scattered D w as) : Scattered D (u ++ w) as := by
  cases h with
  | nil => exact .nil
  | cons ha has =>
    rw [← List.append_assoc]
    exact .cons ha has

theorem append (h : Scattered D w as) (h' : Scattered D v bs) :
    Scattered D (w ++ v) (as ++ bs) := by
  induction h with
  | nil => exact h'.behind _
  | cons ha _ ih =>
    rw [List.append_assoc, List.append_assoc]
    exact .cons ha ih

theorem before (h : Scattered D w as) (v : List Token) : Scattered D (w ++ v) as := by
  have happend := h.append (nil (w := v))
  rwa [List.append_nil] at happend

theorem mono (h : Scattered D w as) (hD : ∀ v a, D v a → D' v a) : Scattered D' w as := by
  induction h with
  | nil => exact .nil
  | cons ha _ ih => exact .cons (hD _ _ ha) ih

theorem of_separated (h : Separated D w as) : Scattered D w as := by
  induction h with
  | one ha => exact .single ha
  | more ha _ _ ih => exact (single ha).append (ih.behind [_])

theorem of_listed (h : Listed D w as) : Scattered D w as := by
  cases h with
  | none => exact .nil
  | some h => exact .of_separated h

theorem of_optional {o : Option α} (h : Optional D w o) : Scattered D w o.toList := by
  cases h with
  | none => exact .nil
  | some h => exact .single h

end Scattered

end Scattered

/-! ### The leading token -/

/-- The first token of the word that opens no parenthesis is at the position. -/
def LeadsAt (w : List Token) (p : Position) : Prop :=
  ∃ u t v, w = u ++ t :: v ∧ (∀ s ∈ u, s.kind = .openParen) ∧ t.kind ≠ .openParen ∧ p = t.position

section LeadsAt

variable {w : List Token} {t : Token} {p : Position}

theorem leadsAt_cons (ht : t.kind ≠ .openParen) : LeadsAt (t :: w) t.position :=
  ⟨[], t, w, rfl, nofun, ht, rfl⟩

theorem LeadsAt.paren (h : LeadsAt w p) (ht : t.kind = .openParen) : LeadsAt (t :: w) p := by
  obtain ⟨u, s, v, rfl, hu, hs, rfl⟩ := h
  exact ⟨t :: u, s, v, rfl, List.forall_mem_cons.2 ⟨ht, hu⟩, hs, rfl⟩

theorem LeadsAt.before (h : LeadsAt w p) (x : List Token) : LeadsAt (w ++ x) p := by
  obtain ⟨u, s, v, rfl, hu, hs, rfl⟩ := h
  exact ⟨u, s, v ++ x, by simp, hu, hs, rfl⟩

end LeadsAt

/-! ### Expressions -/

/-- Expressions of any level. -/
def AnyExpr : Lang Expr := fun w e => ∃ l, ExprPhrase l w e

/-- The expression has the position of the first token that opens no parenthesis, and its
operands are inside of the word. -/
structure InPlace (w : List Token) (e : Expr) : Prop where
  leads : LeadsAt w e.position
  operands : Scattered AnyExpr w e.operands

/-- The expressions in what follows a name. -/
def Suffix.operands : Suffix → List Expr
  | .nothing => []
  | .arguments args => args
  | .index i => [i]

theorem Suffix.operands_attach (p : Position) (receiver : Option Expr) (name : String)
    (s : Suffix) : (s.attach p receiver name).operands = receiver.toList ++ s.operands := by
  cases s with
  | nothing => exact (List.append_nil _).symm
  | arguments args => rfl
  | index i => rfl

theorem Suffix.position_attach (p : Position) (receiver : Option Expr) (name : String)
    (s : Suffix) : (s.attach p receiver name).position = p := by
  cases s <;> rfl

theorem SuffixPhrase.scattered {w : List Token} {s : Suffix}
    (h : SuffixPhrase Expression w s) : Scattered AnyExpr w s.operands := by
  have hany : ∀ v e, Expression v e → AnyExpr v e := fun v e he => ⟨_, he⟩
  cases h with
  | nothing => exact .nil
  | arguments _ hargs _ => exact (((Scattered.of_listed hargs).mono hany).before _).behind [_]
  | index _ hi _ => exact ((Scattered.single (hany _ _ hi)).before _).behind [_]

section Levels

variable {n : Nat} {w : List Token} {e : Expr} {D : Lang Expr}

/-- Operands joined by operators. -/
theorem Chain.placed {op? : Kind → Option BinaryOp} (hl : ∀ w e, Chain op? D w e → AnyExpr w e)
    (hD : ∀ w e, D w e → AnyExpr w e) (hplaced : ∀ w e, w.length ≤ n → D w e → InPlace w e)
    (hn : w.length ≤ n) (h : Chain op? D w e) : InPlace w e := by
  induction h with
  | first h => exact hplaced _ _ hn h
  | more hleft _ hright ih =>
    rw [List.length_append] at hn
    refine ⟨(ih (by omega)).leads.before _, ?_⟩
    exact (Scattered.single (hl _ _ hleft)).append ((Scattered.single (hD _ _ hright)).behind [_])

theorem Single.placed {op? : Kind → Option BinaryOp}
    (hD : ∀ w e, D w e → AnyExpr w e) (hplaced : ∀ w e, w.length ≤ n → D w e → InPlace w e)
    (hn : w.length ≤ n) (h : Single op? D w e) : InPlace w e := by
  cases h with
  | one h => exact hplaced _ _ hn h
  | two hleft _ hright =>
    rw [List.length_append] at hn
    refine ⟨(hplaced _ _ (by omega) hleft).leads.before _, ?_⟩
    exact (Scattered.single (hD _ _ hleft)).append ((Scattered.single (hD _ _ hright)).behind [_])

theorem anyExpr {l : ExprLevel} : ∀ w e, ExprPhrase l w e → AnyExpr w e := fun _ _ h => ⟨l, h⟩

variable (hparens : ∀ w e, w.length < n → Expression w e → InPlace w e)

include hparens

theorem placed_base (hn : w.length ≤ n) (h : ExprPhrase .base w e) : InPlace w e := by
  cases h with
  | parens ho he hc =>
    simp only [List.length_cons, List.length_append] at hn
    have hinside := hparens _ _ (by omega) he
    exact ⟨(hinside.leads.before _).paren ho, (hinside.operands.before _).behind [_]⟩
  | integer ht _ => exact ⟨leadsAt_cons (ht ▸ nofun), .nil⟩
  | string ht => exact ⟨leadsAt_cons (ht ▸ nofun), .nil⟩
  | boolean ht => exact ⟨leadsAt_cons (ht ▸ nofun), .nil⟩
  | this ht => exact ⟨leadsAt_cons (ht ▸ nofun), .nil⟩
  | super ht => exact ⟨leadsAt_cons (ht ▸ nofun), .nil⟩
  | name ht hs =>
    refine ⟨?_, ?_⟩
    · rw [Suffix.position_attach]
      exact leadsAt_cons (ht ▸ nofun)
    · rw [Suffix.operands_attach]
      exact hs.scattered.behind [_]

theorem placed_dotted (hn : w.length ≤ n)
    (h : Dotted (ExprPhrase .base) (ExprPhrase .assignment) w e) : InPlace w e := by
  induction h with
  | start h => exact placed_base hparens hn h
  | dot hreceiver _ _ hs ih =>
    rw [List.length_append] at hn
    refine ⟨?_, ?_⟩
    · rw [Suffix.position_attach]
      exact (ih (by omega)).leads.before _
    · rw [Suffix.operands_attach]
      exact (Scattered.single (anyExpr _ _ (.chain hreceiver))).append (hs.scattered.behind [_, _])

theorem placed_primary (hn : w.length ≤ n) (h : ExprPhrase .primary w e) : InPlace w e := by
  cases h with
  | chain h => exact placed_dotted hparens hn h

theorem placed_stepped (hn : w.length ≤ n) (h : ExprPhrase .stepped w e) : InPlace w e := by
  have hstep : ∀ {v t e' op}, (v ++ [t]).length ≤ n → ExprPhrase .primary v e' →
      InPlace (v ++ [t]) (.step e'.position op .after e') := by
    intro v t e' op hlength he
    rw [List.length_append] at hlength
    exact ⟨(placed_primary hparens (by omega) he).leads.before _,
      (Scattered.single (anyExpr _ _ he)).before _⟩
  cases h with
  | postIncr he _ => exact hstep hn he
  | postDecr he _ => exact hstep hn he
  | unstepped h => exact placed_primary hparens hn h

theorem placed_signed (hn : w.length ≤ n) (h : ExprPhrase .signed w e) : InPlace w e := by
  have hoperand : ∀ {v d t}, ExprPhrase .signed v d → Scattered AnyExpr (t :: v) [d] :=
    fun hd => (Scattered.single (anyExpr _ _ hd)).behind [_]
  cases h with
  | negative ht he => exact ⟨leadsAt_cons (ht ▸ nofun), hoperand he⟩
  | not ht he => exact ⟨leadsAt_cons (ht ▸ nofun), hoperand he⟩
  | preIncr ht he => exact ⟨leadsAt_cons (ht ▸ nofun), hoperand he⟩
  | preDecr ht he => exact ⟨leadsAt_cons (ht ▸ nofun), hoperand he⟩
  | unsigned h => exact placed_stepped hparens hn h

theorem placed_operand (hn : w.length ≤ n) (h : ExprPhrase .operand w e) : InPlace w e := by
  cases h with
  | newObject ht _ _ _ => exact ⟨leadsAt_cons (ht ▸ nofun), .nil⟩
  | newArray ht _ _ hsize _ =>
    exact ⟨leadsAt_cons (ht ▸ nofun),
      ((Scattered.single (anyExpr _ _ hsize)).before _).behind [_, _, _]⟩
  | @cast v x _ _ t o m c ht _ _ _ he _ =>
    refine ⟨leadsAt_cons (ht ▸ nofun), ?_⟩
    have hinside := (((Scattered.single (anyExpr _ _ he)).before [c]).behind [m]).behind v
    exact hinside.behind [t, o]
  | signed h => exact placed_signed hparens hn h

theorem placed_product (hn : w.length ≤ n) (h : ExprPhrase .product w e) : InPlace w e := by
  cases h with
  | product h =>
    exact Chain.placed (fun _ _ hw => anyExpr _ _ (.product hw)) anyExpr
      (fun _ _ => placed_operand hparens) hn h

theorem placed_sum (hn : w.length ≤ n) (h : ExprPhrase .sum w e) : InPlace w e := by
  cases h with
  | sum h =>
    exact Chain.placed (fun _ _ hw => anyExpr _ _ (.sum hw)) anyExpr
      (fun _ _ => placed_product hparens) hn h

theorem placed_comparison (hn : w.length ≤ n) (h : ExprPhrase .comparison w e) : InPlace w e := by
  cases h with
  | comparison h => exact Single.placed anyExpr (fun _ _ => placed_sum hparens) hn h
  | instanceOf he _ _ =>
    rw [List.length_append] at hn
    exact ⟨(placed_sum hparens (by omega) he).leads.before _,
      (Scattered.single (anyExpr _ _ he)).before _⟩

theorem placed_equality (hn : w.length ≤ n) (h : ExprPhrase .equality w e) : InPlace w e := by
  cases h with
  | equality h => exact Single.placed anyExpr (fun _ _ => placed_comparison hparens) hn h

theorem placed_conjunction (hn : w.length ≤ n) (h : ExprPhrase .conjunction w e) :
    InPlace w e := by
  cases h with
  | conjunction h =>
    exact Chain.placed (fun _ _ hw => anyExpr _ _ (.conjunction hw)) anyExpr
      (fun _ _ => placed_equality hparens) hn h

theorem placed_disjunction (hn : w.length ≤ n) (h : ExprPhrase .disjunction w e) :
    InPlace w e := by
  cases h with
  | disjunction h =>
    exact Chain.placed (fun _ _ hw => anyExpr _ _ (.disjunction hw)) anyExpr
      (fun _ _ => placed_conjunction hparens) hn h

/-- An assignment is where its target is, and keeps what its target is made of. -/
theorem placed_assignment (hn : w.length ≤ n) (h : Expression w e) : InPlace w e := by
  cases h with
  | plain h => exact placed_disjunction hparens hn h
  | @assign w v target value _ first t htarget _ hvalue hassigns =>
    have hlength : (first :: w).length ≤ n := by
      simp only [List.length_cons, List.length_append] at hn ⊢
      omega
    have hplaced := placed_disjunction hparens hlength htarget
    have hright := (Scattered.single (anyExpr _ _ hvalue)).behind [t]
    cases hassigns with
    | var => exact ⟨hplaced.leads.before _, hplaced.operands.append hright⟩
    | element =>
      have hoperands := hplaced.operands.append hright
      rw [Expr.operands, List.append_assoc] at hoperands
      exact ⟨hplaced.leads.before _, hoperands⟩
    | other _ _ => exact ⟨hplaced.leads.before _, hright.behind (first :: w)⟩

end Levels

theorem expression_placed {w : List Token} {e : Expr} (h : Expression w e) : InPlace w e := by
  generalize hn : w.length = n
  induction n using Nat.strongRecOn generalizing w e with
  | ind n ih =>
    exact placed_assignment (fun v x hv hx => ih v.length hv hx rfl) (Nat.le_of_eq hn) h

/-- **An expression is where the first token of its phrase is that opens no parenthesis**, and
its operands are phrases inside of that, in order. -/
theorem AnyExpr.placed {w : List Token} {e : Expr} (h : AnyExpr w e) : InPlace w e := by
  have hparens : ∀ v x, v.length < w.length → Expression v x → InPlace v x :=
    fun v x _ => expression_placed
  obtain ⟨l, h⟩ := h
  cases l with
  | assignment => exact expression_placed h
  | disjunction => exact placed_disjunction hparens (Nat.le_refl _) h
  | conjunction => exact placed_conjunction hparens (Nat.le_refl _) h
  | equality => exact placed_equality hparens (Nat.le_refl _) h
  | comparison => exact placed_comparison hparens (Nat.le_refl _) h
  | sum => exact placed_sum hparens (Nat.le_refl _) h
  | product => exact placed_product hparens (Nat.le_refl _) h
  | operand => exact placed_operand hparens (Nat.le_refl _) h
  | signed => exact placed_signed hparens (Nat.le_refl _) h
  | stepped => exact placed_stepped hparens (Nat.le_refl _) h
  | primary => exact placed_primary hparens (Nat.le_refl _) h
  | base => exact placed_base hparens (Nat.le_refl _) h

/-! ### The first token of a phrase -/

/-- The word starts with a token at the position. -/
def StartsAt (w : List Token) (p : Position) : Prop := ∃ t v, w = t :: v ∧ p = t.position

theorem StmtPhrase.startsAt {w : List Token} {s : Stmt} (h : StmtPhrase w s) :
    StartsAt w s.position := by
  cases h <;> exact ⟨_, _, rfl, rfl⟩

theorem FormalPhrase.startsAt {w : List Token} {f : Formal} (h : FormalPhrase w f) :
    StartsAt w f.position := by
  cases h
  exact ⟨_, _, rfl, rfl⟩

theorem MemberPhrase.startsAt {w : List Token} {m : Member} (h : MemberPhrase w m) :
    StartsAt w m.position := by
  cases h <;> exact ⟨_, _, rfl, rfl⟩

/-! ### Expressions inside of other phrases -/

theorem Scattered.expression {w : List Token} {e : Expr} (h : Expression w e) :
    Scattered AnyExpr w [e] :=
  .single ⟨_, h⟩

theorem Scattered.optional {w : List Token} {o : Option Expr} (h : Optional Expression w o) :
    Scattered AnyExpr w o.toList :=
  (Scattered.of_optional h).mono fun _ _ he => ⟨_, he⟩

/-- A simple statement is made of expressions only. -/
theorem StmtPhrase.simple_parts {w : List Token} {s : Stmt} (h : StmtPhrase w s)
    (hs : s.isSimple = true) : ∃ es, s.parts = es.map .ofExpr ∧ Scattered AnyExpr w es := by
  cases h with
  | evaluate he _ => exact ⟨[_], rfl, (Scattered.expression he).before [_]⟩
  | breakLoop _ _ => exact ⟨[], rfl, .nil⟩
  | returnWith _ he _ => exact ⟨_, rfl, ((Scattered.optional he).before [_]).behind [_]⟩
  | declare _ _ _ he _ => exact ⟨[_], rfl, ((Scattered.expression he).before [_]).behind [_, _, _]⟩
  | block | ifThen | ifElse | whileLoop | forLoop => cases hs

/-- A field is made of its initial value, if it has one. -/
theorem MemberPhrase.field_init {w : List Token} {f : Field} (h : MemberPhrase w (.field f)) :
    Scattered AnyExpr w f.init.toList := by
  cases h with
  | field _ _ _ => exact .nil
  | @initialField w v _ _ t n a s _ _ _ he _ =>
    exact ((((Scattered.expression he).before [s]).behind [n, a]).behind w).behind [t]

end BantamJava
