/-
# Reading expressions

The levels of operators between two operands, the tightest first, and the
assignments above them. The recursion of expressions closes here.

Key definitions: `ExprLevel.tightness`.
Key theorems: `binding_operator?`, `exprWith_reads`, `expr_reads`.
-/
import BantamJava.Proofs.Reading.Operand

namespace BantamJava

section Levels

open BantamJava.Parser

variable {n : Nat} {sub : Parser Expr}

/-! ### Operators with two operands -/

/-- How tightly the operators of a level bind. -/
def ExprLevel.tightness : ExprLevel → Nat
  | .assignment => 1
  | .disjunction => 2
  | .conjunction => 3
  | .equality => 4
  | .comparison => 5
  | .sum => 6
  | .product => 7
  | .operand | .signed | .stepped => 8
  | .primary => 9
  | .base => 10

theorem binding_operator? (l : ExprLevel) : Binding l.operator? l.tightness := by
  refine ⟨by cases l <;> rfl, fun k op h => ?_⟩
  unfold ExprLevel.operator? at h
  split at h
  all_goals first | rfl | cases h

theorem multiplicative_reads (hs : Reads n Expression (ends 1) sub) :
    Reads (n + 1) (ExprPhrase .product) (ends 7) (multiplicative sub) := by
  have htable : multiplicativeOp? = ExprLevel.product.operator? := by
    funext k
    cases k <;> rfl
  refine Reads.congr ?_ fun w e => ⟨.product, fun | .product h => h⟩
  rw [multiplicative, htable]
  exact chain_reads (binding_operator? .product) (operand_reads hs)

theorem additive_reads (hs : Reads n Expression (ends 1) sub) :
    Reads (n + 1) (ExprPhrase .sum) (ends 6) (additive sub) := by
  have htable : additiveOp? = ExprLevel.sum.operator? := by
    funext k
    cases k <;> rfl
  refine Reads.congr ?_ fun w e => ⟨.sum, fun | .sum h => h⟩
  rw [additive, htable]
  exact chain_reads (binding_operator? .sum) (multiplicative_reads hs)

/-- What follows the left operand of a comparison. -/
abbrev comparisonRest (left : Expr) : Lang Expr :=
  Lang.either
    (Lang.token .instanceofWord fun _ => Lang.mapped (.instanceOf left.position left) TypePhrase)
    (Lang.opt left (Lang.entry ExprLevel.comparison.operator? fun op =>
      Lang.mapped (.join op left) (ExprPhrase .sum)))

theorem comparison_iff {w : List Token} {e : Expr} :
    ExprPhrase .comparison w e ↔ Lang.seq (ExprPhrase .sum) comparisonRest w e := by
  constructor
  · intro h
    cases h with
    | comparison h =>
      obtain ⟨v, x, a, rfl, hv, hx⟩ := single_iff.1 h
      exact ⟨v, x, a, rfl, hv, .inr hx⟩
    | instanceOf h ht hv => exact ⟨_, _, _, rfl, h, .inl ⟨_, _, rfl, ht, _, hv, rfl⟩⟩
  · rintro ⟨v, x, a, rfl, hv, ⟨t, y, rfl, ht, type, hy, rfl⟩ | hx⟩
    · exact .instanceOf hv ht hy
    · exact .comparison (single_iff.2 ⟨v, x, a, rfl, hv, hx⟩)

theorem relational_reads (hs : Reads n Expression (ends 1) sub) :
    Reads (n + 1) (ExprPhrase .comparison) (ends 5) (relational sub) := by
  have htable : comparisonOp? = ExprLevel.comparison.operator? := by
    funext k
    cases k <;> rfl
  have hbinding := binding_operator? .comparison
  have hsum := additive_reads hs
  refine Reads.congr ?_ fun w e => comparison_iff.symm
  rw [relational, htable]
  refine hsum.bind (fun left => reads_either (by decide) ?_ (reads_kind fun k => ?_) ?_)
    fun left => ?_
  · exact readsIf_skip_then (by decide)
      (typeName_reads.map _ fun _ _ h => h.avoids_bracket (by decide))
  · cases hop : ExprLevel.comparison.operator? k with
    | none => exact readsIf_entry_none hop
    | some op =>
      refine readsIf_entry_some hbinding.1 hop (readsIf_skip_then (hbinding.ne_end hop) ?_)
        fun t op ht => (hbinding.ends ht).2
      exact hsum.map _ fun _ _ h => h.mono (Nat.le_succ 5)
  · -- neither what follows a comparison nor its operators are `instanceof`
    refine leads_opt (fun o h t ht hk => ?_) (leads_entry fun t op hop t' ht hk => ?_)
    · exact not_ends_of_kind (by decide) t hk (ht ▸ h)
    · cases ht
      rw [hk] at hop
      cases hop
  · rintro w e x (⟨t, v, rfl, ht, -⟩ | hw) hx
    · exact ends_of_kind (by decide) t ht
    · exact leads_opt (F := ends 5) (fun o h => h.mono (Nat.le_succ 5))
        (leads_entry fun t op ht => (hbinding.ends ht).1) w e x hw hx

theorem equality_reads (hs : Reads n Expression (ends 1) sub) :
    Reads (n + 1) (ExprPhrase .equality) (ends 4) (equality sub) := by
  have htable : equalityOp? = ExprLevel.equality.operator? := by
    funext k
    cases k <;> rfl
  refine Reads.congr ?_ fun w e => ⟨.equality, fun | .equality h => h⟩
  rw [equality, htable]
  exact single_reads (binding_operator? .equality) (relational_reads hs)

theorem conjunction_reads (hs : Reads n Expression (ends 1) sub) :
    Reads (n + 1) (ExprPhrase .conjunction) (ends 3) (conjunction sub) := by
  have htable : andOp? = ExprLevel.conjunction.operator? := by
    funext k
    cases k <;> rfl
  refine Reads.congr ?_ fun w e => ⟨.conjunction, fun | .conjunction h => h⟩
  rw [conjunction, htable]
  exact chain_reads (binding_operator? .conjunction) (equality_reads hs)

theorem disjunction_reads (hs : Reads n Expression (ends 1) sub) :
    Reads (n + 1) (ExprPhrase .disjunction) (ends 2) (disjunction sub) := by
  have htable : orOp? = ExprLevel.disjunction.operator? := by
    funext k
    cases k <;> rfl
  refine Reads.congr ?_ fun w e => ⟨.disjunction, fun | .disjunction h => h⟩
  rw [disjunction, htable]
  exact chain_reads (binding_operator? .disjunction) (conjunction_reads hs)

/-! ### Assignments -/

theorem not_disjunction_nil (e : Expr) : ¬ ExprPhrase .disjunction [] e :=
  fun h => h.starts_disjunction.ne_nil rfl

theorem assigns_iff {t : Token} {value target e : Expr} :
    Assigns t value target e ↔ e = target.assignTo t.value value := by
  constructor
  · intro h
    cases h with
    | var => rfl
    | element => rfl
    | other hvar helement =>
      unfold Expr.assignTo
      split
      · exact absurd rfl (hvar _ _ _)
      · exact absurd rfl (helement _ _ _ _)
      · rfl
  · rintro rfl
    unfold Expr.assignTo
    split
    · exact .var
    · exact .element
    · next hvar helement => exact .other hvar helement

/-- An expression whose first token is `t`. -/
abbrev expressionFrom (t : Token) : Lang Expr :=
  Lang.seq (ExprPhrase .disjunction) fun left => Lang.opt left
    (Lang.token .assignment fun _ => Lang.mapped (left.assignTo t.value) Expression)

theorem expressionFrom_iff {t : Token} {v : List Token} {e : Expr} :
    expressionFrom t (t :: v) e ↔ Expression (t :: v) e := by
  constructor
  · rintro ⟨w, x, left, heq, hw, hx⟩
    cases w with
    | nil => exact absurd hw (not_disjunction_nil left)
    | cons t' w =>
      rw [List.cons_append] at heq
      obtain ⟨rfl, rfl⟩ := List.cons.inj heq
      rcases hx with ⟨rfl, rfl⟩ | ⟨a, y, rfl, ha, value, hy, rfl⟩
      · rw [List.append_nil]
        exact .plain hw
      · exact .assign hw ha hy (assigns_iff.2 rfl)
  · intro h
    cases h with
    | plain h => exact ⟨_, [], _, (List.append_nil _).symm, h, .inl ⟨rfl, rfl⟩⟩
    | assign h ha hv hassigns =>
      exact ⟨_, _, _, rfl, h, .inr ⟨_, _, rfl, ha, _, hv, assigns_iff.1 hassigns⟩⟩

theorem exprWith_reads (hs : Reads n Expression (ends 1) sub) :
    Reads (n + 1) Expression (ends 1) (exprWith sub) := by
  refine reads_current (H := expressionFrom) (fun t => ?_) (fun t e h => ?_) not_expression_nil
    fun t v e => expressionFrom_iff
  · have hread : Reads (n + 1) (expressionFrom t) (ends 1) (disjunction sub >>= fun left =>
        kind >>= fun k => if k = .assignment then
          skip >>= fun _ => sub >>= fun value => pure (left.assignTo t.value value)
        else pure left) := by
      refine (disjunction_reads hs).bind (fun left => ?_) fun left => leads_opt
        (fun o h => h.mono (Nat.le_succ 1)) (leads_token (ends_of_kind (by decide)))
      exact reads_opt (by decide) (readsIf_skip_bind (by decide) (hs.map _ fun _ _ h => h))
        (not_ends_of_kind (by decide))
    exact hread.when
  · obtain ⟨w, x, left, heq, hw, -⟩ := h
    rw [(List.append_eq_nil_iff.1 heq.symm).1] at hw
    exact not_disjunction_nil left hw

/-- **Expressions are read as the grammar says.** -/
theorem expr_reads : Reads n Expression (ends 1) expr :=
  reads_recursive fun _ _ _ => exprWith_reads

end Levels
end BantamJava
