/-
# Parsers make progress

A parser moves its cursor forwards only, so what is left of the input never
grows. The parsers of the grammar do more: where they succeed they have
consumed a token, and after a failure recovery consumes one if the failed
parser did not. So each turn of a loop of the grammar leaves fewer tokens than
it found, which is why the loops end.

Key definitions: `Parser.ConsumesAt`, `Parser.Consuming`.
Key theorems: `Parser.stmtWith_consuming`, `Parser.left_recovering_lt`,
`Parser.left_stmtTurn_lt`, `Parser.left_memberTurn_lt`, `Parser.left_classTurn_lt`.
-/
import BantamJava.Parsing.Session

namespace BantamJava

namespace Cursor

theorem Reaches.eq_of_left_eq {c d : Cursor} {es : List Event} (h : c.Reaches es d)
    (hl : d.left = c.left) : d = c := by
  have hn : (consumedIn es).length = 0 := by
    have := h.left_add
    omega
  rw [h.cursor, hn, after]

theorem Reaches.eq_of_consumed_eq {c d : Cursor} {es : List Event} (h : c.Reaches es d)
    (hn : d.consumed = c.consumed) : d = c := by
  have h0 : (consumedIn es).length = 0 := by
    have := h.consumed_eq
    omega
  rw [h.cursor, h0, after]

theorem left_advance_lt {c : Cursor} (h : c.current.kind ≠ .endOfInput) :
    c.advance.1.left < c.left := by
  have := (reaches_advance c).left_add
  rw [consumedIn_advance h, List.length_singleton] at this
  omega

end Cursor

namespace Parser

variable {α β ι : Type}

/-- If the parser succeeds from this cursor, it has consumed a token. -/
def ConsumesAt (p : Parser α) (c : Cursor) : Prop :=
  ∀ a, (p c).outcome = .ok a → (p c).cursor.left < c.left

/-- Wherever the parser succeeds, it has consumed a token. -/
def Consuming (p : Parser α) : Prop := ∀ c, p.ConsumesAt c

theorem left_le (p : Parser α) (c : Cursor) : (p c).cursor.left ≤ c.left :=
  (p.reaches c).left_le

theorem left_bind_le (p : Parser α) (f : α → Parser β) (c : Cursor) :
    ((p >>= f) c).cursor.left ≤ (p c).cursor.left := by
  cases h : (p c).outcome with
  | ok a =>
    rw [run_bind_ok f h]
    exact (f a).left_le _
  | error e => exact Nat.le_of_eq (by rw [run_bind_error f h])

/-! ### Rules -/

theorem ConsumesAt.bind {p : Parser α} {c : Cursor} (h : p.ConsumesAt c) (f : α → Parser β) :
    (p >>= f).ConsumesAt c := by
  intro b hb
  cases ha : (p c).outcome with
  | ok a => exact Nat.lt_of_le_of_lt (left_bind_le p f c) (h a ha)
  | error e => simp [run_bind_error f ha] at hb

theorem ConsumesAt.bind_of {p : Parser α} {c : Cursor} {f : α → Parser β}
    (h : ∀ a, (f a).ConsumesAt (p c).cursor) : (p >>= f).ConsumesAt c := by
  intro b hb
  cases ha : (p c).outcome with
  | ok a =>
    rw [run_bind_ok f ha] at hb ⊢
    exact Nat.lt_of_lt_of_le (h a b hb) (p.left_le c)
  | error e => simp [run_bind_error f ha] at hb

theorem consumesAt_fail (e : Fault) (c : Cursor) : (fail e : Parser α).ConsumesAt c := by
  intro a ha
  simp at ha

theorem consumesAt_failHere (cause : String → Cause) (c : Cursor) :
    (failHere cause : Parser α).ConsumesAt c := by
  intro a ha
  simp [failHere] at ha

theorem consumesAt_advance {c : Cursor} (h : c.current.kind ≠ .endOfInput) :
    advance.ConsumesAt c :=
  fun _ _ => Cursor.left_advance_lt h

theorem consumesAt_skip {c : Cursor} (h : c.current.kind ≠ .endOfInput) : skip.ConsumesAt c :=
  (consumesAt_advance h).bind _

theorem consumesAt_kind_bind {f : Kind → Parser α} {c : Cursor}
    (h : (f c.current.kind).ConsumesAt c) : (kind >>= f).ConsumesAt c := by
  intro a ha
  rw [run_kind_bind] at ha ⊢
  exact h a ha

theorem consumesAt_current_bind {f : Token → Parser α} {c : Cursor}
    (h : (f c.current).ConsumesAt c) : (current >>= f).ConsumesAt c := by
  intro a ha
  rw [run_current_bind] at ha ⊢
  exact h a ha

theorem Consuming.bind {p : Parser α} (h : Consuming p) (f : α → Parser β) : Consuming (p >>= f) :=
  fun c => (h c).bind f

theorem Consuming.bind_of {p : Parser α} {f : α → Parser β} (h : ∀ a, Consuming (f a)) :
    Consuming (p >>= f) :=
  fun _ => .bind_of fun a => h a _

theorem consuming_fix {body : (ι → Parser α) → ι → Parser α} (h : ∀ self i, Consuming (body self i))
    (i : ι) : Consuming (fix body i) :=
  fun c => h (fixOver body c.rest) i c

theorem consuming_recursive {body : Parser α → Parser α} (h : ∀ self, Consuming (body self)) :
    Consuming (recursive body) :=
  consuming_fix (fun self _ => h (self ())) ()

theorem consuming_expectElse {k : Kind} (hk : k ≠ .endOfInput) (cause : String → Cause) :
    Consuming (expectElse k cause) := by
  intro c
  refine consumesAt_current_bind (consumesAt_kind_bind ?_)
  split
  · next h => exact consumesAt_advance (h ▸ hk)
  · exact consumesAt_fail _ _

theorem consuming_expect {k : Kind} (hk : k ≠ .endOfInput) : Consuming (expect k) :=
  consuming_expectElse hk _

/-! ### Expressions -/

theorem identifier_consuming : Consuming identifier :=
  (consuming_expectElse (by decide) _).bind _

theorem typeName_consuming : Consuming typeName :=
  identifier_consuming.bind _

theorem primaryBase_consuming (sub : Parser Expr) : Consuming (primaryBase sub) := by
  intro c
  refine consumesAt_kind_bind ?_
  split
  case h_1 h => exact (consumesAt_skip (by simp [h])).bind _
  case h_8 => exact consumesAt_failHere _ _
  all_goals
    next h => exact (consumesAt_advance (by simp [h])).bind _

theorem primaryWith_consuming (sub : Parser Expr) : Consuming (primaryWith sub) :=
  (primaryBase_consuming sub).bind _

theorem postStep_consuming (sub : Parser Expr) : Consuming (postStep sub) :=
  (primaryWith_consuming sub).bind _

theorem signOp?_endOfInput : signOp? .endOfInput = none := rfl

theorem signed_consuming (sub : Parser Expr) : Consuming (signed sub) := by
  refine consuming_recursive fun again c => consumesAt_current_bind ?_
  split
  · exact postStep_consuming sub c
  · next h =>
    refine (consumesAt_skip fun he => ?_).bind _
    rw [he, signOp?_endOfInput] at h
    simp at h

theorem newWith_consuming (sub : Parser Expr) : Consuming (newWith sub) :=
  .bind_of fun _ => identifier_consuming.bind _

theorem castWith_consuming (sub : Parser Expr) : Consuming (castWith sub) :=
  .bind_of fun _ => (consuming_expect (by decide)).bind _

theorem operand_consuming (sub : Parser Expr) : Consuming (operand sub) := by
  refine fun c => consumesAt_kind_bind ?_
  split
  · exact newWith_consuming sub c
  · exact castWith_consuming sub c
  · exact signed_consuming sub c

theorem multiplicative_consuming (sub : Parser Expr) : Consuming (multiplicative sub) :=
  (operand_consuming sub).bind _

theorem additive_consuming (sub : Parser Expr) : Consuming (additive sub) :=
  (multiplicative_consuming sub).bind _

theorem relational_consuming (sub : Parser Expr) : Consuming (relational sub) :=
  (additive_consuming sub).bind _

theorem equality_consuming (sub : Parser Expr) : Consuming (equality sub) :=
  (relational_consuming sub).bind _

theorem conjunction_consuming (sub : Parser Expr) : Consuming (conjunction sub) :=
  (equality_consuming sub).bind _

theorem disjunction_consuming (sub : Parser Expr) : Consuming (disjunction sub) :=
  (conjunction_consuming sub).bind _

theorem exprWith_consuming (sub : Parser Expr) : Consuming (exprWith sub) :=
  .bind_of fun _ => (disjunction_consuming sub).bind _

theorem expr_consuming : Consuming expr :=
  consuming_recursive exprWith_consuming

/-! ### Statements, members and classes -/

theorem condition_consuming : Consuming condition :=
  (consuming_expect (by decide)).bind _

/-- Each form of statement has a token that it cannot do without. -/
theorem formWith_consuming (sub : Parser Stmt) (form : StmtForm) :
    Consuming (formWith sub form) := by
  cases form with
  | expression => exact .bind_of fun _ => expr_consuming.bind _
  | block => exact ((consuming_expect (by decide)).bind _).bind _
  | conditional => exact .bind_of fun _ => condition_consuming.bind _
  | whileLoop => exact .bind_of fun _ => condition_consuming.bind _
  | forLoop => exact .bind_of fun _ => (consuming_expect (by decide)).bind _
  | breakLoop => exact .bind_of fun _ => (consuming_expect (by decide)).bind _
  | returnValue => exact .bind_of fun _ => .bind_of fun _ => (consuming_expect (by decide)).bind _
  | declaration => exact .bind_of fun _ => identifier_consuming.bind _

theorem stmtWith_consuming (sub : Parser Stmt) (table : StmtTable) :
    Consuming (stmtWith sub table) :=
  .bind_of fun _ => formWith_consuming sub _

theorem stmt_consuming (table : StmtTable) : Consuming (stmt table) :=
  consuming_recursive fun sub => stmtWith_consuming sub table

theorem member_consuming (table : StmtTable) : Consuming (member table) :=
  .bind_of fun _ => typeName_consuming.bind _

theorem classDecl_consuming (table : StmtTable) : Consuming (classDecl table) :=
  (consuming_expect (by decide)).bind _

/-! ### Recovery -/

/-- A parser with its recovery consumes a token, whether it succeeds or not, if
recovery consumes one where the parser consumed none. -/
theorem left_recovering_lt {p : Parser α} (hp : Consuming p) {recover : Nat → Parser Unit}
    {c : Cursor} (hr : (recover c.consumed c).cursor.left < c.left) :
    (recovering p recover c).cursor.left < c.left := by
  simp only [recovering, run_consumed_bind]
  rw [run_bind_ok (p := attempt p) _ rfl]
  show ((_ : Parser (Option α)) (p c).cursor).cursor.left < c.left
  cases ha : (p c).outcome with
  | ok a => exact hp c a ha
  | error e =>
    have hle := p.left_le c
    refine Nat.lt_of_le_of_lt (left_bind_le (recover c.consumed) _ (p c).cursor) ?_
    by_cases hl : (p c).cursor.left = c.left
    · rw [(p.reaches c).eq_of_left_eq hl]
      exact hr
    · have := (recover c.consumed).left_le (p c).cursor
      omega

theorem left_forceStep_lt {c : Cursor} (h : c.current.kind ≠ .endOfInput) :
    (forceStep c.consumed c).cursor.left < c.left := by
  simp only [forceStep, run_consumed_bind, if_true]
  exact Nat.lt_of_le_of_lt (left_bind_le _ _ _) (Cursor.left_advance_lt h)

theorem left_skip_lt {c : Cursor} (h : c.current.kind ≠ .endOfInput) :
    (skip c).cursor.left < c.left :=
  consumesAt_skip h _ rfl

theorem left_resumeStmtWith_lt (sub : Parser Stmt) {c : Cursor}
    (h : c.current.kind ≠ .endOfInput) :
    (resumeStmtWith sub c.consumed c).cursor.left < c.left :=
  Nat.lt_of_le_of_lt (left_bind_le _ _ _)
    (Nat.lt_of_le_of_lt (left_bind_le _ _ _) (left_forceStep_lt h))

theorem left_resumeMember_lt {c : Cursor} (h : c.current.kind ≠ .endOfInput) :
    (resumeMember c.consumed c).cursor.left < c.left := by
  simp only [resumeMember, run_consumed_bind, if_true, run_kind_bind]
  split
  · exact left_skip_lt h
  · exact Nat.lt_of_le_of_lt (left_bind_le _ _ _) (left_skip_lt h)
  · exact Nat.lt_of_le_of_lt (left_bind_le _ _ _) (left_skip_lt h)

theorem left_resumeClass_lt {c : Cursor} (h : c.current.kind ≠ .endOfInput) :
    (resumeClass c.consumed c).cursor.left < c.left :=
  Nat.lt_of_le_of_lt (left_bind_le _ _ _) (left_forceStep_lt h)

theorem ne_endOfInput_of_endsBody {k : Kind} (h : endsBody k = false) : k ≠ .endOfInput := by
  rintro rfl
  simp [endsBody] at h

/-- A turn of the loop over the statements of a block consumes a token. -/
theorem left_stmtTurn_lt {sub : Parser Stmt} (hs : Consuming sub) {c : Cursor}
    (h : endsBody c.current.kind = false) :
    (recovering sub (resumeStmtWith sub) c).cursor.left < c.left :=
  left_recovering_lt hs (left_resumeStmtWith_lt sub (ne_endOfInput_of_endsBody h))

/-- A turn of the loop over the members of a class consumes a token. -/
theorem left_memberTurn_lt (table : StmtTable) {c : Cursor} (h : endsBody c.current.kind = false) :
    (recovering (member table) resumeMember c).cursor.left < c.left :=
  left_recovering_lt (member_consuming table) (left_resumeMember_lt (ne_endOfInput_of_endsBody h))

/-- A turn of the loop over the classes of a program consumes a token. -/
theorem left_classTurn_lt (table : StmtTable) {c : Cursor} (h : c.current.kind ≠ .endOfInput) :
    (recovering (classDecl table) resumeClass c).cursor.left < c.left :=
  left_recovering_lt (classDecl_consuming table) (left_resumeClass_lt h)

end Parser
end BantamJava
