/-
# The nearest if

An `else` belongs to the nearest `if` that has none yet, in every program that a parse
returns, however much of the text was dropped. Behind a statement that could take an
`else` no `else` stands: an `if` without `else` was closed because none stood there, and
`while`, `for` and the second branch of an `if` end with the statement inside them. So
the `else` that an `if` takes stands behind a branch that cannot take it. Recovery runs
between the statements of a block only, and a block cannot take an `else`.

Key definitions: `Node.Bound`, `Settled`.
Key theorems: `stmt_settled`, `else_of_nearest_if`.
-/
import BantamJava.Proofs.Ensures
import BantamJava.Proofs.Grammar
import BantamJava.Proofs.Termination
import BantamJava.Proofs.TreeNodes

namespace BantamJava

open BantamJava.Parser

/-- If the node is an `if` with an `else`, its first branch could not take that `else`. -/
def Node.Bound : Node → Prop
  | .ofStmt (.ifElse _ _ yes (some _)) => yes.takesElse = false
  | _ => True

theorem bound_ofExpr (e : Expr) : (Node.ofExpr e).Every Node.Bound :=
  Node.every_ofExpr (fun _ => trivial) e

/-- Every `else` in the statement is bound, and none is left for it at the cursor. -/
def Settled (s : Stmt) (c : Cursor) : Prop :=
  (Node.ofStmt s).Every Node.Bound ∧ (s.takesElse = true → c.current.kind ≠ .elseWord)

theorem Settled.closed {s : Stmt} {c : Cursor} (h : Settled s c)
    (helse : c.current.kind = .elseWord) : s.takesElse = false := by
  cases hopen : s.takesElse with
  | false => rfl
  | true => exact absurd helse (h.2 hopen)

/-- A statement without statements inside it is settled anywhere. -/
theorem settled_of_exprs {s : Stmt} {c : Cursor} (hparts : ∀ y ∈ s.parts, ∃ e, y = .ofExpr e)
    (hbound : (Node.ofStmt s).Bound) (hopen : s.takesElse = false) : Settled s c := by
  refine ⟨Node.every_iff.2 ⟨hbound, fun y hy => ?_⟩, fun htakes => ?_⟩
  · obtain ⟨e, rfl⟩ := hparts y hy
    exact bound_ofExpr e
  · rw [hopen] at htakes
    cases htakes

variable {sub : Parser Stmt}

/-! ### Statements, form by form -/

theorem stmtsWith_bound (h : Ensures (fun _ => True) Settled sub) :
    Gives (fun ss => ∀ s ∈ ss, (Node.ofStmt s).Every Node.Bound) (stmtsWith sub) :=
  gives_collect _ (gives_recovering (h.mono (fun _ hc => hc) fun _ _ hs => hs.1) _)

theorem blockWith_bound (h : Ensures (fun _ => True) Settled sub) :
    Gives (fun b => (Node.ofBlock b).Every Node.Bound) (blockWith sub) := by
  refine .after _ fun t => (stmtsWith_bound h).bind fun ss hss => .after _ fun _ => gives_pure ?_
  refine Node.every_iff.2 ⟨trivial, fun y hy => ?_⟩
  obtain ⟨s, hs, rfl⟩ := List.mem_map.1 hy
  exact hss s hs

theorem blockStmt_settled (h : Ensures (fun _ => True) Settled sub) :
    Ensures (fun _ => True) Settled (blockStmt sub) := by
  refine Ensures.bind (blockWith_bound h) fun b c hb a ha => ?_
  cases ha
  refine ⟨Node.every_iff.2 ⟨trivial, fun y hy => ?_⟩, nofun⟩
  obtain rfl := List.mem_singleton.1 hy
  exact hb

theorem conditionalStmt_settled (h : Ensures (fun _ => True) Settled sub) :
    Ensures (fun _ => True) Settled (conditionalStmt sub) := by
  refine (ensures_true _).bind fun t => (ensures_true _).bind fun test => h.bind fun yes => ?_
  refine ensures_kind fun k => ?_
  split
  · next hk =>
    -- An `else` stands here, so the branch in front of it cannot take it.
    have hthen : Ensures (fun c => Settled yes c ∧ c.current.kind = k)
        (fun _ _ => (Node.ofStmt yes).Every Node.Bound ∧ yes.takesElse = false) skip :=
      fun c hc _ _ => ⟨hc.1.1, hc.1.closed (hc.2.trans hk)⟩
    refine hthen.bind fun _ c hyes no hno => ?_
    refine Ensures.bind (P := fun _ => True) (Q := Settled) h (fun no c hs a ha => ?_) c trivial
      no hno
    cases ha
    refine ⟨Node.every_iff.2 ⟨hyes.2, fun y hy => ?_⟩, hs.2⟩
    simp only [Node.parts, Stmt.parts, Option.toList_some, List.map_cons, List.map_nil,
      List.mem_cons, List.not_mem_nil, or_false] at hy
    rcases hy with rfl | rfl | rfl
    · exact bound_ofExpr test
    · exact hyes.1
    · exact hs.1
  · next hk =>
    intro c hc a ha
    cases ha
    refine ⟨Node.every_iff.2 ⟨trivial, fun y hy => ?_⟩, fun _ => hc.2 ▸ hk⟩
    simp only [Node.parts, Stmt.parts, Option.toList_none, List.map_nil, List.mem_cons,
      List.not_mem_nil, or_false] at hy
    rcases hy with rfl | rfl
    · exact bound_ofExpr test
    · exact hc.1.1

theorem whileStmt_settled (h : Ensures (fun _ => True) Settled sub) :
    Ensures (fun _ => True) Settled (whileStmt sub) := by
  refine (ensures_true _).bind fun t => (ensures_true _).bind fun test => h.bind fun body => ?_
  intro c hbody a ha
  cases ha
  refine ⟨Node.every_iff.2 ⟨trivial, fun y hy => ?_⟩, hbody.2⟩
  simp only [Node.parts, Stmt.parts, List.mem_cons, List.not_mem_nil, or_false] at hy
  rcases hy with rfl | rfl
  · exact bound_ofExpr test
  · exact hbody.1

theorem forStmt_settled (h : Ensures (fun _ => True) Settled sub) :
    Ensures (fun _ => True) Settled (forStmt sub) := by
  refine (ensures_true _).bind fun t => (ensures_true _).bind fun _ =>
    (ensures_true _).bind fun init => (ensures_true _).bind fun _ =>
    (ensures_true _).bind fun test => (ensures_true _).bind fun _ =>
    (ensures_true _).bind fun update => (ensures_true _).bind fun _ => h.bind fun body => ?_
  intro c hbody a ha
  cases ha
  refine ⟨Node.every_iff.2 ⟨trivial, fun y hy => ?_⟩, hbody.2⟩
  simp only [Node.parts, Stmt.parts, List.mem_append, List.mem_singleton] at hy
  rcases hy with hy | rfl
  · obtain ⟨e, -, rfl⟩ := List.mem_map.1 hy
    exact bound_ofExpr e
  · exact hbody.1

theorem expressionStmt_settled : Ensures (fun _ => True) Settled expressionStmt := by
  refine (ensures_true _).bind fun t => (ensures_true _).bind fun e =>
    (ensures_true _).bind fun _ => ?_
  intro c _ a ha
  cases ha
  exact settled_of_exprs (by simp [Stmt.parts]) trivial rfl

theorem breakStmt_settled : Ensures (fun _ => True) Settled breakStmt := by
  refine (ensures_true _).bind fun t => (ensures_true _).bind fun _ => ?_
  intro c _ a ha
  cases ha
  exact settled_of_exprs nofun trivial rfl

theorem returnStmt_settled : Ensures (fun _ => True) Settled returnStmt := by
  refine (ensures_true _).bind fun t => (ensures_true _).bind fun value =>
    (ensures_true _).bind fun _ => ?_
  intro c _ a ha
  cases ha
  refine settled_of_exprs (fun y hy => ?_) trivial rfl
  obtain ⟨e, -, rfl⟩ := List.mem_map.1 hy
  exact ⟨e, rfl⟩

theorem declarationStmt_settled : Ensures (fun _ => True) Settled declarationStmt := by
  refine (ensures_true _).bind fun t => (ensures_true _).bind fun name =>
    (ensures_true _).bind fun _ => (ensures_true _).bind fun e => (ensures_true _).bind fun _ => ?_
  intro c _ a ha
  cases ha
  exact settled_of_exprs (by simp [Stmt.parts]) trivial rfl

theorem formWith_settled (h : Ensures (fun _ => True) Settled sub) (form : StmtForm) :
    Ensures (fun _ => True) Settled (formWith sub form) := by
  cases form with
  | expression => exact expressionStmt_settled
  | block => exact blockStmt_settled h
  | conditional => exact conditionalStmt_settled h
  | whileLoop => exact whileStmt_settled h
  | forLoop => exact forStmt_settled h
  | breakLoop => exact breakStmt_settled
  | returnValue => exact returnStmt_settled
  | declaration => exact declarationStmt_settled

/-- **A statement that could take an `else` has none behind it**, and every `else` in a
statement is bound to the nearest `if`, whatever the table says. -/
theorem stmt_settled (table : StmtTable) : Ensures (fun _ => True) Settled (stmt table) :=
  ensures_recursive fun _ hsub => ensures_kind fun k =>
    (formWith_settled hsub (table.form k)).mono (fun _ _ => trivial) fun _ _ hs => hs

/-! ### Members and classes -/

theorem member_bound (table : StmtTable) :
    Gives (fun m => (Node.ofMember m).Every Node.Bound) (member table) := by
  refine .after _ fun t => .after _ fun type => .after _ fun name => gives_kind fun k => ?_
  split
  · refine Gives.bind (A := fun m => (Node.ofBlock m.body).Every Node.Bound) ?_ fun m hm => ?_
    · refine .after _ fun _ => .after _ fun _ => .after _ fun params => .after _ fun _ => ?_
      exact (blockWith_bound (stmt_settled table)).bind fun b hb => gives_pure hb
    · refine gives_pure (Node.every_iff.2 ⟨trivial, fun y hy => ?_⟩)
      rcases List.mem_append.1 hy with hy | hy
      · obtain ⟨f, -, rfl⟩ := List.mem_map.1 hy
        exact Node.every_iff.2 ⟨trivial, nofun⟩
      · obtain rfl := List.mem_singleton.1 hy
        exact hm
  · refine .after _ fun f => gives_pure (Node.every_iff.2 ⟨trivial, fun y hy => ?_⟩)
    obtain ⟨e, -, rfl⟩ := List.mem_map.1 hy
    exact bound_ofExpr e

theorem classDecl_bound (table : StmtTable) :
    Gives (fun a => (Node.ofClass a).Every Node.Bound) (classDecl table) := by
  have hmembers := gives_collect endsBody (gives_recovering (member_bound table) resumeMember)
  refine .after _ fun t => .after _ fun name => .after _ fun parent => .after _ fun _ =>
    .after _ fun _ => Gives.bind hmembers fun ms hms => .after _ fun _ => gives_pure ?_
  refine Node.every_iff.2 ⟨trivial, fun y hy => ?_⟩
  obtain ⟨m, hm, rfl⟩ := List.mem_map.1 hy
  exact hms m hm

theorem classes_bound (table : StmtTable) :
    Gives (fun as => ∀ a ∈ as, (Node.ofClass a).Every Node.Bound) (classes table) :=
  gives_collect _ (gives_recovering (classDecl_bound table) resumeClass)

/-- **Every `else` belongs to the nearest `if`**: whatever the source delivers and whatever
form of statement each token starts, the first branch of an `if` with an `else`, anywhere
in the program that is returned, is not a statement that could have taken the `else`. -/
theorem else_of_nearest_if (file : String) (s : Source) (table : StmtTable) :
    let session : Session := { Session.start file s with table := table }
    ∀ p test yes no, .ofStmt (.ifElse p test yes (some no)) ∈ session.parse.1.nodes →
      yes.takesElse = false := by
  intro session p test yes no hmem
  obtain ⟨as, has⟩ := (classes_ends session.table session.cursor).1
  rw [Program.nodes, Session.classes_parse has] at hmem
  obtain ⟨x, hx, hin⟩ := List.mem_flatMap.1 hmem
  obtain ⟨a, ha, rfl⟩ := List.mem_map.1 hx
  exact classes_bound _ _ trivial as has a ha _ hin

/-- Two statements of this block are dropped, one of them with its `else`; the last `else`
belongs to the second `if`, not to the first or to the one in the inner block. -/
theorem else_of_nearest_if_behind_dropped :
    let s := Source.ofText "class A{void f(){if(a));else b();if(c)if(d){if(e));}else g();}}" "A"
    let yes := Stmt.block ⟨1, 44⟩ []
    (∃ p test no, .ofStmt (.ifElse p test yes (some no)) ∈
      ({ Session.start "A" s with table := .standard } : Session).parse.1.nodes) ∧
    yes.takesElse = false := by
  intro s yes
  let test : Expr := .var ⟨1, 42⟩ none "d"
  let no : Stmt := .evaluate ⟨1, 58⟩ (.call ⟨1, 58⟩ none "g" [])
  have hmem : .ofStmt (.ifElse ⟨1, 39⟩ test yes (some no)) ∈
      ({ Session.start "A" s with table := .standard } : Session).parse.1.nodes := by
    have hprog : ({ Session.start "A" s with table := .standard } : Session).parse.1 =
        ⟨[⟨"A", none, [.method ⟨"void", "f", [], ⟨[.ifElse ⟨1, 34⟩ (.var ⟨1, 37⟩ none "c")
          (.ifElse ⟨1, 39⟩ test yes (some no)) none], ⟨1, 17⟩⟩, ⟨1, 9⟩⟩], ⟨1, 1⟩⟩], ⟨1, 1⟩⟩ := by
      decide +kernel
    -- From the class down: the method, its body, the first `if`, the second.
    rw [hprog]
    refine List.mem_flatMap.2 ⟨_, List.mem_cons_self, ?_⟩
    refine Node.mem_preorder_of_part List.mem_cons_self ?_
    refine Node.mem_preorder_of_part List.mem_cons_self ?_
    refine Node.mem_preorder_of_part List.mem_cons_self ?_
    exact Node.mem_preorder_of_part (List.mem_cons_of_mem _ List.mem_cons_self)
      (Node.mem_preorder_self _)
  exact ⟨⟨_, test, no, hmem⟩, else_of_nearest_if "A" s .standard _ test yes no hmem⟩

end BantamJava
