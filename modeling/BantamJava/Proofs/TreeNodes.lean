/-
# The nodes of a program

A program is a tree of classes, members, parameters, blocks, statements and expressions.
What is said of all of them is said of nodes: `Node.parts` lists what a node is directly
made of, in the order of the text, and `Node.preorder` lists all nodes of a tree, each in
front of its parts. A block as a statement is a node with one part, the block.

Key definitions: `Node`, `Node.parts`, `Node.position`, `Node.preorder`, `Program.nodes`,
`Node.Every`.
Key theorems: `Node.induction`, `Node.preorder_eq`, `Node.every_iff`.
-/
import BantamJava.Tree.Program

namespace BantamJava

/-- A node of the tree of a class. -/
inductive Node where
  | ofClass (c : Class)
  | ofMember (m : Member)
  | ofFormal (f : Formal)
  | ofBlock (b : Block)
  | ofStmt (s : Stmt)
  | ofExpr (e : Expr)

/-- The expressions that an expression is directly made of, in the order of the text. -/
def Expr.operands : Expr → List Expr
  | .assign _ receiver _ value => receiver.toList ++ [value]
  | .assignElement _ receiver _ index value => receiver.toList ++ [index, value]
  | .binary _ _ left right => [left, right]
  | .instanceOf _ e _ | .unary _ _ e | .step _ _ _ e | .cast _ _ e => [e]
  | .new _ _ size => size.toList
  | .var _ receiver _ => receiver.toList
  | .element _ receiver _ index => receiver.toList ++ [index]
  | .call _ receiver _ args => receiver.toList ++ args
  | .int .. | .string .. | .bool .. => []

/-- The nodes that a statement is directly made of, in the order of the text. -/
def Stmt.parts : Stmt → List Node
  | .ifElse _ condition thenBranch elseBranch =>
    .ofExpr condition :: .ofStmt thenBranch :: elseBranch.toList.map .ofStmt
  | .whileLoop _ condition body => [.ofExpr condition, .ofStmt body]
  | .forLoop _ init condition update body =>
    (init.toList ++ condition.toList ++ update.toList).map .ofExpr ++ [.ofStmt body]
  | .breakLoop _ => []
  | .returnWith _ value => value.toList.map .ofExpr
  | .block p stmts => [.ofBlock ⟨stmts, p⟩]
  | .declare _ _ e | .evaluate _ e => [.ofExpr e]

/-- The nodes that a member is directly made of, in the order of the text. -/
def Member.parts : Member → List Node
  | .field f => f.init.toList.map .ofExpr
  | .method m => m.params.map .ofFormal ++ [.ofBlock m.body]

namespace Node

/-- The nodes that a node is directly made of, in the order of the text. -/
def parts : Node → List Node
  | .ofClass c => c.members.map .ofMember
  | .ofMember m => m.parts
  | .ofFormal _ => []
  | .ofBlock b => b.stmts.map .ofStmt
  | .ofStmt s => s.parts
  | .ofExpr e => e.operands.map .ofExpr

/-- The position of a node. -/
def position : Node → Position
  | .ofClass c => c.position
  | .ofMember m => m.position
  | .ofFormal f => f.position
  | .ofBlock b => b.position
  | .ofStmt s => s.position
  | .ofExpr e => e.position

/-- How large a node is: larger than each of its parts. -/
noncomputable def weight : Node → Nat
  | .ofClass c => 2 * sizeOf c
  | .ofMember m => 2 * sizeOf m
  | .ofFormal _ => 0
  | .ofBlock b => 2 * sizeOf b.stmts + 1
  | .ofStmt s => 2 * sizeOf s
  | .ofExpr e => sizeOf e

theorem sizeOf_lt_of_mem_toList {α : Type} [SizeOf α] {a : α} {o : Option α} (h : a ∈ o.toList) :
    sizeOf a < sizeOf o := by
  rw [Option.mem_toList] at h
  subst h
  simp only [Option.some.sizeOf_spec]
  omega

theorem sizeOf_operand_lt {e d : Expr} (h : d ∈ e.operands) : sizeOf d < sizeOf e := by
  have hoption : ∀ o : Option Expr, d ∈ o.toList → sizeOf d < sizeOf o := fun _ =>
    sizeOf_lt_of_mem_toList
  have hlist : ∀ ds : List Expr, d ∈ ds → sizeOf d < sizeOf ds := fun _ => List.sizeOf_lt_of_mem
  cases e <;> simp only [Expr.operands, List.mem_append, List.mem_cons, List.not_mem_nil, or_false,
    Expr.assign.sizeOf_spec, Expr.assignElement.sizeOf_spec, Expr.binary.sizeOf_spec,
    Expr.instanceOf.sizeOf_spec, Expr.unary.sizeOf_spec, Expr.step.sizeOf_spec,
    Expr.new.sizeOf_spec, Expr.cast.sizeOf_spec, Expr.var.sizeOf_spec, Expr.element.sizeOf_spec,
    Expr.call.sizeOf_spec] at h ⊢ <;> grind

theorem weight_stmtPart_lt {s : Stmt} {y : Node} (h : y ∈ s.parts) : y.weight < 2 * sizeOf s := by
  have hexpr : ∀ o : Option Expr, y ∈ o.toList.map ofExpr → y.weight < sizeOf o := by
    intro o hy
    obtain ⟨e, he, rfl⟩ := List.mem_map.1 hy
    exact sizeOf_lt_of_mem_toList he
  have hstmt : ∀ o : Option Stmt, y ∈ o.toList.map ofStmt → y.weight < 2 * sizeOf o := by
    intro o hy
    obtain ⟨t, ht, rfl⟩ := List.mem_map.1 hy
    exact Nat.mul_lt_mul_of_pos_left (sizeOf_lt_of_mem_toList ht) (by decide)
  cases s <;> simp only [Stmt.parts, List.map_append, List.mem_append, List.mem_cons,
    List.not_mem_nil, or_false, Stmt.ifElse.sizeOf_spec, Stmt.whileLoop.sizeOf_spec,
    Stmt.forLoop.sizeOf_spec, Stmt.returnWith.sizeOf_spec, Stmt.block.sizeOf_spec,
    Stmt.declare.sizeOf_spec, Stmt.evaluate.sizeOf_spec] at h ⊢ <;> grind [weight]

theorem weight_part_lt {x y : Node} (h : y ∈ x.parts) : y.weight < x.weight := by
  cases x with
  | ofClass c =>
    obtain ⟨m, hm, rfl⟩ := List.mem_map.1 h
    have hlt := List.sizeOf_lt_of_mem hm
    cases c
    simp [weight] at hlt ⊢
    omega
  | ofMember m =>
    cases m with
    | field f =>
      cases f
      simp [parts, Member.parts] at h
      obtain ⟨e, rfl, rfl⟩ := h
      simp [weight]
      omega
    | method m =>
      obtain ⟨_, _, _, ⟨_, _⟩, _⟩ := m
      rcases List.mem_append.1 h with h | h
      · obtain ⟨f, -, rfl⟩ := List.mem_map.1 h
        simp only [weight, Member.method.sizeOf_spec, Method.mk.sizeOf_spec]
        omega
      · obtain rfl := List.mem_singleton.1 h
        simp only [weight, Member.method.sizeOf_spec, Method.mk.sizeOf_spec, Block.mk.sizeOf_spec]
        omega
  | ofFormal f => cases h
  | ofBlock b =>
    obtain ⟨s, hs, rfl⟩ := List.mem_map.1 h
    have hlt := List.sizeOf_lt_of_mem hs
    simp only [weight]
    omega
  | ofStmt s => exact weight_stmtPart_lt h
  | ofExpr e =>
    obtain ⟨d, hd, rfl⟩ := List.mem_map.1 h
    exact sizeOf_operand_lt hd

/-- What holds of a node if it holds of its parts holds of every node. -/
theorem induction {motive : Node → Prop} (h : ∀ x, (∀ y ∈ x.parts, motive y) → motive x)
    (x : Node) : motive x :=
  h x fun y hy =>
    have := weight_part_lt hy
    induction h y
termination_by x.weight

/-- The node and all nodes in it, each in front of its parts and these in the order of the
text. -/
def preorder (x : Node) : List Node := x :: x.parts.attach.flatMap fun y => y.1.preorder
termination_by x.weight
decreasing_by exact weight_part_lt y.2

theorem preorder_eq (x : Node) : x.preorder = x :: x.parts.flatMap preorder := by
  rw [preorder]
  simp

theorem mem_preorder_self (x : Node) : x ∈ x.preorder := by
  rw [preorder_eq]
  exact List.mem_cons_self

theorem mem_preorder_of_part {x y z : Node} (hy : y ∈ x.parts) (hz : z ∈ y.preorder) :
    z ∈ x.preorder := by
  rw [preorder_eq x]
  exact List.mem_cons_of_mem _ (List.mem_flatMap.2 ⟨y, hy, hz⟩)

/-- All nodes of the tree satisfy `P`. -/
def Every (P : Node → Prop) (x : Node) : Prop := ∀ z ∈ x.preorder, P z

theorem every_iff {P : Node → Prop} {x : Node} :
    x.Every P ↔ P x ∧ ∀ y ∈ x.parts, y.Every P := by
  simp only [Every, preorder_eq x, List.forall_mem_cons, List.mem_flatMap]
  constructor
  · rintro ⟨hx, hparts⟩
    exact ⟨hx, fun y hy z hz => hparts z ⟨y, hy, hz⟩⟩
  · rintro ⟨hx, hparts⟩
    exact ⟨hx, fun z ⟨y, hy, hz⟩ => hparts y hy z hz⟩

/-- All nodes of an expression are expressions. -/
theorem every_ofExpr {P : Node → Prop} (h : ∀ e, P (.ofExpr e)) (e : Expr) :
    (ofExpr e).Every P := by
  generalize hx : ofExpr e = x
  induction x using induction generalizing e with
  | h x ih =>
    subst hx
    refine every_iff.2 ⟨h e, fun y hy => ?_⟩
    obtain ⟨d, -, rfl⟩ := List.mem_map.1 hy
    exact ih _ hy d rfl

end Node

/-- All nodes of a program but itself, each in front of its parts. -/
def Program.nodes (p : Program) : List Node := (p.classes.map Node.ofClass).flatMap Node.preorder

end BantamJava
