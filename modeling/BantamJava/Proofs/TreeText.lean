/-
# Trees written out

The outline of a program is put together from below: the lines of each part are indented
once more by everything around it. Here the same text is written from above, line by line,
by a printer that knows how deep it stands (`Datum.written`). It is given the tree as a
datum: the name of every node, with the names and the values of its fields.

The two agree (`Program.text_outline`). A layout hangs from the place where its first line
is put, with the other lines indented as deep as that place is (`Layout.hang`), and parts
that are indented once more hang one level deeper (`Layout.below_part`). So by induction
over a datum its lines hang as the printer writes them (`Datum.hang_layout`), and what is
left is to compare the fields of every node.

Key definitions: `Datum`, `Datum.written`, `Program.datum`, `Layout.hang`, `Datum.layout`.
Key theorems: `Layout.below_part`, `Datum.hang_layout`, `Expr.layout_datum`,
`Stmt.layout_datum`, `Program.text_outline`.
-/
import BantamJava.Tree.Outline

namespace BantamJava

/-! ### Data -/

/-- A value in a tree: a word, or parts with their labels between two brackets. -/
inductive Datum where
  | word (text : String)
  | group (opening : String) (parts : List (String × Datum)) (closing : String)

/-- The start of a line that stands so deep. -/
def newLine (depth : Nat) : String := "\n" ++ String.ofList (List.replicate (4 * depth) ' ')

mutual

/-- The text of a datum in a line that stands so deep. Each part has a line of its own, one
level deeper, and a comma behind it; without parts the brackets stand side by side. -/
def Datum.written (depth : Nat) : Datum → String
  | .word text => text
  | .group opening [] closing => opening ++ closing
  | .group opening (part :: parts) closing =>
    opening ++ writtenParts (depth + 1) (part :: parts) ++ newLine depth ++ closing

/-- The lines of the parts of a datum. -/
def writtenParts (depth : Nat) : List (String × Datum) → String
  | [] => ""
  | (label, datum) :: parts =>
    newLine depth ++ label ++ datum.written depth ++ "," ++ writtenParts depth parts

end

namespace Datum

/-- Named fields between braces. -/
def record (name : String) (fields : List (String × Datum)) : Datum :=
  .group (name ++ " \x7b") (fields.map fun f => (f.1 ++ ": ", f.2)) "\x7d"

/-- One part between parentheses. -/
def tuple (name : String) (part : Datum) : Datum := .group (name ++ "(") [("", part)] ")"

/-- Parts between brackets. -/
def list (parts : List Datum) : Datum := .group "[" (parts.map fun d => ("", d)) "]"

/-- A part that may be missing. -/
def option : Option Datum → Datum
  | none => .word "None"
  | some d => tuple "Some" d

/-- A text in quotes. -/
def string (s : String) : Datum := .word (quoted s)

/-- A truth value. -/
def bool (b : Bool) : Datum := .word (if b then "true" else "false")

end Datum

open Datum

/-! ### The fields of the nodes -/

/-- A position with its fields. -/
def Position.datum (p : Position) : Datum :=
  record "Position" [("line", .word (toString p.line)), ("column", .word (toString p.column))]

/-- What kind of node it is, and where. -/
def nodeDatum (node : String) (p : Position) (kind : Datum) : Datum :=
  record node [("kind", kind), ("position", p.datum)]

/-- The name of an operator with two operands. -/
def BinaryOp.word : BinaryOp → String
  | .or => "LogicOr"
  | .and => "LogicAnd"
  | .eq => "CompEq"
  | .ne => "CompNe"
  | .lt => "CompLt"
  | .gt => "CompGt"
  | .leq => "CompLeq"
  | .geq => "CompGeq"
  | .plus => "ArithPlus"
  | .minus => "ArithMinus"
  | .times => "ArithTimes"
  | .divide => "ArithDivide"
  | .modulus => "ArithModulus"

/-- The name of a sign. -/
def UnaryOp.word : UnaryOp → String
  | .neg => "Neg"
  | .not => "Not"

/-- The name of a step. -/
def StepOp.word : StepOp → String
  | .incr => "Incr"
  | .decr => "Decr"

mutual

/-- An expression with its fields. -/
def Expr.datum : Expr → Datum
  | .assign p receiver name value => nodeDatum "Expr" p (record "Assign"
      [("receiver", exprOption receiver), ("name", string name), ("value", value.datum)])
  | .assignElement p receiver name index value => nodeDatum "Expr" p (record "ArrayAssign"
      [("receiver", exprOption receiver), ("name", string name), ("index", index.datum),
       ("value", value.datum)])
  | .binary p op left right => nodeDatum "Expr" p (record "Binary"
      [("op", .word op.word), ("left", left.datum), ("right", right.datum)])
  | .instanceOf p operand typeName => nodeDatum "Expr" p (record "Instanceof"
      [("expr", operand.datum), ("type_name", string typeName)])
  | .unary p op operand => nodeDatum "Expr" p (record "Unary"
      [("op", .word op.word), ("operand", operand.datum)])
  | .step p op side operand => nodeDatum "Expr" p (record "IncrDecr"
      [("op", .word op.word), ("operand", operand.datum), ("postfix", bool (side == .after))])
  | .new p typeName size => nodeDatum "Expr" p (record "New"
      [("type_name", string typeName), ("array_size", exprOption size)])
  | .cast p typeName operand => nodeDatum "Expr" p (record "Cast"
      [("type_name", string typeName), ("expr", operand.datum)])
  | .var p receiver name => nodeDatum "Expr" p (record "Var"
      [("receiver", exprOption receiver), ("name", string name)])
  | .element p receiver name index => nodeDatum "Expr" p (record "Array"
      [("receiver", exprOption receiver), ("name", string name), ("index", index.datum)])
  | .call p receiver method args => nodeDatum "Expr" p (record "Dispatch"
      [("receiver", exprOption receiver), ("method", string method),
       ("args", list (exprList args))])
  | .int p value => nodeDatum "Expr" p (tuple "ConstInt" (.word (toString value)))
  | .string p value => nodeDatum "Expr" p (tuple "ConstString" (string value))
  | .bool p value => nodeDatum "Expr" p (tuple "ConstBool" (bool value))

/-- An expression that may be missing. -/
def exprOption : Option Expr → Datum
  | none => option none
  | some e => option (some e.datum)

/-- Expressions one after another. -/
def exprList : List Expr → List Datum
  | [] => []
  | e :: es => e.datum :: exprList es

end

/-- A block, of whose statements the data are given. -/
def blockDatum (stmts : List Datum) (p : Position) : Datum :=
  record "Block" [("stmts", list stmts), ("position", p.datum)]

mutual

/-- A statement with its fields. -/
def Stmt.datum : Stmt → Datum
  | .ifElse p condition thenBranch elseBranch => nodeDatum "Stmt" p (record "If"
      [("condition", condition.datum), ("then_body", thenBranch.datum),
       ("else_body", stmtOption elseBranch)])
  | .whileLoop p condition body => nodeDatum "Stmt" p (record "While"
      [("condition", condition.datum), ("body", body.datum)])
  | .forLoop p init condition update body => nodeDatum "Stmt" p (record "For"
      [("init", exprOption init), ("condition", exprOption condition),
       ("update", exprOption update), ("body", body.datum)])
  | .breakLoop p => nodeDatum "Stmt" p (.word "Break")
  | .returnWith p value => nodeDatum "Stmt" p (tuple "Return" (exprOption value))
  | .block p stmts => nodeDatum "Stmt" p (tuple "Block" (blockDatum (stmtList stmts) p))
  | .declare p name init => nodeDatum "Stmt" p (record "Decl"
      [("name", string name), ("init", init.datum)])
  | .evaluate p expr => nodeDatum "Stmt" p (tuple "Expression" expr.datum)

/-- A statement that may be missing. -/
def stmtOption : Option Stmt → Datum
  | none => option none
  | some s => option (some s.datum)

/-- Statements one after another. -/
def stmtList : List Stmt → List Datum
  | [] => []
  | s :: ss => s.datum :: stmtList ss

end

/-- A parameter with its fields. -/
def Formal.datum (f : Formal) : Datum :=
  record "Formal" [("type_name", string f.typeName), ("name", string f.name),
    ("position", f.position.datum)]

/-- A member with its fields. -/
def Member.datum : Member → Datum
  | .field f => tuple "Field" (record "Field" [("type_name", string f.typeName),
      ("name", string f.name), ("init", exprOption f.init), ("position", f.position.datum)])
  | .method m => tuple "Method" (record "Method" [("return_type", string m.returnType),
      ("name", string m.name), ("params", list (m.params.map Formal.datum)),
      ("body", blockDatum (stmtList m.body.stmts) m.body.position),
      ("position", m.position.datum)])

/-- A class with its fields. -/
def Class.datum (c : Class) : Datum :=
  record "Class" [("name", string c.name), ("parent", option (c.parent.map string)),
    ("members", list (c.members.map Member.datum)), ("position", c.position.datum)]

/-- A program with its fields. -/
def Program.datum (p : Program) : Datum :=
  record "Program" [("classes", list (p.classes.map Class.datum)), ("position", p.position.datum)]

/-! ### Layouts that hang -/

namespace Layout

/-- Lines below each other, each indented so deep. -/
def below (depth : Nat) (lines : Layout) : String :=
  String.join (lines.map (newLine depth ++ ·))

/-- The first line where it is put, and the others below it. -/
def hang (depth : Nat) : Layout → String
  | [] => ""
  | line :: lines => line ++ below depth lines

/-- A text in front of the first line. -/
def preceded (label : String) : Layout → Layout
  | [] => []
  | line :: lines => (label ++ line) :: lines

variable {depth : Nat} {l : Layout}

@[simp] theorem below_nil : below depth [] = "" := by simp [below]

theorem below_cons (line : String) (lines : Layout) :
    below depth (line :: lines) = newLine depth ++ line ++ below depth lines := by
  simp [below, String.join_cons]

theorem below_append (l m : Layout) : below depth (l ++ m) = below depth l ++ below depth m := by
  simp [below, String.join_append]

theorem newLine_succ (depth : Nat) : newLine (depth + 1) = newLine depth ++ "    " := by
  have hfour : String.ofList (List.replicate 4 ' ') = "    " := rfl
  rw [newLine, newLine, Nat.mul_succ, ← List.replicate_append_replicate, String.ofList_append,
    hfour, String.append_assoc]

theorem text_eq_hang (l : Layout) : l.text = l.hang 0 := by
  have hnewLine : newLine 0 = "\n" := rfl
  unfold text
  induction l with
  | nil => simp [hang]
  | cons line lines ih =>
    cases lines with
    | nil => simp [hang]
    | cons next lines =>
      rw [String.intercalate_cons_cons, ih, hang, hang, below_cons, hnewLine, String.append_assoc,
        String.append_assoc]

theorem below_eq_hang (h : l ≠ []) : below depth l = newLine depth ++ l.hang depth := by
  obtain ⟨line, lines, rfl⟩ := List.exists_cons_of_ne_nil h
  rw [below_cons, hang, String.append_assoc]

theorem hang_preceded (label : String) (h : l ≠ []) :
    (preceded label l).hang depth = label ++ l.hang depth := by
  obtain ⟨line, lines, rfl⟩ := List.exists_cons_of_ne_nil h
  rw [preceded, hang, hang, String.append_assoc]

theorem preceded_ne_nil (label : String) (h : l ≠ []) : preceded label l ≠ [] := by
  obtain ⟨line, lines, rfl⟩ := List.exists_cons_of_ne_nil h
  exact List.cons_ne_nil _ _

theorem below_withComma (h : l ≠ []) : below depth l.withComma = below depth l ++ "," := by
  induction l with
  | nil => exact absurd rfl h
  | cons line lines ih =>
    cases lines with
    | nil => simp only [withComma, below_cons, below_nil, String.append_empty, String.append_assoc]
    | cons next lines =>
      rw [withComma, below_cons, ih (List.cons_ne_nil _ _), below_cons line, ← String.append_assoc]
      exact List.cons_ne_nil _ _

theorem below_indent (l : Layout) : below depth (l.map ("    " ++ ·)) = below (depth + 1) l := by
  induction l with
  | nil => rfl
  | cons line lines ih =>
    rw [List.map_cons, below_cons, below_cons, ih, newLine_succ, ← String.append_assoc]

/-- A part stands on lines of its own, one level deeper. -/
theorem below_part (h : l ≠ []) :
    below depth l.part = newLine (depth + 1) ++ l.hang (depth + 1) ++ "," := by
  rw [part, below_indent, below_withComma h, below_eq_hang h]

end Layout

/-! ### Layouts of data -/

mutual

/-- The lines of a datum, put together from below. -/
def Datum.layout : Datum → Layout
  | .word text => [text]
  | .group opening [] closing => [opening ++ closing]
  | .group opening (part :: parts) closing =>
    opening :: (layoutParts (part :: parts) ++ [closing])

/-- The lines of the parts of a datum. -/
def layoutParts : List (String × Datum) → Layout
  | [] => []
  | (label, datum) :: parts => (Layout.preceded label datum.layout).part ++ layoutParts parts

end

theorem Datum.layout_ne_nil (d : Datum) : d.layout ≠ [] := by
  rcases d with _ | ⟨_, _ | _, _⟩ <;> exact List.cons_ne_nil _ _

open Layout

mutual

/-- **What is put together from below hangs as it is written from above.** -/
theorem Datum.hang_layout (depth : Nat) : ∀ d : Datum, d.layout.hang depth = d.written depth
  | .word text => by simp [Datum.layout, hang, Datum.written]
  | .group opening [] closing => by simp [Datum.layout, hang, Datum.written]
  | .group opening (part :: parts) closing => by
    rw [Datum.layout, hang, below_append, below_layoutParts depth (part :: parts), below_cons,
      Datum.written]
    simp only [below_nil, String.append_empty, String.append_assoc]

theorem below_layoutParts (depth : Nat) : ∀ parts : List (String × Datum),
    below depth (layoutParts parts) = writtenParts (depth + 1) parts
  | [] => by simp [layoutParts, writtenParts]
  | (label, datum) :: parts => by
    have hlabel := preceded_ne_nil label datum.layout_ne_nil
    rw [layoutParts, below_append, below_part hlabel, hang_preceded label datum.layout_ne_nil,
      datum.hang_layout (depth + 1), below_layoutParts depth parts, writtenParts,
      ← String.append_assoc]

end

theorem Datum.text_layout (d : Datum) : d.layout.text = d.written 0 := by
  rw [text_eq_hang, d.hang_layout]

/-! ### Layouts of nodes -/

namespace Datum

theorem layoutParts_labelled (fields : List (String × Datum)) :
    layoutParts (fields.map fun f => (f.1 ++ ": ", f.2)) =
      (fields.map fun f => (f.1, f.2.layout)).flatMap fun f => (labelled f.1 f.2).part := by
  induction fields with
  | nil => rfl
  | cons f fields ih =>
    have hlabel : preceded (f.1 ++ ": ") f.2.layout = labelled f.1 f.2.layout := by
      cases f.2.layout <;> rfl
    rw [List.map_cons, layoutParts, hlabel, ih]
    rfl

theorem preceded_empty (l : Layout) : preceded "" l = l := by
  cases l with
  | nil => rfl
  | cons line lines => rw [preceded, String.empty_append]

theorem layoutParts_unlabelled (parts : List Datum) :
    layoutParts (parts.map fun d => ("", d)) = (parts.map layout).flatMap part := by
  induction parts with
  | nil => rfl
  | cons d parts ih =>
    rw [List.map_cons, layoutParts, preceded_empty, ih]
    rfl

@[simp] theorem layout_word (text : String) : (word text).layout = atom text := rfl

@[simp] theorem layout_string (s : String) : (string s).layout = quotedAtom s := rfl

@[simp] theorem layout_bool (b : Bool) : (bool b).layout = boolAtom b := rfl

@[simp] theorem layout_record (name : String) (field : String × Datum)
    (fields : List (String × Datum)) :
    (record name (field :: fields)).layout =
      Layout.record name ((field :: fields).map fun f => (f.1, f.2.layout)) := by
  have hparts := layoutParts_labelled (field :: fields)
  rw [List.map_cons] at hparts
  rw [record, List.map_cons, layout, hparts]
  rfl

@[simp] theorem layout_tuple (name : String) (d : Datum) :
    (tuple name d).layout = Layout.tuple name [d.layout] := by
  rw [tuple, layout, layoutParts, preceded_empty]
  rfl

@[simp] theorem layout_list (parts : List Datum) :
    (list parts).layout = Layout.list (parts.map layout) := by
  cases parts with
  | nil => rfl
  | cons d parts =>
    have hparts := layoutParts_unlabelled (d :: parts)
    rw [List.map_cons] at hparts
    rw [list, List.map_cons, layout, hparts]
    rfl

@[simp] theorem layout_option (d : Option Datum) :
    (option d).layout = Layout.option (d.map layout) := by
  cases d with
  | none => rfl
  | some d => exact layout_tuple "Some" d

end Datum

@[simp] theorem Position.layout_datum (p : Position) : p.datum.layout = p.outline := by
  rw [datum, layout_record]
  rfl

@[simp] theorem BinaryOp.outline_eq (op : BinaryOp) : op.outline = atom op.word := by
  cases op <;> rfl

@[simp] theorem UnaryOp.name_eq (op : UnaryOp) : op.name = op.word := by cases op <;> rfl

@[simp] theorem StepOp.name_eq (op : StepOp) : op.name = op.word := by cases op <;> rfl

@[simp] theorem layout_nodeDatum (node : String) (p : Position) (kind : Datum) :
    (nodeDatum node p kind).layout = nodeOutline node kind.layout p := by
  rw [nodeDatum, layout_record, List.map_cons, List.map_cons, List.map_nil, p.layout_datum]
  rfl

mutual

theorem Expr.layout_datum : ∀ e : Expr, e.datum.layout = e.outline
  | .assign p receiver name value => by
    simp [Expr.datum, Expr.outline, layout_exprOption, value.layout_datum]
  | .assignElement p receiver name index value => by
    simp [Expr.datum, Expr.outline, layout_exprOption, index.layout_datum, value.layout_datum]
  | .binary p op left right => by
    simp [Expr.datum, Expr.outline, left.layout_datum, right.layout_datum]
  | .instanceOf p operand typeName => by simp [Expr.datum, Expr.outline, operand.layout_datum]
  | .unary p op operand => by simp [Expr.datum, Expr.outline, operand.layout_datum]
  | .step p op side operand => by simp [Expr.datum, Expr.outline, operand.layout_datum]
  | .new p typeName size => by simp [Expr.datum, Expr.outline, layout_exprOption]
  | .cast p typeName operand => by simp [Expr.datum, Expr.outline, operand.layout_datum]
  | .var p receiver name => by simp [Expr.datum, Expr.outline, layout_exprOption]
  | .element p receiver name index => by
    simp [Expr.datum, Expr.outline, layout_exprOption, index.layout_datum]
  | .call p receiver method args => by
    simp [Expr.datum, Expr.outline, layout_exprOption, layout_exprList]
  | .int p value => by simp [Expr.datum, Expr.outline]
  | .string p value => by simp [Expr.datum, Expr.outline]
  | .bool p value => by simp [Expr.datum, Expr.outline]

theorem layout_exprOption : ∀ e : Option Expr, (exprOption e).layout = optionalOutline e
  | none => rfl
  | some e => by simp [exprOption, optionalOutline, e.layout_datum]

theorem layout_exprList : ∀ es : List Expr, (exprList es).map layout = argumentOutlines es
  | [] => rfl
  | e :: es => by simp [exprList, argumentOutlines, e.layout_datum, layout_exprList es]

end

@[simp] theorem layout_blockDatum (stmts : List Datum) (p : Position) :
    (blockDatum stmts p).layout = blockOutline (stmts.map layout) p := by
  simp [blockDatum, blockOutline]

mutual

theorem Stmt.layout_datum : ∀ s : Stmt, s.datum.layout = s.outline
  | .ifElse p condition thenBranch elseBranch => by
    simp [Stmt.datum, Stmt.outline, condition.layout_datum, thenBranch.layout_datum,
      layout_stmtOption]
  | .whileLoop p condition body => by
    simp [Stmt.datum, Stmt.outline, condition.layout_datum, body.layout_datum]
  | .forLoop p init condition update body => by
    simp [Stmt.datum, Stmt.outline, layout_exprOption, body.layout_datum]
  | .breakLoop p => by simp [Stmt.datum, Stmt.outline]
  | .returnWith p value => by simp [Stmt.datum, Stmt.outline, layout_exprOption]
  | .block p stmts => by simp [Stmt.datum, Stmt.outline, layout_stmtList]
  | .declare p name init => by simp [Stmt.datum, Stmt.outline, init.layout_datum]
  | .evaluate p expr => by simp [Stmt.datum, Stmt.outline, expr.layout_datum]

theorem layout_stmtOption : ∀ s : Option Stmt, (stmtOption s).layout = branchOutline s
  | none => rfl
  | some s => by simp [stmtOption, branchOutline, s.layout_datum]

theorem layout_stmtList : ∀ ss : List Stmt, (stmtList ss).map layout = stmtOutlines ss
  | [] => rfl
  | s :: ss => by simp [stmtList, stmtOutlines, s.layout_datum, layout_stmtList ss]

end

theorem Formal.layout_datum (f : Formal) : f.datum.layout = f.outline := by
  simp [Formal.datum, Formal.outline]

theorem Member.layout_datum (m : Member) : m.datum.layout = m.outline := by
  cases m with
  | field f => simp [Member.datum, Member.outline, Field.outline, layout_exprOption]
  | method m =>
    have hparams : layout ∘ Formal.datum = Formal.outline := funext Formal.layout_datum
    simp [Member.datum, Member.outline, Method.outline, Block.outline, layout_stmtList, hparams]

theorem Class.layout_datum (c : Class) : c.datum.layout = c.outline := by
  have hmembers : layout ∘ Member.datum = Member.outline := funext Member.layout_datum
  have hparent : layout ∘ string = quotedAtom := funext layout_string
  simp [Class.datum, Class.outline, hmembers, hparent]

theorem Program.layout_datum (p : Program) : p.datum.layout = p.outline := by
  have hclasses : layout ∘ Class.datum = Class.outline := funext Class.layout_datum
  simp [Program.datum, Program.outline, hclasses]

/-- **The outline of a program is its tree written out.** -/
theorem Program.text_outline (p : Program) : p.outline.text = p.datum.written 0 := by
  rw [← p.layout_datum, text_layout]

end BantamJava
