/-
# Outlines of trees

The full rendering of a tree: every node with all its fields, its position
last.

Key definitions: `Expr.outline`, `Stmt.outline`, `Program.outline`.
-/
import BantamJava.Text.Layout
import BantamJava.Tree.Program

namespace BantamJava

open Layout

/-- The outline of a position. -/
def Position.outline (p : Position) : Layout :=
  record "Position" [("line", atom (toString p.line)), ("column", atom (toString p.column))]

/-- A text in quotes. -/
def quotedAtom (s : String) : Layout := atom (quoted s)

/-- A truth value. -/
def boolAtom (b : Bool) : Layout := atom (if b then "true" else "false")

/-- The operator's name in outlines, which tells its level. -/
def BinaryOp.outline : BinaryOp → Layout
  | .or => atom "LogicOr"
  | .and => atom "LogicAnd"
  | .eq => atom "CompEq"
  | .ne => atom "CompNe"
  | .lt => atom "CompLt"
  | .gt => atom "CompGt"
  | .leq => atom "CompLeq"
  | .geq => atom "CompGeq"
  | .plus => atom "ArithPlus"
  | .minus => atom "ArithMinus"
  | .times => atom "ArithTimes"
  | .divide => atom "ArithDivide"
  | .modulus => atom "ArithModulus"

/-- A node: its own outline and its position. -/
def nodeOutline (node : String) (kind : Layout) (p : Position) : Layout :=
  record node [("kind", kind), ("position", p.outline)]

mutual

/-- The outline of an expression. -/
def Expr.outline : Expr → Layout
  | .assign p receiver name value =>
    nodeOutline "Expr" (record "Assign"
      [("receiver", optionalOutline receiver), ("name", quotedAtom name),
       ("value", value.outline)]) p
  | .assignElement p receiver name index value =>
    nodeOutline "Expr" (record "ArrayAssign"
      [("receiver", optionalOutline receiver), ("name", quotedAtom name),
       ("index", index.outline), ("value", value.outline)]) p
  | .binary p op left right =>
    nodeOutline "Expr" (record "Binary"
      [("op", op.outline), ("left", left.outline), ("right", right.outline)]) p
  | .instanceOf p operand typeName =>
    nodeOutline "Expr" (record "Instanceof"
      [("expr", operand.outline), ("type_name", quotedAtom typeName)]) p
  | .unary p op operand =>
    nodeOutline "Expr" (record "Unary" [("op", atom op.name), ("operand", operand.outline)]) p
  | .step p op side operand =>
    nodeOutline "Expr" (record "IncrDecr"
      [("op", atom op.name), ("operand", operand.outline),
       ("postfix", boolAtom (side == .after))]) p
  | .new p typeName size =>
    nodeOutline "Expr" (record "New"
      [("type_name", quotedAtom typeName), ("array_size", optionalOutline size)]) p
  | .cast p typeName operand =>
    nodeOutline "Expr" (record "Cast"
      [("type_name", quotedAtom typeName), ("expr", operand.outline)]) p
  | .var p receiver name =>
    nodeOutline "Expr" (record "Var"
      [("receiver", optionalOutline receiver), ("name", quotedAtom name)]) p
  | .element p receiver name index =>
    nodeOutline "Expr" (record "Array"
      [("receiver", optionalOutline receiver), ("name", quotedAtom name),
       ("index", index.outline)]) p
  | .call p receiver method args =>
    nodeOutline "Expr" (record "Dispatch"
      [("receiver", optionalOutline receiver), ("method", quotedAtom method),
       ("args", list (argumentOutlines args))]) p
  | .int p value => nodeOutline "Expr" (tuple "ConstInt" [atom (toString value)]) p
  | .string p value => nodeOutline "Expr" (tuple "ConstString" [quotedAtom value]) p
  | .bool p value => nodeOutline "Expr" (tuple "ConstBool" [boolAtom value]) p

/-- The outline of an expression that may be missing. -/
def optionalOutline : Option Expr → Layout
  | none => option none
  | some e => option (some e.outline)

/-- The outlines of a list of expressions. -/
def argumentOutlines : List Expr → List Layout
  | [] => []
  | e :: es => e.outline :: argumentOutlines es

end

/-- The outline of a block whose statements have the given outlines. -/
def blockOutline (stmts : List Layout) (p : Position) : Layout :=
  record "Block" [("stmts", list stmts), ("position", p.outline)]

mutual

/-- The outline of a statement. -/
def Stmt.outline : Stmt → Layout
  | .ifElse p condition thenBranch elseBranch =>
    nodeOutline "Stmt" (record "If"
      [("condition", condition.outline), ("then_body", thenBranch.outline),
       ("else_body", branchOutline elseBranch)]) p
  | .whileLoop p condition body =>
    nodeOutline "Stmt" (record "While"
      [("condition", condition.outline), ("body", body.outline)]) p
  | .forLoop p init condition update body =>
    nodeOutline "Stmt" (record "For"
      [("init", optionalOutline init), ("condition", optionalOutline condition),
       ("update", optionalOutline update), ("body", body.outline)]) p
  | .breakLoop p => nodeOutline "Stmt" (atom "Break") p
  | .returnWith p value => nodeOutline "Stmt" (tuple "Return" [optionalOutline value]) p
  | .block p stmts => nodeOutline "Stmt" (tuple "Block" [blockOutline (stmtOutlines stmts) p]) p
  | .declare p name init =>
    nodeOutline "Stmt" (record "Decl" [("name", quotedAtom name), ("init", init.outline)]) p
  | .evaluate p expr => nodeOutline "Stmt" (tuple "Expression" [expr.outline]) p

/-- The outline of a statement that may be missing. -/
def branchOutline : Option Stmt → Layout
  | none => option none
  | some s => option (some s.outline)

/-- The outlines of a list of statements. -/
def stmtOutlines : List Stmt → List Layout
  | [] => []
  | s :: ss => s.outline :: stmtOutlines ss

end

/-- The outline of a block. -/
def Block.outline (b : Block) : Layout :=
  blockOutline (stmtOutlines b.stmts) b.position

/-- The outline of a parameter. -/
def Formal.outline (f : Formal) : Layout :=
  record "Formal"
    [("type_name", quotedAtom f.typeName), ("name", quotedAtom f.name),
     ("position", f.position.outline)]

/-- The outline of a field. -/
def Field.outline (f : Field) : Layout :=
  record "Field"
    [("type_name", quotedAtom f.typeName), ("name", quotedAtom f.name),
     ("init", optionalOutline f.init), ("position", f.position.outline)]

/-- The outline of a method. -/
def Method.outline (m : Method) : Layout :=
  record "Method"
    [("return_type", quotedAtom m.returnType), ("name", quotedAtom m.name),
     ("params", list (m.params.map Formal.outline)), ("body", m.body.outline),
     ("position", m.position.outline)]

/-- The outline of a member. -/
def Member.outline : Member → Layout
  | .field f => tuple "Field" [f.outline]
  | .method m => tuple "Method" [m.outline]

/-- The outline of a class. -/
def Class.outline (c : Class) : Layout :=
  record "Class"
    [("name", quotedAtom c.name), ("parent", option (c.parent.map quotedAtom)),
     ("members", list (c.members.map Member.outline)), ("position", c.position.outline)]

/-- The outline of a program. -/
def Program.outline (p : Program) : Layout :=
  record "Program"
    [("classes", list (p.classes.map Class.outline)), ("position", p.position.outline)]

end BantamJava
