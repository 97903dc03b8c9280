/-
# Expressions

The tree of an expression. Every node carries the position of the first token
of its text that is not an opening parenthesis. Parentheses leave no node
behind, and whether the target of an assignment may be assigned is not decided
here.

Since a node may hold an optional receiver and a list of arguments, functions
on expressions come in threes: on a node, on an optional one, on a list.

Key definitions: `Expr`, `Expr.position`, `Expr.receiver?`, `Expr.text`.
Key theorems: `Expr.same_iff`.
-/
import BantamJava.Text.Quoted
import BantamJava.Text.Position

namespace BantamJava

/-- Operators with two operands, the loosest first. -/
inductive BinaryOp where
  | or | and
  | eq | ne
  | lt | gt | leq | geq
  | plus | minus
  | times | divide | modulus
deriving DecidableEq, Inhabited

/-- The operator's name in renderings of expressions. -/
def BinaryOp.name : BinaryOp → String
  | .or => "Or"
  | .and => "And"
  | .eq => "Eq"
  | .ne => "Ne"
  | .lt => "Lt"
  | .gt => "Gt"
  | .leq => "Leq"
  | .geq => "Geq"
  | .plus => "Plus"
  | .minus => "Minus"
  | .times => "Times"
  | .divide => "Divide"
  | .modulus => "Modulus"

/-- Operators with one operand that change nothing. -/
inductive UnaryOp where
  | neg | not
deriving DecidableEq, Inhabited

/-- The operator's name in renderings of expressions. -/
def UnaryOp.name : UnaryOp → String
  | .neg => "Neg"
  | .not => "Not"

/-- Operators that step a variable. -/
inductive StepOp where
  | incr | decr
deriving DecidableEq, Inhabited

/-- The operator's name in renderings of expressions. -/
def StepOp.name : StepOp → String
  | .incr => "Incr"
  | .decr => "Decr"

/-- Where a step operator stands. Before its operand it yields the updated
value, after it the value before the update. -/
inductive Side where
  | before | after
deriving DecidableEq, Inhabited

/-- The side's name in renderings of expressions. -/
def Side.name : Side → String
  | .before => "Pre"
  | .after => "Post"

/-- An expression. -/
inductive Expr where
  /-- `receiver.name = value` -/
  | assign (pos : Position) (receiver : Option Expr) (name : String) (value : Expr)
  /-- `receiver.name[index] = value` -/
  | assignElement (pos : Position) (receiver : Option Expr) (name : String) (index value : Expr)
  | binary (pos : Position) (op : BinaryOp) (left right : Expr)
  /-- `operand instanceof typeName` -/
  | instanceOf (pos : Position) (operand : Expr) (typeName : String)
  | unary (pos : Position) (op : UnaryOp) (operand : Expr)
  | step (pos : Position) (op : StepOp) (side : Side) (operand : Expr)
  /-- `new typeName()`, or `new typeName[size]` -/
  | new (pos : Position) (typeName : String) (size : Option Expr)
  /-- `cast(typeName, operand)` -/
  | cast (pos : Position) (typeName : String) (operand : Expr)
  /-- `receiver.name` -/
  | var (pos : Position) (receiver : Option Expr) (name : String)
  /-- `receiver.name[index]` -/
  | element (pos : Position) (receiver : Option Expr) (name : String) (index : Expr)
  /-- `receiver.method(args)` -/
  | call (pos : Position) (receiver : Option Expr) (method : String) (args : List Expr)
  | int (pos : Position) (value : Int)
  | string (pos : Position) (value : String)
  | bool (pos : Position) (value : Bool)
deriving Inhabited

namespace Expr

/-- The position of an expression. -/
def position : Expr → Position
  | .assign p .. | .assignElement p .. | .binary p .. | .instanceOf p .. | .unary p ..
  | .step p .. | .new p .. | .cast p .. | .var p .. | .element p .. | .call p ..
  | .int p _ | .string p _ | .bool p _ => p

/-- The receiver of an expression that has a place for one. -/
def receiver? : Expr → Option Expr
  | .assign _ r .. | .assignElement _ r .. | .var _ r _ | .element _ r .. | .call _ r .. => r
  | _ => none

/-- Two operands joined by an operator; the left one gives the position. -/
def join (op : BinaryOp) (left right : Expr) : Expr :=
  .binary left.position op left right

/-- The assignment of `value` to a target whose first token is `leading`. A
variable or an array element keeps its receiver; of any other target only the
first token is kept. -/
def assignTo (target : Expr) (leading : String) (value : Expr) : Expr :=
  match target with
  | .var p receiver name => .assign p receiver name value
  | .element p receiver name index => .assignElement p receiver name index value
  | other => .assign other.position none leading value

end Expr

mutual

/-- A compact rendering, such as `Plus(1, Times(2, 3))` or `a.b.c()`. -/
def Expr.text : Expr → String
  | .assign _ receiver name value =>
    "Assign(" ++ receiverText receiver ++ name ++ ", " ++ value.text ++ ")"
  | .assignElement _ receiver name index value =>
    "Assign(" ++ receiverText receiver ++ name ++ "[" ++ index.text ++ "], " ++ value.text ++ ")"
  | .binary _ op left right => op.name ++ "(" ++ left.text ++ ", " ++ right.text ++ ")"
  | .instanceOf _ operand typeName => "Instanceof(" ++ operand.text ++ ", " ++ typeName ++ ")"
  | .unary _ op operand => op.name ++ "(" ++ operand.text ++ ")"
  | .step _ op side operand => side.name ++ op.name ++ "(" ++ operand.text ++ ")"
  | .new _ typeName none => "New(" ++ typeName ++ ")"
  | .new _ typeName (some size) => "NewArray(" ++ typeName ++ ", " ++ size.text ++ ")"
  | .cast _ typeName operand => "Cast(" ++ typeName ++ ", " ++ operand.text ++ ")"
  | .var _ receiver name => receiverText receiver ++ name
  | .element _ receiver name index => receiverText receiver ++ name ++ "[" ++ index.text ++ "]"
  | .call _ receiver method args =>
    receiverText receiver ++ method ++ "(" ++ ", ".intercalate (argumentTexts args) ++ ")"
  | .int _ value => toString value
  | .string _ value => quoted value
  | .bool _ value => if value then "true" else "false"

/-- A receiver and its dot. -/
def receiverText : Option Expr → String
  | none => ""
  | some e => e.text ++ "."

/-- Each argument rendered. -/
def argumentTexts : List Expr → List String
  | [] => []
  | e :: es => e.text :: argumentTexts es

end

mutual

/-- Whether two expressions are the same, positions included. -/
def Expr.same : Expr → Expr → Bool
  | .assign p r n v, .assign p' r' n' v' =>
    decide (p = p') && sameOptional r r' && decide (n = n') && v.same v'
  | .assignElement p r n i v, .assignElement p' r' n' i' v' =>
    decide (p = p') && sameOptional r r' && decide (n = n') && i.same i' && v.same v'
  | .binary p o a b, .binary p' o' a' b' =>
    decide (p = p') && decide (o = o') && a.same a' && b.same b'
  | .instanceOf p e t, .instanceOf p' e' t' => decide (p = p') && e.same e' && decide (t = t')
  | .unary p o e, .unary p' o' e' => decide (p = p') && decide (o = o') && e.same e'
  | .step p o s e, .step p' o' s' e' =>
    decide (p = p') && decide (o = o') && decide (s = s') && e.same e'
  | .new p t z, .new p' t' z' => decide (p = p') && decide (t = t') && sameOptional z z'
  | .cast p t e, .cast p' t' e' => decide (p = p') && decide (t = t') && e.same e'
  | .var p r n, .var p' r' n' => decide (p = p') && sameOptional r r' && decide (n = n')
  | .element p r n i, .element p' r' n' i' =>
    decide (p = p') && sameOptional r r' && decide (n = n') && i.same i'
  | .call p r m as, .call p' r' m' as' =>
    decide (p = p') && sameOptional r r' && decide (m = m') && sameArguments as as'
  | .int p v, .int p' v' => decide (p = p') && decide (v = v')
  | .string p v, .string p' v' => decide (p = p') && decide (v = v')
  | .bool p v, .bool p' v' => decide (p = p') && decide (v = v')
  | _, _ => false

/-- Whether two optional expressions are the same. -/
def sameOptional : Option Expr → Option Expr → Bool
  | none, none => true
  | some e, some e' => e.same e'
  | _, _ => false

/-- Whether two lists of expressions are the same. -/
def sameArguments : List Expr → List Expr → Bool
  | [], [] => true
  | e :: es, e' :: es' => e.same e' && sameArguments es es'
  | _, _ => false

end

mutual

/-- The test for sameness decides equality. -/
theorem Expr.same_iff : ∀ a b : Expr, a.same b = true ↔ a = b
  | .assign _ r _ v, b => by
    cases b <;> simp [Expr.same, sameOptional_iff r, Expr.same_iff v, and_assoc]
  | .assignElement _ r _ i v, b => by
    cases b <;> simp [Expr.same, sameOptional_iff r, Expr.same_iff i, Expr.same_iff v, and_assoc]
  | .binary _ _ l r, b => by
    cases b <;> simp [Expr.same, Expr.same_iff l, Expr.same_iff r, and_assoc]
  | .instanceOf _ e _, b => by cases b <;> simp [Expr.same, Expr.same_iff e, and_assoc]
  | .unary _ _ e, b => by cases b <;> simp [Expr.same, Expr.same_iff e, and_assoc]
  | .step _ _ _ e, b => by cases b <;> simp [Expr.same, Expr.same_iff e, and_assoc]
  | .new _ _ z, b => by cases b <;> simp [Expr.same, sameOptional_iff z, and_assoc]
  | .cast _ _ e, b => by cases b <;> simp [Expr.same, Expr.same_iff e, and_assoc]
  | .var _ r _, b => by cases b <;> simp [Expr.same, sameOptional_iff r, and_assoc]
  | .element _ r _ i, b => by
    cases b <;> simp [Expr.same, sameOptional_iff r, Expr.same_iff i, and_assoc]
  | .call _ r _ as, b => by
    cases b <;> simp [Expr.same, sameOptional_iff r, sameArguments_iff as, and_assoc]
  | .int _ _, b => by cases b <;> simp [Expr.same]
  | .string _ _, b => by cases b <;> simp [Expr.same]
  | .bool _ _, b => by cases b <;> simp [Expr.same]

theorem sameOptional_iff : ∀ a b : Option Expr, sameOptional a b = true ↔ a = b
  | none, b => by cases b <;> simp [sameOptional]
  | some e, b => by cases b <;> simp [sameOptional, Expr.same_iff e]

theorem sameArguments_iff : ∀ a b : List Expr, sameArguments a b = true ↔ a = b
  | [], b => by cases b <;> simp [sameArguments]
  | e :: es, b => by cases b <;> simp [sameArguments, Expr.same_iff e, sameArguments_iff es]

end

instance : DecidableEq Expr := fun a b => decidable_of_iff _ (Expr.same_iff a b)

end BantamJava
