/-
# The grammar of expressions

One parser for each level, the loosest first:

1. assignment, right to left;
2. `||` and 3. `&&`, left to right;
4. `==` and `!=`, and 5. `<`, `>`, `<=`, `>=` and `instanceof`, at most one;
6. `+` and `-`, and 7. `*`, `/` and `%`, left to right;
8. `new` and `cast`;
9. `-`, `!`, `++` and `--` before an operand;
10. one `++` or `--` after an operand, and chains of names, calls and elements.

Equality and comparison do not chain: in `a == b == c` the parser stops in
front of the second `==`. Parsers that contain an expression take the parser
for it as their argument `sub`; `expr` ties the knot.

Key definitions: `Parser.expr`, `Parser.primary`, `Parser.newExpr`,
`Parser.castExpr`, `Parser.arguments`.
-/
import BantamJava.Parsing.Name
import BantamJava.Text.Integer
import BantamJava.Tree.Expr

namespace BantamJava
namespace Parser

/-- The operator `||`. -/
def orOp? : Kind → Option BinaryOp
  | .or => some .or
  | _ => none

/-- The operator `&&`. -/
def andOp? : Kind → Option BinaryOp
  | .and => some .and
  | _ => none

/-- The operators of equality. -/
def equalityOp? : Kind → Option BinaryOp
  | .equals => some .eq
  | .notEquals => some .ne
  | _ => none

/-- The operators of comparison, `instanceof` apart. -/
def comparisonOp? : Kind → Option BinaryOp
  | .less => some .lt
  | .greater => some .gt
  | .lessEquals => some .leq
  | .greaterEquals => some .geq
  | _ => none

/-- The operators of sums. -/
def additiveOp? : Kind → Option BinaryOp
  | .plus => some .plus
  | .dash => some .minus
  | _ => none

/-- The operators of products. -/
def multiplicativeOp? : Kind → Option BinaryOp
  | .star => some .times
  | .slash => some .divide
  | .percent => some .modulus
  | _ => none

/-- The operators that step a variable. -/
def stepOp? : Kind → Option StepOp
  | .plusPlus => some .incr
  | .minusMinus => some .decr
  | _ => none

/-- The operators that may stand before an operand, with what they make of it. -/
def signOp? : Kind → Option (Position → Expr → Expr)
  | .dash => some fun p e => .unary p .neg e
  | .not => some fun p e => .unary p .not e
  | .plusPlus => some fun p e => .step p .incr .before e
  | .minusMinus => some fun p e => .step p .decr .before e
  | _ => none

/-- What follows the left operand of a chain: an operator with its right
operand, and then what follows the two. -/
def chainRound (op? : Kind → Option BinaryOp) (operand : Parser Expr) (again : Expr → Parser Expr)
    (left : Expr) : Parser Expr := do
  match op? (← kind) with
  | none => pure left
  | some op => do
    skip
    let right ← operand
    again (.join op left right)

/-- Operands joined from left to right by the operators of one level. -/
def chain (op? : Kind → Option BinaryOp) (operand : Parser Expr) : Parser Expr := do
  let first ← operand
  fix (chainRound op? operand) first

/-- An operand, or two joined by one operator. -/
def single (op? : Kind → Option BinaryOp) (operand : Parser Expr) : Parser Expr := do
  let left ← operand
  match op? (← kind) with
  | none => pure left
  | some op => do
    skip
    let right ← operand
    pure (.join op left right)

section Levels

variable (sub : Parser Expr)

/-- The arguments of a call, without the parentheses. -/
def argumentsWith : Parser (List Expr) := do
  if (← kind) = .closeParen then pure [] else commaSeparated sub

/-- What may follow a name: arguments make it a call, an index makes it an
array element, and otherwise it is a variable. -/
def nameSuffix (receiver : Option Expr) (name : String) (p : Position) : Parser Expr := do
  match ← kind with
  | .openParen => do
    skip
    let args ← argumentsWith sub
    let _ ← expect .closeParen
    pure (.call p receiver name args)
  | .openBracket => do
    skip
    let index ← sub
    let _ ← expect .closeBracket
    pure (.element p receiver name index)
  | _ => pure (.var p receiver name)

/-- An integer constant. -/
def integerConstant : Parser Expr := do
  let t ← advance
  match readInteger? t.value with
  | some n => pure (.int t.position n)
  | none => fail ⟨.badNumber t.value, t.position⟩

/-- The start of a chain: a constant, a name, or an expression in parentheses. -/
def primaryBase : Parser Expr := do
  match ← kind with
  | .openParen => do
    skip
    let e ← sub
    let _ ← expect .closeParen
    pure e
  | .number => integerConstant
  | .string => do
    let t ← advance
    pure (.string t.position t.value)
  | .boolean => do
    let t ← advance
    pure (.bool t.position (t.value == "true"))
  | .thisWord | .superWord => do
    let t ← advance
    pure (.var t.position none t.value)
  | .identifier => do
    let t ← advance
    nameSuffix sub none t.value t.position
  | _ => failHere fun found => .unexpectedFor found "expected an expression"

/-- What follows a receiver: a dot with a name, and then what follows that. -/
def dotRound (again : Expr → Parser Expr) (receiver : Expr) : Parser Expr := do
  if (← kind) = .dot then
    skip
    let name ← identifier
    let e ← nameSuffix sub (some receiver) name receiver.position
    again e
  else pure receiver

/-- A chain: each dot makes all before it the receiver of what follows. -/
def primaryWith : Parser Expr := do
  let base ← primaryBase sub
  fix (dotRound sub) base

/-- A chain with at most one step operator after it. -/
def postStep : Parser Expr := do
  let e ← primaryWith sub
  match stepOp? (← kind) with
  | none => pure e
  | some op => do
    skip
    pure (.step e.position op .after e)

/-- An operator before an operand that may have more of them, or the operand
itself. -/
def signRound (again : Parser Expr) : Parser Expr := do
  let t ← current
  match signOp? t.kind with
  | none => postStep sub
  | some make => do
    skip
    let operand ← again
    pure (make t.position operand)

/-- Any number of operators before an operand. -/
def signed : Parser Expr := recursive (signRound sub)

/-- A new object or a new array. -/
def newWith : Parser Expr := do
  let t ← advance
  let name ← identifier
  match ← kind with
  | .openParen => do
    skip
    let _ ← expect .closeParen
    pure (.new t.position name none)
  | .openBracket => do
    skip
    let size ← sub
    let _ ← expect .closeBracket
    pure (.new t.position name (some size))
  | _ =>
    failHere fun found =>
      .unexpectedFor found ("expected `(` or `[` after `new " ++ name ++ "`")

/-- A cast. -/
def castWith : Parser Expr := do
  let t ← advance
  let _ ← expect .openParen
  let name ← typeName
  let _ ← expect .comma
  let operand ← sub
  let _ ← expect .closeParen
  pure (.cast t.position name operand)

/-- An operand of a product. -/
def operand : Parser Expr := do
  match ← kind with
  | .newWord => newWith sub
  | .castWord => castWith sub
  | _ => signed sub

/-- Products. -/
def multiplicative : Parser Expr := chain multiplicativeOp? (operand sub)

/-- Sums. -/
def additive : Parser Expr := chain additiveOp? (multiplicative sub)

/-- Comparisons. -/
def relational : Parser Expr := do
  let left ← additive sub
  if (← kind) = .instanceofWord then
    skip
    let name ← typeName
    pure (.instanceOf left.position left name)
  else
    match comparisonOp? (← kind) with
    | none => pure left
    | some op => do
      skip
      let right ← additive sub
      pure (.join op left right)

/-- Equalities. -/
def equality : Parser Expr := single equalityOp? (relational sub)

/-- Conjunctions. -/
def conjunction : Parser Expr := chain andOp? (equality sub)

/-- Disjunctions. -/
def disjunction : Parser Expr := chain orOp? (conjunction sub)

/-- A disjunction, or an assignment to one. -/
def exprWith : Parser Expr := do
  let leading ← current
  let left ← disjunction sub
  if (← kind) = .assignment then
    skip
    let value ← sub
    pure (left.assignTo leading.value value)
  else pure left

end Levels

/-- An expression. -/
def expr : Parser Expr := recursive exprWith

/-- A chain of names, calls and elements. -/
def primary : Parser Expr := primaryWith expr

/-- A new object or a new array; the current token is taken for `new`. -/
def newExpr : Parser Expr := newWith expr

/-- A cast; the current token is taken for `cast`. -/
def castExpr : Parser Expr := castWith expr

/-- The arguments of a call, without the parentheses. -/
def arguments : Parser (List Expr) := argumentsWith expr

end Parser
end BantamJava
