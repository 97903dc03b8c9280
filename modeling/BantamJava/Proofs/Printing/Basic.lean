/-
# Printing expressions

An expression is printed as a list of signs: what its tokens say, and not where they
stand. Every operand has a slot, the loosest level of what may stand there, and an
operand of a looser level is put in parentheses. No other parentheses are printed.

A regular expression has only names that can be written. An integer in it has no sign,
since a sign is an operator, and is in range.

Key definitions: `ExprLevel.rank`, `Expr.level`, `BinaryOp.leftSlot`,
`BinaryOp.rightSlot`, `inSlot`, `Expr.signs`, `Expr.isRegular`.
-/
import Mathlib.Data.List.DropRight
import BantamJava.Proofs.Grammar
import BantamJava.Proofs.Spelling

namespace BantamJava

/-! ### Levels and slots -/

namespace ExprLevel

/-- How tightly the expressions of a level hold together. -/
def rank : ExprLevel → Nat
  | .assignment => 1
  | .disjunction => 2
  | .conjunction => 3
  | .equality => 4
  | .comparison => 5
  | .sum => 6
  | .product => 7
  | .operand => 8
  | .signed => 9
  | .stepped => 10
  | .primary => 11
  | .base => 12

/-- The next looser level; there is none looser than assignments. -/
def looser : ExprLevel → ExprLevel
  | .assignment | .disjunction => .assignment
  | .conjunction => .disjunction
  | .equality => .conjunction
  | .comparison => .equality
  | .sum => .comparison
  | .product => .sum
  | .operand => .product
  | .signed => .operand
  | .stepped => .signed
  | .primary => .stepped
  | .base => .primary

theorem one_le_rank (l : ExprLevel) : 1 ≤ l.rank := by
  cases l <;> decide

theorem rank_looser {l : ExprLevel} (h : 1 < l.rank) : l.looser.rank = l.rank - 1 := by
  cases l <;> first | rfl | exact absurd h (by decide)

theorem eq_of_rank_eq {l m : ExprLevel} (h : l.rank = m.rank) : l = m := by
  cases l <;> cases m <;> first | rfl | exact absurd h (by decide)

end ExprLevel

namespace BinaryOp

/-- The kind of the operator's token. -/
def kind : BinaryOp → Kind
  | .or => .or
  | .and => .and
  | .eq => .equals
  | .ne => .notEquals
  | .lt => .less
  | .gt => .greater
  | .leq => .lessEquals
  | .geq => .greaterEquals
  | .plus => .plus
  | .minus => .dash
  | .times => .star
  | .divide => .slash
  | .modulus => .percent

/-- The level of the expressions that the operator makes. -/
def level : BinaryOp → ExprLevel
  | .or => .disjunction
  | .and => .conjunction
  | .eq | .ne => .equality
  | .lt | .gt | .leq | .geq => .comparison
  | .plus | .minus => .sum
  | .times | .divide | .modulus => .product

/-- The loosest level of a left operand. Where operators of the level chain, it is the
level itself. -/
def leftSlot : BinaryOp → ExprLevel
  | .or => .disjunction
  | .and => .conjunction
  | .eq | .ne => .comparison
  | .lt | .gt | .leq | .geq => .sum
  | .plus | .minus => .sum
  | .times | .divide | .modulus => .product

/-- The loosest level of a right operand. -/
def rightSlot : BinaryOp → ExprLevel
  | .or => .conjunction
  | .and => .equality
  | .eq | .ne => .comparison
  | .lt | .gt | .leq | .geq => .sum
  | .plus | .minus => .product
  | .times | .divide | .modulus => .operand

end BinaryOp

/-- The kind of the operator's token. -/
def UnaryOp.kind : UnaryOp → Kind
  | .neg => .dash
  | .not => .not

/-- The kind of the operator's token. -/
def StepOp.kind : StepOp → Kind
  | .incr => .plusPlus
  | .decr => .minusMinus

/-- The level of an expression: that of its outermost operator. -/
def Expr.level : Expr → ExprLevel
  | .assign .. | .assignElement .. => .assignment
  | .binary _ op _ _ => op.level
  | .instanceOf .. => .comparison
  | .new .. | .cast .. => .operand
  | .unary .. | .step _ _ .before _ => .signed
  | .step _ _ .after _ => .stepped
  | .var .. | .element .. | .call .. | .int .. | .string .. | .bool .. => .primary

/-! ### Printing -/

/-- What a token says: its kind and its value. -/
abbrev Sign : Type := Kind × String

/-- What a token of a kind says that is spelled in one way. -/
def Kind.sign (k : Kind) : Sign := (k, k.describe)

/-- What the token of a word says. -/
def wordSign (word : String) : Sign := (wordKind word, word)

/-- What the tokens of a type's name say. -/
def typeSigns (type : String) : List Sign :=
  if ['[', ']'] <:+ type.toList then
    [wordSign (String.ofList (type.toList.rdrop 2)), Kind.openBracket.sign, Kind.closeBracket.sign]
  else [wordSign type]

/-- The signs of an expression of some level, in parentheses if it is looser than its
slot. -/
def inSlot (slot level : ExprLevel) (signs : List Sign) : List Sign :=
  if level.rank < slot.rank then Kind.openParen.sign :: (signs ++ [Kind.closeParen.sign])
  else signs

mutual

/-- What the tokens of an expression say. All kinds of expressions fit the slots of
assigned values, indices, sizes, arguments and what is cast. -/
def Expr.signs : Expr → List Sign
  | .assign _ receiver name value =>
    receiverSigns receiver ++ wordSign name :: Kind.assignment.sign :: value.signs
  | .assignElement _ receiver name index value =>
    receiverSigns receiver ++ wordSign name :: Kind.openBracket.sign ::
      (index.signs ++ Kind.closeBracket.sign :: Kind.assignment.sign :: value.signs)
  | .binary _ op left right =>
    inSlot op.leftSlot left.level left.signs ++ op.kind.sign ::
      inSlot op.rightSlot right.level right.signs
  | .instanceOf _ operand type =>
    inSlot .sum operand.level operand.signs ++ Kind.instanceofWord.sign :: typeSigns type
  | .unary _ op operand => op.kind.sign :: inSlot .signed operand.level operand.signs
  | .step _ op .before operand => op.kind.sign :: inSlot .signed operand.level operand.signs
  | .step _ op .after operand => inSlot .primary operand.level operand.signs ++ [op.kind.sign]
  | .new _ type size => Kind.newWord.sign :: wordSign type :: sizeSigns size
  | .cast _ type operand =>
    Kind.castWord.sign :: Kind.openParen.sign :: (typeSigns type ++ Kind.comma.sign ::
      (operand.signs ++ [Kind.closeParen.sign]))
  | .var _ receiver name => receiverSigns receiver ++ [wordSign name]
  | .element _ receiver name index =>
    receiverSigns receiver ++ wordSign name :: Kind.openBracket.sign ::
      (index.signs ++ [Kind.closeBracket.sign])
  | .call _ receiver method args =>
    receiverSigns receiver ++ wordSign method :: Kind.openParen.sign ::
      ([Kind.comma.sign].intercalate (argumentSigns args) ++ [Kind.closeParen.sign])
  | .int _ value => [(.number, toString value.toNat)]
  | .string _ value => [(.string, value)]
  | .bool _ value => [(.boolean, if value then "true" else "false")]

/-- What the tokens of a receiver and its dot say. -/
def receiverSigns : Option Expr → List Sign
  | none => []
  | some e => inSlot .primary e.level e.signs ++ [Kind.dot.sign]

/-- What stands behind the type of a new object or array. -/
def sizeSigns : Option Expr → List Sign
  | none => [Kind.openParen.sign, Kind.closeParen.sign]
  | some e => Kind.openBracket.sign :: (e.signs ++ [Kind.closeBracket.sign])

/-- What the tokens of each argument say. -/
def argumentSigns : List Expr → List (List Sign)
  | [] => []
  | e :: es => e.signs :: argumentSigns es

end

/-! ### Regular expressions -/

/-- Whether the word is an identifier. -/
def isName (word : String) : Bool :=
  decide (IsWord word.toList) && (reservedKind? word).isNone

/-- Whether the name may stand behind this receiver, if there is one: a name that has none
may also be `this` or `super`. -/
def isVariable (receiver : Option Expr) (name : String) : Bool :=
  isName name || receiver.isNone && (name == "this" || name == "super")

/-- Whether the type is an identifier, or an array of one. -/
def isTypeName (type : String) : Bool :=
  isName type ||
    decide (['[', ']'] <:+ type.toList) && isName (String.ofList (type.toList.rdrop 2))

mutual

/-- Whether all names in an expression are such as can be written, and no integer has a
sign or is out of range. -/
def Expr.isRegular : Expr → Bool
  | .assign _ receiver name value =>
    isVariable receiver name && regularOptional receiver && value.isRegular
  | .assignElement _ receiver name index value =>
    isName name && regularOptional receiver && index.isRegular && value.isRegular
  | .binary _ _ left right => left.isRegular && right.isRegular
  | .instanceOf _ operand type => operand.isRegular && isTypeName type
  | .unary _ _ operand => operand.isRegular
  | .step _ _ _ operand => operand.isRegular
  | .new _ type size => isName type && regularOptional size
  | .cast _ type operand => isTypeName type && operand.isRegular
  | .var _ receiver name => isVariable receiver name && regularOptional receiver
  | .element _ receiver name index => isName name && regularOptional receiver && index.isRegular
  | .call _ receiver method args =>
    isName method && regularOptional receiver && regularArguments args
  | .int _ value => decide (0 ≤ value ∧ value ≤ maxInteger)
  | .string _ _ => true
  | .bool _ _ => true

/-- Whether an optional expression is regular if it is there. -/
def regularOptional : Option Expr → Bool
  | none => true
  | some e => e.isRegular

/-- Whether all arguments are regular. -/
def regularArguments : List Expr → Bool
  | [] => true
  | e :: es => e.isRegular && regularArguments es

end

end BantamJava
