/-
# The grammar

The language of Bantam Java, said without a parser: which sequences of tokens
are expressions, statements, members, classes and programs, and which tree each
of them stands for. `ExprPhrase l w e` says that the tokens `w` are an
expression of level `l` with the tree `e`, and so on for the other phrases.

Operators of a level that chain do so to the left, and an assignment takes all
to its right. An `else` belongs to the nearest `if` that has none: so the
statement in front of an `else` is not one that could take the `else` itself
(`Stmt.takesElse`).

Key definitions: `Lang`, `ExprPhrase`, `StmtPhrase`, `MemberPhrase`,
`ClassPhrase`, `ProgramPhrase`.
-/
import BantamJava.Text.Integer
import BantamJava.Token.Basic
import BantamJava.Tree.Program

namespace BantamJava

/-- A language: which sequences of tokens stand for which value. -/
abbrev Lang (α : Type) : Type := List Token → α → Prop

/-! ### Lists of phrases -/

section Lists

variable {α : Type}

/-- A phrase, or nothing. -/
inductive Optional (D : Lang α) : Lang (Option α) where
  | none : Optional D [] none
  | some {w : List Token} {a : α} : D w a → Optional D w (some a)

/-- Any number of phrases, one after another. -/
inductive Many (D : Lang α) : Lang (List α) where
  | nil : Many D [] []
  | cons {w v : List Token} {a : α} {as : List α} :
      D w a → Many D v as → Many D (w ++ v) (a :: as)

/-- One phrase or more, with commas between them. -/
inductive Separated (D : Lang α) : Lang (List α) where
  | one {w : List Token} {a : α} : D w a → Separated D w [a]
  | more {w v : List Token} {a : α} {as : List α} {t : Token} :
      D w a → t.kind = .comma → Separated D v as → Separated D (w ++ t :: v) (a :: as)

/-- Any number of phrases, with commas between them. -/
inductive Listed (D : Lang α) : Lang (List α) where
  | none : Listed D [] []
  | some {w : List Token} {as : List α} : Separated D w as → Listed D w as

end Lists

/-- The name of a type. -/
inductive TypePhrase : Lang String where
  | plain {t : Token} : t.kind = .identifier → TypePhrase [t] t.value
  | array {t o c : Token} : t.kind = .identifier → o.kind = .openBracket →
      c.kind = .closeBracket → TypePhrase [t, o, c] (t.value ++ "[]")

/-! ### Expressions -/

/-- The levels of expressions, the loosest first. -/
inductive ExprLevel where
  | assignment | disjunction | conjunction | equality | comparison | sum | product
  /-- Expressions with `new` and `cast`, beside those with operators before them. -/
  | operand
  | signed
  /-- Chains with a step operator after them. -/
  | stepped
  | primary
  /-- The start of a chain. -/
  | base
deriving DecidableEq

/-- The operators between two operands of a level. -/
def ExprLevel.operator? : ExprLevel → Kind → Option BinaryOp
  | .disjunction, .or => some .or
  | .conjunction, .and => some .and
  | .equality, .equals => some .eq
  | .equality, .notEquals => some .ne
  | .comparison, .less => some .lt
  | .comparison, .lessEquals => some .leq
  | .comparison, .greater => some .gt
  | .comparison, .greaterEquals => some .geq
  | .sum, .plus => some .plus
  | .sum, .dash => some .minus
  | .product, .star => some .times
  | .product, .slash => some .divide
  | .product, .percent => some .modulus
  | _, _ => none

/-- Operands joined by operators, from left to right. -/
inductive Chain (op? : Kind → Option BinaryOp) (D : Lang Expr) : Lang Expr where
  | first {w : List Token} {e : Expr} : D w e → Chain op? D w e
  | more {w v : List Token} {l r : Expr} {t : Token} {op : BinaryOp} :
      Chain op? D w l → op? t.kind = some op → D v r →
      Chain op? D (w ++ t :: v) (.binary l.position op l r)

/-- One operand, or two joined by an operator. -/
inductive Single (op? : Kind → Option BinaryOp) (D : Lang Expr) : Lang Expr where
  | one {w : List Token} {e : Expr} : D w e → Single op? D w e
  | two {w v : List Token} {l r : Expr} {t : Token} {op : BinaryOp} :
      D w l → op? t.kind = some op → D v r → Single op? D (w ++ t :: v) (.binary l.position op l r)

/-- What follows a name. -/
inductive Suffix where
  | nothing
  | arguments (args : List Expr)
  | index (index : Expr)

/-- The expression of a name with what follows it, and perhaps a receiver. -/
def Suffix.attach (p : Position) (receiver : Option Expr) (name : String) : Suffix → Expr
  | .nothing => .var p receiver name
  | .arguments args => .call p receiver name args
  | .index i => .element p receiver name i

/-- What follows a name, with `D` for the expressions in it. -/
inductive SuffixPhrase (D : Lang Expr) : Lang Suffix where
  | nothing : SuffixPhrase D [] .nothing
  | arguments {w : List Token} {args : List Expr} {o c : Token} :
      o.kind = .openParen → Listed D w args → c.kind = .closeParen →
      SuffixPhrase D (o :: (w ++ [c])) (.arguments args)
  | index {w : List Token} {i : Expr} {o c : Token} :
      o.kind = .openBracket → D w i → c.kind = .closeBracket →
      SuffixPhrase D (o :: (w ++ [c])) (.index i)

/-- A start `B` and names behind dots: all before a dot is the receiver of the
name behind it. -/
inductive Dotted (B D : Lang Expr) : Lang Expr where
  | start {w : List Token} {e : Expr} : B w e → Dotted B D w e
  | dot {w v : List Token} {r : Expr} {s : Suffix} {t n : Token} :
      Dotted B D w r → t.kind = .dot → n.kind = .identifier → SuffixPhrase D v s →
      Dotted B D (w ++ t :: n :: v) (s.attach r.position (some r) n.value)

/-- What the assignment of a value makes of its target. A variable or an element
keeps its receiver; what is neither is known by its first token only. -/
inductive Assigns (first : Token) (value : Expr) : Expr → Expr → Prop where
  | var {p : Position} {receiver : Option Expr} {name : String} :
      Assigns first value (.var p receiver name) (.assign p receiver name value)
  | element {p : Position} {receiver : Option Expr} {name : String} {index : Expr} :
      Assigns first value (.element p receiver name index)
        (.assignElement p receiver name index value)
  | other {target : Expr} :
      (∀ p receiver name, target ≠ .var p receiver name) →
      (∀ p receiver name index, target ≠ .element p receiver name index) →
      Assigns first value target (.assign target.position none first.value value)

/-- The expressions of each level. -/
inductive ExprPhrase : ExprLevel → Lang Expr where
  -- assignment, to any disjunction
  | plain {w : List Token} {e : Expr} :
      ExprPhrase .disjunction w e → ExprPhrase .assignment w e
  | assign {w v : List Token} {target value e : Expr} {first t : Token} :
      ExprPhrase .disjunction (first :: w) target → t.kind = .assignment →
      ExprPhrase .assignment v value → Assigns first value target e →
      ExprPhrase .assignment (first :: (w ++ t :: v)) e
  -- operators between two operands
  | disjunction {w : List Token} {e : Expr} :
      Chain ExprLevel.disjunction.operator? (ExprPhrase .conjunction) w e →
      ExprPhrase .disjunction w e
  | conjunction {w : List Token} {e : Expr} :
      Chain ExprLevel.conjunction.operator? (ExprPhrase .equality) w e →
      ExprPhrase .conjunction w e
  | equality {w : List Token} {e : Expr} :
      Single ExprLevel.equality.operator? (ExprPhrase .comparison) w e → ExprPhrase .equality w e
  | comparison {w : List Token} {e : Expr} :
      Single ExprLevel.comparison.operator? (ExprPhrase .sum) w e → ExprPhrase .comparison w e
  | instanceOf {w v : List Token} {e : Expr} {type : String} {t : Token} :
      ExprPhrase .sum w e → t.kind = .instanceofWord → TypePhrase v type →
      ExprPhrase .comparison (w ++ t :: v) (.instanceOf e.position e type)
  | sum {w : List Token} {e : Expr} :
      Chain ExprLevel.sum.operator? (ExprPhrase .product) w e → ExprPhrase .sum w e
  | product {w : List Token} {e : Expr} :
      Chain ExprLevel.product.operator? (ExprPhrase .operand) w e → ExprPhrase .product w e
  -- `new` and `cast`
  | newObject {t n o c : Token} :
      t.kind = .newWord → n.kind = .identifier → o.kind = .openParen → c.kind = .closeParen →
      ExprPhrase .operand [t, n, o, c] (.new t.position n.value none)
  | newArray {w : List Token} {size : Expr} {t n o c : Token} :
      t.kind = .newWord → n.kind = .identifier → o.kind = .openBracket →
      ExprPhrase .assignment w size → c.kind = .closeBracket →
      ExprPhrase .operand (t :: n :: o :: (w ++ [c])) (.new t.position n.value (some size))
  | cast {w v : List Token} {e : Expr} {type : String} {t o m c : Token} :
      t.kind = .castWord → o.kind = .openParen → TypePhrase w type → m.kind = .comma →
      ExprPhrase .assignment v e → c.kind = .closeParen →
      ExprPhrase .operand (t :: o :: (w ++ m :: (v ++ [c]))) (.cast t.position type e)
  | signed {w : List Token} {e : Expr} : ExprPhrase .signed w e → ExprPhrase .operand w e
  -- operators with one operand
  | negative {w : List Token} {e : Expr} {t : Token} :
      t.kind = .dash → ExprPhrase .signed w e →
      ExprPhrase .signed (t :: w) (.unary t.position .neg e)
  | not {w : List Token} {e : Expr} {t : Token} :
      t.kind = .not → ExprPhrase .signed w e →
      ExprPhrase .signed (t :: w) (.unary t.position .not e)
  | preIncr {w : List Token} {e : Expr} {t : Token} :
      t.kind = .plusPlus → ExprPhrase .signed w e →
      ExprPhrase .signed (t :: w) (.step t.position .incr .before e)
  | preDecr {w : List Token} {e : Expr} {t : Token} :
      t.kind = .minusMinus → ExprPhrase .signed w e →
      ExprPhrase .signed (t :: w) (.step t.position .decr .before e)
  | unsigned {w : List Token} {e : Expr} : ExprPhrase .stepped w e → ExprPhrase .signed w e
  | postIncr {w : List Token} {e : Expr} {t : Token} :
      ExprPhrase .primary w e → t.kind = .plusPlus →
      ExprPhrase .stepped (w ++ [t]) (.step e.position .incr .after e)
  | postDecr {w : List Token} {e : Expr} {t : Token} :
      ExprPhrase .primary w e → t.kind = .minusMinus →
      ExprPhrase .stepped (w ++ [t]) (.step e.position .decr .after e)
  | unstepped {w : List Token} {e : Expr} : ExprPhrase .primary w e → ExprPhrase .stepped w e
  -- chains
  | chain {w : List Token} {e : Expr} :
      Dotted (ExprPhrase .base) (ExprPhrase .assignment) w e → ExprPhrase .primary w e
  | parens {w : List Token} {e : Expr} {o c : Token} :
      o.kind = .openParen → ExprPhrase .assignment w e → c.kind = .closeParen →
      ExprPhrase .base (o :: (w ++ [c])) e
  | integer {t : Token} {n : Int} :
      t.kind = .number → readInteger? t.value = some n → ExprPhrase .base [t] (.int t.position n)
  | string {t : Token} : t.kind = .string → ExprPhrase .base [t] (.string t.position t.value)
  | boolean {t : Token} :
      t.kind = .boolean → ExprPhrase .base [t] (.bool t.position (t.value == "true"))
  | this {t : Token} : t.kind = .thisWord → ExprPhrase .base [t] (.var t.position none t.value)
  | super {t : Token} : t.kind = .superWord → ExprPhrase .base [t] (.var t.position none t.value)
  | name {w : List Token} {s : Suffix} {t : Token} :
      t.kind = .identifier → SuffixPhrase (ExprPhrase .assignment) w s →
      ExprPhrase .base (t :: w) (s.attach t.position none t.value)

/-- Expressions of any kind. -/
abbrev Expression : Lang Expr := ExprPhrase .assignment

/-! ### Statements -/

/-- Whether an `else` behind the statement would belong to it. -/
def Stmt.takesElse : Stmt → Bool
  | .ifElse _ _ _ none => true
  | .ifElse _ _ _ (some s) => s.takesElse
  | .whileLoop _ _ s => s.takesElse
  | .forLoop _ _ _ _ s => s.takesElse
  | _ => false

/-- Statements. -/
inductive StmtPhrase : Lang Stmt where
  | evaluate {w : List Token} {e : Expr} {t s : Token} :
      Expression (t :: w) e → s.kind = .semicolon →
      StmtPhrase (t :: (w ++ [s])) (.evaluate t.position e)
  | block {w : List Token} {stmts : List Stmt} {o c : Token} :
      o.kind = .openCurly → Many StmtPhrase w stmts → c.kind = .closeCurly →
      StmtPhrase (o :: (w ++ [c])) (.block o.position stmts)
  | ifThen {w v : List Token} {test : Expr} {yes : Stmt} {t o c : Token} :
      t.kind = .ifWord → o.kind = .openParen → Expression w test → c.kind = .closeParen →
      StmtPhrase v yes → StmtPhrase (t :: o :: (w ++ c :: v)) (.ifElse t.position test yes none)
  | ifElse {w v x : List Token} {test : Expr} {yes no : Stmt} {t o c l : Token} :
      t.kind = .ifWord → o.kind = .openParen → Expression w test → c.kind = .closeParen →
      StmtPhrase v yes → yes.takesElse = false → l.kind = .elseWord → StmtPhrase x no →
      StmtPhrase (t :: o :: (w ++ c :: (v ++ l :: x))) (.ifElse t.position test yes (some no))
  | whileLoop {w v : List Token} {test : Expr} {body : Stmt} {t o c : Token} :
      t.kind = .whileWord → o.kind = .openParen → Expression w test → c.kind = .closeParen →
      StmtPhrase v body → StmtPhrase (t :: o :: (w ++ c :: v)) (.whileLoop t.position test body)
  | forLoop {w v x y : List Token} {init test update : Option Expr} {body : Stmt}
      {t o s s' c : Token} :
      t.kind = .forWord → o.kind = .openParen → Optional Expression w init →
      s.kind = .semicolon → Optional Expression v test → s'.kind = .semicolon →
      Optional Expression x update → c.kind = .closeParen → StmtPhrase y body →
      StmtPhrase (t :: o :: (w ++ s :: (v ++ s' :: (x ++ c :: y))))
        (.forLoop t.position init test update body)
  | breakLoop {t s : Token} :
      t.kind = .breakWord → s.kind = .semicolon → StmtPhrase [t, s] (.breakLoop t.position)
  | returnWith {w : List Token} {value : Option Expr} {t s : Token} :
      t.kind = .returnWord → Optional Expression w value → s.kind = .semicolon →
      StmtPhrase (t :: (w ++ [s])) (.returnWith t.position value)
  | declare {w : List Token} {init : Expr} {t n a s : Token} :
      t.kind = .varWord → n.kind = .identifier → a.kind = .assignment → Expression w init →
      s.kind = .semicolon →
      StmtPhrase (t :: n :: a :: (w ++ [s])) (.declare t.position n.value init)

/-- Statements between braces. -/
inductive BlockPhrase : Lang Block where
  | mk {w : List Token} {stmts : List Stmt} {o c : Token} :
      o.kind = .openCurly → Many StmtPhrase w stmts → c.kind = .closeCurly →
      BlockPhrase (o :: (w ++ [c])) ⟨stmts, o.position⟩

/-! ### Classes -/

/-- Parameters of methods. -/
inductive FormalPhrase : Lang Formal where
  | mk {w : List Token} {type : String} {t n : Token} :
      TypePhrase (t :: w) type → n.kind = .identifier →
      FormalPhrase (t :: (w ++ [n])) ⟨type, n.value, t.position⟩

/-- Members of classes. -/
inductive MemberPhrase : Lang Member where
  | field {w : List Token} {type : String} {t n s : Token} :
      TypePhrase (t :: w) type → n.kind = .identifier → s.kind = .semicolon →
      MemberPhrase (t :: (w ++ [n, s])) (.field ⟨type, n.value, none, t.position⟩)
  | initialField {w v : List Token} {type : String} {init : Expr} {t n a s : Token} :
      TypePhrase (t :: w) type → n.kind = .identifier → a.kind = .assignment →
      Expression v init → s.kind = .semicolon →
      MemberPhrase (t :: (w ++ n :: a :: (v ++ [s])))
        (.field ⟨type, n.value, some init, t.position⟩)
  | method {w v x : List Token} {type : String} {params : List Formal} {body : Block}
      {t n o c : Token} :
      TypePhrase (t :: w) type → n.kind = .identifier → o.kind = .openParen →
      Listed FormalPhrase v params → c.kind = .closeParen → BlockPhrase x body →
      MemberPhrase (t :: (w ++ n :: o :: (v ++ c :: x)))
        (.method ⟨type, n.value, params, body, t.position⟩)

/-- Classes. -/
inductive ClassPhrase : Lang Class where
  | plain {w : List Token} {members : List Member} {t n o c : Token} :
      t.kind = .classWord → n.kind = .identifier → o.kind = .openCurly →
      Many MemberPhrase w members → c.kind = .closeCurly →
      ClassPhrase (t :: n :: o :: (w ++ [c])) ⟨n.value, none, members, t.position⟩
  | extending {w : List Token} {members : List Member} {t n x m o c : Token} :
      t.kind = .classWord → n.kind = .identifier → x.kind = .extendsWord →
      m.kind = .identifier → o.kind = .openCurly → Many MemberPhrase w members →
      c.kind = .closeCurly →
      ClassPhrase (t :: n :: x :: m :: o :: (w ++ [c]))
        ⟨n.value, some m.value, members, t.position⟩

/-- Programs. A program is where its first token is, or where the input ends if
it has none. -/
structure ProgramPhrase (finish : Token) (w : List Token) (p : Program) : Prop where
  classes : Many ClassPhrase w p.classes
  position : p.position = (w.head?.getD finish).position

end BantamJava
