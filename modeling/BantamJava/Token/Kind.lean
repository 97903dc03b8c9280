/-
# Token kinds

The kinds of tokens of Bantam Java: the end of the input, four classes of
tokens whose spelling varies, and punctuation, operators and reserved words,
whose spelling is fixed.

Key definitions: `Kind`, `Kind.describe`, `Kind.label`, `reservedWords`.
-/
namespace BantamJava

/-- The kind of a token. -/
inductive Kind where
  | endOfInput | number | string | boolean | identifier
  | openBracket | closeBracket | openCurly | closeCurly | openParen | closeParen
  | assignment | equals | not | notEquals
  | less | lessEquals | greater | greaterEquals
  | or | and
  | dot | semicolon | comma
  | plusPlus | minusMinus
  | plus | dash | slash | star | percent
  | classWord | extendsWord | varWord | ifWord | elseWord | whileWord | forWord
  | breakWord | returnWord | newWord | castWord | instanceofWord | thisWord | superWord
deriving DecidableEq, Inhabited

namespace Kind

/-- Every kind, in the order of its declaration. -/
def all : List Kind :=
  [.endOfInput, .number, .string, .boolean, .identifier, .openBracket, .closeBracket, .openCurly,
   .closeCurly, .openParen, .closeParen, .assignment, .equals, .not, .notEquals, .less,
   .lessEquals, .greater, .greaterEquals, .or, .and, .dot, .semicolon, .comma, .plusPlus,
   .minusMinus, .plus, .dash, .slash, .star, .percent, .classWord, .extendsWord, .varWord,
   .ifWord, .elseWord, .whileWord, .forWord, .breakWord, .returnWord, .newWord, .castWord,
   .instanceofWord, .thisWord, .superWord]

theorem mem_all (k : Kind) : k ∈ all := by
  cases k <;> decide

/-- The spelling of a kind whose spelling is fixed, and a description of the
others. -/
def describe : Kind → String
  | .endOfInput => "end of input"
  | .number => "integer constant"
  | .string => "string constant"
  | .boolean => "boolean constant"
  | .identifier => "identifier"
  | .openBracket => "["
  | .closeBracket => "]"
  | .openCurly => "\x7b"
  | .closeCurly => "\x7d"
  | .openParen => "("
  | .closeParen => ")"
  | .assignment => "="
  | .equals => "=="
  | .not => "!"
  | .notEquals => "!="
  | .less => "<"
  | .lessEquals => "<="
  | .greater => ">"
  | .greaterEquals => ">="
  | .or => "||"
  | .and => "&&"
  | .dot => "."
  | .semicolon => ";"
  | .comma => ","
  | .plusPlus => "++"
  | .minusMinus => "--"
  | .plus => "+"
  | .dash => "-"
  | .slash => "/"
  | .star => "*"
  | .percent => "%"
  | .classWord => "class"
  | .extendsWord => "extends"
  | .varWord => "var"
  | .ifWord => "if"
  | .elseWord => "else"
  | .whileWord => "while"
  | .forWord => "for"
  | .breakWord => "break"
  | .returnWord => "return"
  | .newWord => "new"
  | .castWord => "cast"
  | .instanceofWord => "instanceof"
  | .thisWord => "this"
  | .superWord => "super"

/-- The name of a kind, as log lines show it. -/
def label : Kind → String
  | .endOfInput => "EOF"
  | .number => "Number"
  | .string => "String"
  | .boolean => "Boolean"
  | .identifier => "Identifier"
  | .openBracket => "OpenBracket"
  | .closeBracket => "CloseBracket"
  | .openCurly => "OpenCurly"
  | .closeCurly => "CloseCurly"
  | .openParen => "OpenParen"
  | .closeParen => "CloseParen"
  | .assignment => "Assignment"
  | .equals => "Equals"
  | .not => "Not"
  | .notEquals => "NotEquals"
  | .less => "Less"
  | .lessEquals => "LessEquals"
  | .greater => "Greater"
  | .greaterEquals => "GreaterEquals"
  | .or => "Or"
  | .and => "And"
  | .dot => "Dot"
  | .semicolon => "Semicolon"
  | .comma => "Comma"
  | .plusPlus => "PlusPlus"
  | .minusMinus => "MinusMinus"
  | .plus => "Plus"
  | .dash => "Dash"
  | .slash => "Slash"
  | .star => "Star"
  | .percent => "Percent"
  | .classWord => "Class"
  | .extendsWord => "Extends"
  | .varWord => "Var"
  | .ifWord => "If"
  | .elseWord => "Else"
  | .whileWord => "While"
  | .forWord => "For"
  | .breakWord => "Break"
  | .returnWord => "Return"
  | .newWord => "New"
  | .castWord => "Cast"
  | .instanceofWord => "Instanceof"
  | .thisWord => "This"
  | .superWord => "Super"

end Kind

/-- The words that are not identifiers, with the kinds of their tokens. -/
def reservedWords : List (String × Kind) :=
  [("class", .classWord), ("extends", .extendsWord), ("var", .varWord), ("if", .ifWord),
   ("else", .elseWord), ("while", .whileWord), ("for", .forWord), ("break", .breakWord),
   ("return", .returnWord), ("new", .newWord), ("cast", .castWord),
   ("instanceof", .instanceofWord), ("this", .thisWord), ("super", .superWord),
   ("true", .boolean), ("false", .boolean)]

/-- The kind of a reserved word. -/
def reservedKind? (word : String) : Option Kind :=
  reservedWords.lookup word

/-- The kind of a word: its own if it is reserved, else `identifier`. -/
def wordKind (word : String) : Kind :=
  (reservedKind? word).getD .identifier

end BantamJava
