/-
# Faults

What can be wrong with a source text, where, and how it is worded. A fault is
a cause with a position. Causes that concern a single lexeme belong to the
lexical tier, the others to the syntactic one.

Key definitions: `Cause`, `Fault`, `Cause.tier`, `Cause.message`, `Cause.tip?`.
-/
import BantamJava.Text.Quoted
import BantamJava.Token.Basic

namespace BantamJava

/-- The two tiers of faults. -/
inductive Tier where
  | lexical | syntactic
deriving DecidableEq, Inhabited

/-- The tier's name in messages. -/
def Tier.text : Tier → String
  | .lexical => "Lex"
  | .syntactic => "Parse"

/-- What is wrong at some point of a source text. -/
inductive Cause where
  /-- No lexeme starts with this character. -/
  | unrecognised (found : String)
  /-- A string constant does not end on its line. -/
  | unterminatedString (literal : String)
  /-- A block comment does not end. -/
  | unterminatedComment
  /-- An integer constant is out of range. -/
  | badNumber (found : String)
  /-- A token that cannot stand here. -/
  | unexpected (found : String)
  /-- A token that cannot stand here, with what was expected instead. -/
  | unexpectedFor (found : String) (expectation : String)
  /-- One kind of token alone could stand here. -/
  | expected (kind : Kind) (found : String)
  /-- A local variable is declared without a value. -/
  | missingInitializer (variableName : String)
deriving DecidableEq, Inhabited

namespace Cause

/-- The tier of a cause. -/
def tier : Cause → Tier
  | .unrecognised _ | .unterminatedString _ | .unterminatedComment | .badNumber _ => .lexical
  | .unexpected _ | .unexpectedFor _ _ | .expected _ _ | .missingInitializer _ => .syntactic

/-- The name of a cause, as renderings show it. -/
def name : Cause → String
  | .unrecognised _ => "UnrecognisedToken"
  | .unterminatedString _ => "UnterminatedString"
  | .unterminatedComment => "UnterminatedComment"
  | .badNumber _ => "NumberParseError"
  | .unexpected _ => "UnexpectedToken"
  | .unexpectedFor _ _ => "UnexpectedTokenDetailed"
  | .expected _ _ => "ExpectedToken"
  | .missingInitializer _ => "MissingInitializer"

/-- The cause in words. -/
def message : Cause → String
  | .unrecognised found => "unrecognised token: " ++ quoted found
  | .unterminatedString literal => "unterminated string constant: " ++ quoted literal
  | .unterminatedComment => "unterminated block comment"
  | .badNumber found => "error parsing number: " ++ quoted found
  | .unexpected found => "unexpected token: " ++ quoted found
  | .unexpectedFor found expectation =>
    "unexpected token (" ++ expectation ++ "): " ++ quoted found
  | .expected kind found => "expected " ++ kind.describe ++ ", found " ++ quoted found
  | .missingInitializer variableName =>
    "local variable " ++ quoted variableName ++ " must be initialized"

/-- Advice on how to mend the source text, if there is any to give. -/
def tip? : Cause → Option String
  | .unrecognised _ => none
  | .unterminatedString _ =>
    some "String constants must be closed with `\"` on the line they start"
  | .unterminatedComment => some "Block comment is missing its closing `*/`"
  | .badNumber found =>
    some ("Invalid number: `" ++ found ++ "`, is it above the integer limit?")
  | .unexpected found =>
    some ("Unexpected token: `" ++ found ++ "`, did you miss a semicolon?")
  | .unexpectedFor found expectation =>
    some ("Unexpected token: `" ++ found ++ "`, " ++ expectation)
  | .expected kind found => some ("Expected `" ++ kind.describe ++ "`, found `" ++ found ++ "`")
  | .missingInitializer variableName =>
    some ("Local variable `" ++ variableName ++ "` must be initialized with `= <expression>`")

end Cause

/-- A cause and where it was found. -/
structure Fault where
  cause : Cause
  position : Position
deriving DecidableEq, Inhabited

namespace Fault

/-- The tier of the fault's cause. -/
def tier (f : Fault) : Tier := f.cause.tier

/-- The fault in words, with its position. -/
def text (f : Fault) : String :=
  f.cause.message ++ " at " ++ f.position.text

end Fault
end BantamJava
