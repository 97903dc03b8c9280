/-
# Tokens

A token is a kind, a value and the position of its first character. The value
is the token's spelling, except that a string constant's value is what the
constant means.

Key definitions: `Token`, `Token.isOneOf`, `Token.text`.
-/
import BantamJava.Text.Position
import BantamJava.Token.Kind

namespace BantamJava

/-- A token of the source text. -/
structure Token where
  kind : Kind
  value : String
  position : Position
deriving DecidableEq, Inhabited

namespace Token

/-- The token that stands for the end of the input. -/
def atEnd (p : Position) : Token := ⟨.endOfInput, "EOF", p⟩

/-- Whether the token's kind is among the given ones. -/
def isOneOf (t : Token) (kinds : List Kind) : Bool :=
  kinds.contains t.kind

/-- The token as log lines show it. -/
def text (t : Token) : String :=
  t.kind.label ++ " `" ++ t.value ++ "` at " ++ t.position.text

end Token
end BantamJava
