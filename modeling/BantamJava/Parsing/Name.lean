/-
# Names and types

A type is an identifier, or an identifier followed by `[]`.

Key definitions: `Parser.identifier`, `Parser.typeName`.
-/
import BantamJava.Parsing.Parser

namespace BantamJava
namespace Parser

/-- An identifier. -/
def identifier : Parser String := do
  let t ← expectElse .identifier fun found => .unexpectedFor found "expected identifier"
  pure t.value

/-- The name of a type. -/
def typeName : Parser String := do
  let name ← identifier
  if (← kind) = .openBracket then
    skip
    let _ ← expect .closeBracket
    pure (name ++ "[]")
  else pure name

end Parser
end BantamJava
