/-
# Items: what a source delivers

A source of tokens delivers items, each a token or a fault of a lexeme that
made none. Blanks and comments deliver nothing.

Key definitions: `Item`, `Lexeme.item?`, `tokensOf`.
-/
import BantamJava.Fault.Basic
import BantamJava.Lexeme.Basic

namespace BantamJava

/-- A token, or a fault in its place. -/
inductive Item where
  | token (token : Token)
  | fault (fault : Fault)
deriving DecidableEq, Inhabited

/-- What a lexeme that starts at `p` delivers. -/
def Lexeme.item? (l : Lexeme) (p : Position) : Option Item :=
  match l.shape with
  | .blank | .lineComment | .blockComment => none
  | .openComment => some (.fault ⟨.unterminatedComment, p⟩)
  | .word => some (.token ⟨wordKind (String.ofList l.chars), String.ofList l.chars, p⟩)
  | .number => some (.token ⟨.number, String.ofList l.chars, p⟩)
  | .literal => some (.token ⟨.string, String.ofList (unescape l.chars.tail.dropLast), p⟩)
  | .openLiteral => some (.fault ⟨.unterminatedString (String.ofList l.chars), p⟩)
  | .operator kind => some (.token ⟨kind, String.ofList l.chars, p⟩)
  | .stray => some (.fault ⟨.unrecognised (String.ofList l.chars), p⟩)

/-- The tokens of a list of items, or its first fault. -/
def tokensOf : List Item → Except Fault (List Token)
  | [] => .ok []
  | .token t :: items => (tokensOf items).map (t :: ·)
  | .fault f :: _ => .error f

end BantamJava
