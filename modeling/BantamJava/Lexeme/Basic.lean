/-
# Lexemes

A source text is cut from the left into lexemes: runs of blanks, comments,
words, numbers, string constants, operators, and what is none of these. The
first character decides which lexeme it starts; words, numbers and blanks run
as far as they can, and of two operators the longer one is taken.

`cut` takes one lexeme off the front of a text. It takes at least one
character and loses none (`append_of_cut`, `length_lt_of_cut`), so cutting
again and again comes to an end.

Key definitions: `Shape`, `Lexeme`, `operators`, `cut`.
Key theorems: `append_of_cut`, `length_lt_of_cut`.
-/
import BantamJava.Lexeme.Literal
import BantamJava.Text.Blank
import BantamJava.Text.Integer
import BantamJava.Token.Kind

namespace BantamJava

/-- What a lexeme is. -/
inductive Shape where
  | blank
  | lineComment
  | blockComment
  /-- A block comment that does not end. -/
  | openComment
  | word
  | number
  | literal
  /-- A string constant that does not end on its line. -/
  | openLiteral
  | operator (kind : Kind)
  /-- A character that starts no lexeme. -/
  | stray
deriving DecidableEq, Inhabited

/-- A piece of the source text and what it is. -/
structure Lexeme where
  shape : Shape
  chars : List Char
deriving DecidableEq, Inhabited

/-- Whether a character may start a word. -/
def isLetter (c : Char) : Bool :=
  ('a'.toNat ≤ c.toNat && c.toNat ≤ 'z'.toNat) || ('A'.toNat ≤ c.toNat && c.toNat ≤ 'Z'.toNat)

/-- Whether a character may stand in a word after its start. -/
def isWordChar (c : Char) : Bool :=
  isLetter c || isDigit c || c == '_'

/-- Whether a character stays on its line. -/
def staysOnLine (c : Char) : Bool :=
  c != '\r' && c != '\n'

/-- The operators and punctuation marks, the longer ones first. -/
def operators : List (List Char × Kind) :=
  [(['=', '='], .equals), (['!', '='], .notEquals), (['<', '='], .lessEquals),
   (['>', '='], .greaterEquals), (['|', '|'], .or), (['&', '&'], .and),
   (['+', '+'], .plusPlus), (['-', '-'], .minusMinus),
   (['['], .openBracket), ([']'], .closeBracket), (['\x7b'], .openCurly),
   (['\x7d'], .closeCurly), (['('], .openParen), ([')'], .closeParen), (['!'], .not),
   (['='], .assignment), (['<'], .less), (['>'], .greater), (['.'], .dot),
   ([';'], .semicolon), ([','], .comma), (['+'], .plus), (['-'], .dash), (['/'], .slash),
   (['*'], .star), (['%'], .percent)]

/-- The longest run from `c` on of characters of one class. -/
def cutRun (shape : Shape) (within : Char → Bool) (c : Char) (cs : List Char) :
    Lexeme × List Char :=
  (⟨shape, c :: cs.takeWhile within⟩, cs.dropWhile within)

/-- The string constant whose opening quote stands before `cs`. -/
def cutLiteral (cs : List Char) : Lexeme × List Char :=
  match closeLiteral cs with
  | some (body, rest) => (⟨.literal, '"' :: body⟩, rest)
  | none => cutRun .openLiteral staysOnLine '"' cs

/-- The block comment whose `/*` stands before `cs`. -/
def cutComment (cs : List Char) : Lexeme × List Char :=
  match closeComment cs with
  | some (body, rest) => (⟨.blockComment, '/' :: '*' :: body⟩, rest)
  | none => (⟨.openComment, '/' :: '*' :: cs⟩, [])

/-- The first operator that fits, or else the single character `c`. -/
def cutOperator (c : Char) (cs : List Char) : Lexeme × List Char :=
  match operators.find? fun o => o.1.isPrefixOf (c :: cs) with
  | some (chars, kind) => (⟨.operator kind, chars⟩, (c :: cs).drop chars.length)
  | none => (⟨.stray, [c]⟩, cs)

/-- The lexeme at the front of `c :: cs`, and the text after it. -/
def cutFrom (c : Char) (cs : List Char) : Lexeme × List Char :=
  if isBlank c then cutRun .blank isBlank c cs
  else if isLetter c then cutRun .word isWordChar c cs
  else if isDigit c then cutRun .number isDigit c cs
  else if c = '"' then cutLiteral cs
  else if c = '/' ∧ cs.head? = some '/' then cutRun .lineComment staysOnLine c cs
  else if c = '/' ∧ cs.head? = some '*' then cutComment cs.tail
  else cutOperator c cs

/-- The lexeme at the front of a text, and the text after it. -/
def cut : List Char → Option (Lexeme × List Char)
  | [] => none
  | c :: cs => some (cutFrom c cs)

theorem append_cutRun (shape : Shape) (within : Char → Bool) (c : Char) (cs : List Char) :
    (cutRun shape within c cs).1.chars ++ (cutRun shape within c cs).2 = c :: cs := by
  simp [cutRun]

theorem append_cutLiteral (cs : List Char) :
    (cutLiteral cs).1.chars ++ (cutLiteral cs).2 = '"' :: cs := by
  unfold cutLiteral
  split
  · next h => simp [append_of_closeLiteral h]
  · exact append_cutRun _ _ _ _

theorem append_cutComment (cs : List Char) :
    (cutComment cs).1.chars ++ (cutComment cs).2 = '/' :: '*' :: cs := by
  unfold cutComment
  split
  · next h => simp [append_of_closeComment h]
  · simp

theorem append_cutOperator (c : Char) (cs : List Char) :
    (cutOperator c cs).1.chars ++ (cutOperator c cs).2 = c :: cs := by
  unfold cutOperator
  split
  · next chars kind h =>
    have hp : chars.isPrefixOf (c :: cs) = true := by simpa using List.find?_some h
    exact List.prefix_iff_eq_append.1 (List.isPrefixOf_iff_prefix.1 hp)
  · rfl

theorem append_cutFrom (c : Char) (cs : List Char) :
    (cutFrom c cs).1.chars ++ (cutFrom c cs).2 = c :: cs := by
  unfold cutFrom
  split
  · exact append_cutRun _ _ _ _
  split
  · exact append_cutRun _ _ _ _
  split
  · exact append_cutRun _ _ _ _
  split
  · next h => rw [append_cutLiteral, h]
  split
  · exact append_cutRun _ _ _ _
  split
  · next h =>
    obtain ⟨rfl, hs⟩ := h
    rw [append_cutComment]
    cases cs with
    | nil => simp at hs
    | cons d ds => simp_all
  · exact append_cutOperator c cs

/-- No operator is empty. -/
theorem operators_ne_nil : ∀ o ∈ operators, o.1 ≠ [] := by
  decide

theorem cutFrom_ne_nil (c : Char) (cs : List Char) : (cutFrom c cs).1.chars ≠ [] := by
  unfold cutFrom
  split
  · simp [cutRun]
  split
  · simp [cutRun]
  split
  · simp [cutRun]
  split
  · unfold cutLiteral
    split <;> simp [cutRun]
  split
  · simp [cutRun]
  split
  · unfold cutComment
    split <;> simp
  · unfold cutOperator
    split
    · next h => exact operators_ne_nil _ (List.mem_of_find?_eq_some h)
    · simp

/-- **Cutting loses no character.** The lexeme and the text after it make up
the text. -/
theorem append_of_cut {s : List Char} {l : Lexeme} {rest : List Char}
    (h : cut s = some (l, rest)) : l.chars ++ rest = s := by
  cases s with
  | nil => simp [cut] at h
  | cons c cs =>
    have he : cutFrom c cs = (l, rest) := by simpa [cut] using h
    simpa [he] using append_cutFrom c cs

/-- A lexeme has at least one character. -/
theorem ne_nil_of_cut {s : List Char} {l : Lexeme} {rest : List Char}
    (h : cut s = some (l, rest)) : l.chars ≠ [] := by
  cases s with
  | nil => simp [cut] at h
  | cons c cs =>
    have he : cutFrom c cs = (l, rest) := by simpa [cut] using h
    simpa [he] using cutFrom_ne_nil c cs

/-- **Cutting makes progress.** The text after the lexeme is shorter. -/
theorem length_lt_of_cut {s : List Char} {l : Lexeme} {rest : List Char}
    (h : cut s = some (l, rest)) : rest.length < s.length := by
  have hpos := List.length_pos_iff.2 (ne_nil_of_cut h)
  have hlen := congrArg List.length (append_of_cut h)
  simp only [List.length_append] at hlen
  omega

end BantamJava
