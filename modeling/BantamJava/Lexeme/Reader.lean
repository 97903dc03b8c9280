/-
# Reading a source text

A reader stands at some place in a source text. It can be asked for the next
item, which passes over blanks and comments, and at the end of the text gives
the end token for ever after. It can also be moved on by a number of bytes of
the text's UTF-8 form, and then refuses to stop inside a character. Offsets are
64 bits wide, and a move to one beyond that is refused too.

Key definitions: `Reader`, `Reader.next`, `Reader.advance?`, `Reader.items`,
`tokenize`.
-/
import BantamJava.Lexeme.Item

namespace BantamJava

/-- A place in a source text and the text from there on. -/
structure Reader where
  rest : List Char
  place : Place
  /-- The number of bytes before the place. -/
  offset : Nat
  file : String
deriving Inhabited

/-- The name of a source text that comes from no file. -/
def unnamedSource : String := "shell"

/-- The greatest offset. -/
def maxOffset : Nat := UInt64.size - 1

/-- The number of bytes of a text. -/
def byteLength (cs : List Char) : Nat :=
  cs.foldl (fun n c => n + c.utf8Size) 0

/-- The characters within the first `n` bytes of a text, and the text after
them; nothing if the cut falls inside a character. -/
def splitBytes? : Nat → List Char → Option (List Char × List Char)
  | 0, cs => some ([], cs)
  | _ + 1, [] => some ([], [])
  | n + 1, c :: cs =>
    if c.utf8Size ≤ n + 1 then (splitBytes? (n + 1 - c.utf8Size) cs).map (prepend [c])
    else none

namespace Reader

/-- A reader at the start of a text. -/
def ofText (text : String) (file : String) : Reader :=
  ⟨text.toList, .start, 0, file⟩

/-- The position of the next character. -/
def position (r : Reader) : Position := r.place.position

/-- Whether the whole text has been read. -/
def atEnd (r : Reader) : Bool := r.rest.isEmpty

/-- The reader once it has passed the characters `cs`, with `rest` to come. -/
def pass (r : Reader) (cs rest : List Char) : Reader :=
  { r with rest := rest, place := r.place.after cs, offset := r.offset + byteLength cs }

/-- Moves on by `n` bytes, at most to the end; nothing if that is inside a
character, or if `n` bytes on is no offset. -/
def advance? (r : Reader) (n : Nat) : Option Reader :=
  if r.offset + n ≤ maxOffset then
    (splitBytes? n r.rest).map fun (cs, rest) => r.pass cs rest
  else none

/-- The next item, and the reader after it. -/
def next (r : Reader) : Item × Reader :=
  match _h : cut r.rest with
  | none => (.token (.atEnd r.position), r)
  | some (l, rest) =>
    match l.item? r.position with
    | some item => (item, r.pass l.chars rest)
    | none => next (r.pass l.chars rest)
termination_by r.rest.length
decreasing_by exact length_lt_of_cut _h

/-- All items before the end of the text. -/
def items (r : Reader) : List Item :=
  match _h : cut r.rest with
  | none => []
  | some (l, rest) => (l.item? r.position).toList ++ items (r.pass l.chars rest)
termination_by r.rest.length
decreasing_by exact length_lt_of_cut _h

/-- The token that stands for the end of the text. -/
def finish (r : Reader) : Token :=
  .atEnd (r.place.after r.rest).position

end Reader

/-- The tokens of a source text, the end token last, or its first fault. -/
def tokenize (text : String) : Except Fault (List Token) :=
  let r := Reader.ofText text unnamedSource
  (tokensOf r.items).map (· ++ [r.finish])

end BantamJava
