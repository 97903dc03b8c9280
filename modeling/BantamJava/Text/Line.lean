/-
# Lines of a text

A carriage return, a line feed and the pair of the two each end one line, as
they do for positions. A line is counted only if it starts before the end of
the text, so nothing follows a final line break.

Key definitions: `breakLine`, `lineAt?`.
-/
import BantamJava.Text.Position

namespace BantamJava

/-- The first line of a text, and what follows its line break. -/
def breakLine : List Char → List Char × List Char
  | [] => ([], [])
  | c :: cs =>
    if c = '\r' then ([], if cs.head? = some '\n' then cs.tail else cs)
    else if c = '\n' then ([], cs)
    else
      let tail := breakLine cs
      (c :: tail.1, tail.2)

/-- The line with the given number, counted from one and without its line
break, if the text has it. -/
def lineAt? : Nat → List Char → Option (List Char)
  | 0, _ => none
  | _ + 1, [] => none
  | n + 1, c :: cs =>
    if n = 0 then some (breakLine (c :: cs)).1
    else lineAt? n (breakLine (c :: cs)).2

end BantamJava
