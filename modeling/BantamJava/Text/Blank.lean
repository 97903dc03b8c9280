/-
# Blank characters

The characters with the Unicode property `White_Space`. Runs of them separate
tokens, and they are trimmed from the end of an excerpt.

Key definitions: `blankRanges`, `isBlank`, `trimEnd`.
-/
import BantamJava.Text.Ranges

namespace BantamJava

/-- The code points with the property `White_Space`. -/
def blankRanges : Ranges :=
  [(0x9, 0xd), (0x20, 0x20), (0x85, 0x85), (0xa0, 0xa0), (0x1680, 0x1680),
   (0x2000, 0x200a), (0x2028, 0x2029), (0x202f, 0x202f), (0x205f, 0x205f),
   (0x3000, 0x3000)]

theorem blankRanges_ascending : blankRanges.ascending = true := by
  decide +kernel

/-- Whether a character is blank. -/
def isBlank (c : Char) : Bool :=
  blankRanges.contains c.toNat

/-- The text without the blanks at its end. -/
def trimEnd (cs : List Char) : List Char :=
  (cs.reverse.dropWhile isBlank).reverse

end BantamJava
