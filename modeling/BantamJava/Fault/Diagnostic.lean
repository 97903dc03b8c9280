/-
# Diagnostics

A diagnostic is a fault made public: with the file it was found in and its
tier. It is rendered with the source line that it concerns, and a caret under
the character where the fault was found.

The arrow that ends in the caret has a limit on its width, beyond which there
is no rendering.

Key definitions: `Diagnostic`, `Diagnostic.text`, `Diagnostic.render?`.
-/
import BantamJava.Fault.Basic
import BantamJava.Text.Blank
import BantamJava.Text.Line

namespace BantamJava

/-- A fault in a file. -/
structure Diagnostic where
  tier : Tier
  file : String
  fault : Fault
deriving DecidableEq, Inhabited

namespace Diagnostic

/-- The diagnostic of a fault in the given file. -/
def ofFault (file : String) (f : Fault) : Diagnostic := ⟨f.tier, file, f⟩

/-- The diagnostic in one line. -/
def text (d : Diagnostic) : String :=
  d.tier.text ++ " error in " ++ d.file ++ " at line " ++ toString d.fault.position.line
    ++ ", column " ++ toString d.fault.position.column ++ ": " ++ d.fault.cause.message

/-- The advice of a diagnostic, empty if there is none. -/
def tip (d : Diagnostic) : String := d.fault.cause.tip?.getD ""

/-- The greatest width of an arrow. -/
def maxArrow : Nat := 65535

/-- Whether a character may be part of a line's indentation. -/
def isIndent (c : Char) : Bool := c == ' ' || c == '\t'

/-- The first two lines of a rendering: the cause with its advice, and where. -/
def heading (d : Diagnostic) : String :=
  "Error: " ++ d.fault.cause.name
    ++ (match d.fault.cause.tip? with
      | some tip => " (" ++ tip ++ ")"
      | none => "")
    ++ "\n-> " ++ d.file ++ ":" ++ d.fault.position.text ++ "\n"

/-- The width of the arrow to a column of a line that is shown without its
indentation. -/
def arrowWidth (column : Nat) (line : List Char) : Nat :=
  max 1 (column - (line.takeWhile isIndent).length)

/-- An arrow of the given width. -/
def arrow (width : Nat) : String :=
  String.ofList (List.replicate (width - 1) '-' ++ ['^'])

/-- The last three lines of a rendering: the source line between two margins,
the second of which holds the arrow. -/
def excerpt (p : Position) (line : List Char) : String :=
  let number := toString p.line
  let margin := String.ofList (List.replicate (number.length + 1) ' ' ++ ['|'])
  margin ++ "\n"
    ++ number ++ " | " ++ String.ofList (trimEnd (line.dropWhile isIndent)) ++ "\n"
    ++ margin ++ " " ++ arrow (arrowWidth p.column.toNat line) ++ "\n"

/-- The diagnostic with the source line it concerns, if the source has that
line; nothing if the arrow would be too wide. -/
def render? (d : Diagnostic) (source : String) : Option String :=
  let p := d.fault.position
  match lineAt? p.line.toNat source.toList with
  | none => some d.heading
  | some line =>
    if arrowWidth p.column.toNat line ≤ maxArrow then some (d.heading ++ excerpt p line) else none

/-- How many of the diagnostics belong to the tier. -/
def count (tier : Tier) (ds : List Diagnostic) : Nat :=
  ds.countP fun d => d.tier == tier

end Diagnostic
end BantamJava
