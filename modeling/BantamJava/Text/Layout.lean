/-
# Indented layout

A layout is a list of lines. Records, tuples and lists stack the layouts of
their parts, each part on lines of its own, indented by four spaces and with a
comma at its end. Without parts a list is written `[]`.

Key definitions: `Layout`, `Layout.record`, `Layout.tuple`, `Layout.list`,
`Layout.text`.
-/
namespace BantamJava

/-- The lines of a rendering. -/
abbrev Layout := List String

namespace Layout

/-- A single line. -/
def atom (s : String) : Layout := [s]

/-- A comma after the last line. -/
def withComma : Layout → Layout
  | [] => []
  | [line] => [line ++ ","]
  | line :: lines => line :: withComma lines

/-- A label before the first line. -/
def labelled (label : String) : Layout → Layout
  | [] => []
  | line :: lines => (label ++ ": " ++ line) :: lines

/-- One part of a larger layout. -/
def part (l : Layout) : Layout :=
  l.withComma.map ("    " ++ ·)

/-- Named fields between braces. -/
def record (name : String) (fields : List (String × Layout)) : Layout :=
  (name ++ " \x7b") :: fields.flatMap (fun f => (labelled f.1 f.2).part) ++ ["\x7d"]

/-- Parts between parentheses. -/
def tuple (name : String) (parts : List Layout) : Layout :=
  (name ++ "(") :: parts.flatMap part ++ [")"]

/-- Parts between brackets. -/
def list (parts : List Layout) : Layout :=
  if parts.isEmpty then ["[]"] else "[" :: parts.flatMap part ++ ["]"]

/-- A part that may be missing. -/
def option : Option Layout → Layout
  | none => atom "None"
  | some l => tuple "Some" [l]

/-- The lines as one text, without a line break at the end. -/
def text (l : Layout) : String :=
  "\n".intercalate l

end Layout
end BantamJava
