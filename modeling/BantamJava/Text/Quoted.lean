/-
# Quoted text

How a text is shown inside a message: between double quotes, with the quote,
the backslash and the common control characters escaped, and every other
character that has no printed form, or that would merge with its neighbour,
written by its number in hexadecimal.

Key definitions: `quotedChar`, `quoted`.
-/
import BantamJava.Text.Unprintable
import BantamJava.Text.Extending

namespace BantamJava

/-- The form of one character inside quotes. -/
def quotedChar (c : Char) : List Char :=
  if c = '\x00' then ['\\', '0']
  else if c = '\t' then ['\\', 't']
  else if c = '\r' then ['\\', 'r']
  else if c = '\n' then ['\\', 'n']
  else if c = '\\' then ['\\', '\\']
  else if c = '"' then ['\\', '"']
  else if isExtending c || isUnprintable c then
    ['\\', 'u', '\x7b'] ++ Nat.toDigits 16 c.toNat ++ ['\x7d']
  else [c]

/-- A text between double quotes. -/
def quoted (s : String) : String :=
  String.ofList ('"' :: s.toList.flatMap quotedChar ++ ['"'])

end BantamJava
