/-
# String constants and block comments

Where a string constant and a block comment end, and what a string constant
means. Inside a constant a backslash takes the next character with it,
whatever that is except a line feed, so a quote after a backslash does not end
the constant. Five escapes stand for one character each; after any other
backslash both characters stand for themselves.

Key definitions: `closeLiteral`, `unescape`, `closeComment`.
-/
namespace BantamJava

/-- Puts characters back in front of the first of two texts. -/
def prepend (cs : List Char) (cut : List Char × List Char) : List Char × List Char :=
  (cs ++ cut.1, cut.2)

/-- The rest of a string constant up to and including its closing quote, and
what follows it; nothing if the constant is not closed on its line. The text
starts after the opening quote. -/
def closeLiteral : List Char → Option (List Char × List Char)
  | [] => none
  | c :: cs =>
    if c = '"' then some ([c], cs)
    else if c = '\\' then
      match cs with
      | [] => none
      | d :: ds => if d = '\n' then none else (closeLiteral ds).map (prepend [c, d])
    else if c = '\r' ∨ c = '\n' then none
    else (closeLiteral cs).map (prepend [c])

/-- The character that a backslash followed by `c` stands for, if it is one of
the five escapes. -/
def escaped? (c : Char) : Option Char :=
  if c = 'n' then some '\n'
  else if c = 't' then some '\t'
  else if c = 'f' then some '\x0c'
  else if c = '\\' then some '\\'
  else if c = '"' then some '"'
  else none

/-- The text that the body of a string constant stands for. -/
def unescape : List Char → List Char
  | [] => []
  | [c] => [c]
  | c :: d :: cs =>
    if c = '\\' then
      match escaped? d with
      | some e => e :: unescape cs
      | none => c :: unescape (d :: cs)
    else c :: unescape (d :: cs)

/-- The rest of a block comment up to and including the first `*/`, and what
follows it; nothing if there is none. The text starts after the `/*`. -/
def closeComment : List Char → Option (List Char × List Char)
  | [] => none
  | c :: cs =>
    if c = '*' ∧ cs.head? = some '/' then some ([c, '/'], cs.tail)
    else (closeComment cs).map (prepend [c])

/-- Closing a constant loses no character. -/
theorem append_of_closeLiteral : ∀ {cs body rest : List Char},
    closeLiteral cs = some (body, rest) → body ++ rest = cs := by
  intro cs
  fun_induction closeLiteral cs with
  | case1 => simp
  | case2 => simp +contextual
  | case3 => simp
  | case4 => simp
  | case5 c d ds hd ih =>
    intro body rest h
    obtain ⟨p, hp, he⟩ := Option.map_eq_some_iff.1 h
    cases he
    simp [ih hp]
  | case6 => simp
  | case7 c cs _ _ _ ih =>
    intro body rest h
    obtain ⟨p, hp, he⟩ := Option.map_eq_some_iff.1 h
    cases he
    simp [ih hp]

/-- Closing a comment loses no character. -/
theorem append_of_closeComment : ∀ {cs body rest : List Char},
    closeComment cs = some (body, rest) → body ++ rest = cs := by
  intro cs
  fun_induction closeComment cs with
  | case1 => simp
  | case2 c cs h =>
    intro body rest he
    obtain ⟨rfl, hs⟩ := h
    cases cs with
    | nil => simp at hs
    | cons d ds =>
      cases he
      simp_all
  | case3 c cs _ ih =>
    intro body rest h
    obtain ⟨p, hp, he⟩ := Option.map_eq_some_iff.1 h
    cases he
    simp [ih hp]

end BantamJava
