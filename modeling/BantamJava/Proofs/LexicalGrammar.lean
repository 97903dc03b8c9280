/-
# The lexical grammar

What the lexemes of a text are, said without reference to how they are found. A
lexeme fits in front of a text, the text that comes after it: a run of blanks, a word
or a number only where it cannot be continued, a block comment only if it holds no
earlier `*/`, an operator only where no longer one fits and no comment starts. What
fits nowhere is a stray character: one that starts no other lexeme.

Cutting a text goes by the first character, then takes the first rule that applies.
It finds the one lexeme that fits: a lexeme is cut off the front of a text if and only
if it fits there (`cut_eq_some_iff`).

Key definitions: `Maximal`, `LiteralBody`, `Lexeme.Regular`, `Lexeme.Fits`.
Key theorems: `closeLiteral_eq_some_iff`, `closeComment_eq_some_iff`,
`find?_operators_eq_some_iff`, `Lexeme.Regular.cut`, `cut_eq_some_iff`.
-/
import BantamJava.Lexeme.Basic

namespace BantamJava

/-! ### What fits -/

/-- A run of characters of one class that the text after it does not continue. -/
structure Maximal (within : Char → Bool) (run rest : List Char) : Prop where
  all : ∀ c ∈ run, within c = true
  stops : ∀ c ∈ rest.head?, within c = false

/-- What may stand between the quotes of a string constant: characters of its line
other than quotes and backslashes, and backslashes that each take the next character
with them, whatever it is but a line feed. -/
inductive LiteralBody : List Char → Prop where
  | nil : LiteralBody []
  | plain {c : Char} {cs : List Char} (hquote : c ≠ '"') (hslash : c ≠ '\\')
      (hline : staysOnLine c = true) (hcs : LiteralBody cs) : LiteralBody (c :: cs)
  | escape {c : Char} {cs : List Char} (hfeed : c ≠ '\n') (hcs : LiteralBody cs) :
      LiteralBody ('\\' :: c :: cs)

namespace Lexeme

/-- The lexemes other than stray characters, each with the texts that it fits in
front of. -/
inductive Regular : Lexeme → List Char → Prop where
  | blank {c : Char} {cs rest : List Char} (hc : isBlank c = true)
      (hcs : Maximal isBlank cs rest) : Regular ⟨.blank, c :: cs⟩ rest
  | lineComment {cs rest : List Char} (hcs : Maximal staysOnLine cs rest) :
      Regular ⟨.lineComment, '/' :: '/' :: cs⟩ rest
  /-- No `*/` stands in the comment before its last two characters. -/
  | blockComment {cs rest : List Char} (hfirst : ¬ ['*', '/'] <:+: cs ++ ['*']) :
      Regular ⟨.blockComment, '/' :: '*' :: (cs ++ ['*', '/'])⟩ rest
  | openComment {cs : List Char} (hopen : ¬ ['*', '/'] <:+: cs) :
      Regular ⟨.openComment, '/' :: '*' :: cs⟩ []
  | word {c : Char} {cs rest : List Char} (hc : isLetter c = true)
      (hcs : Maximal isWordChar cs rest) : Regular ⟨.word, c :: cs⟩ rest
  | number {c : Char} {cs rest : List Char} (hc : isDigit c = true)
      (hcs : Maximal isDigit cs rest) : Regular ⟨.number, c :: cs⟩ rest
  | literal {cs rest : List Char} (hcs : LiteralBody cs) :
      Regular ⟨.literal, '"' :: (cs ++ ['"'])⟩ rest
  /-- No constant that starts at the quote is ever closed. -/
  | openLiteral {cs rest : List Char} (hcs : Maximal staysOnLine cs rest)
      (hopen : ∀ body after, LiteralBody body → cs ++ rest ≠ body ++ '"' :: after) :
      Regular ⟨.openLiteral, '"' :: cs⟩ rest
  /-- No longer operator fits, and no comment starts here. -/
  | operator {chars rest : List Char} {kind : Kind} (hmem : (chars, kind) ∈ operators)
      (hlongest : ∀ o ∈ operators, o.1 <+: chars ++ rest → o.1.length ≤ chars.length)
      (hline : ¬ ['/', '/'] <+: chars ++ rest) (hblock : ¬ ['/', '*'] <+: chars ++ rest) :
      Regular ⟨.operator kind, chars⟩ rest

/-- The lexeme fits in front of `rest`: it is a regular one, or a single character at
which no regular one starts. -/
def Fits (l : Lexeme) (rest : List Char) : Prop :=
  l.Regular rest ∨ ∃ c, l = ⟨.stray, [c]⟩ ∧
    ∀ (other : Lexeme) (after : List Char), other.Regular after →
      other.chars ++ after ≠ c :: rest

end Lexeme

/-! ### Runs -/

theorem maximal_takeWhile (within : Char → Bool) (cs : List Char) :
    Maximal within (cs.takeWhile within) (cs.dropWhile within) where
  all := List.all_eq_true.1 List.all_takeWhile
  stops c hc := by
    cases hd : cs.dropWhile within with
    | nil => simp [hd] at hc
    | cons d ds =>
      have hne : cs.dropWhile within ≠ [] := by simp [hd]
      have hhead := List.head_dropWhile_not within hne
      simp_all

theorem Maximal.cutRun {within : Char → Bool} {cs rest : List Char} (h : Maximal within cs rest)
    (shape : Shape) (c : Char) :
    cutRun shape within c (cs ++ rest) = (⟨shape, c :: cs⟩, rest) := by
  have htake : rest.takeWhile within = [] := by
    cases rest with
    | nil => rfl
    | cons d ds => simp [h.stops d rfl]
  have hdrop : rest.dropWhile within = rest := by
    cases rest with
    | nil => rfl
    | cons d ds => simp [h.stops d rfl]
  unfold BantamJava.cutRun
  rw [List.takeWhile_append_of_pos h.all, List.dropWhile_append_of_pos h.all, htake, hdrop,
    List.append_nil]

/-! ### String constants -/

theorem LiteralBody.closeLiteral {body : List Char} (h : LiteralBody body) (rest : List Char) :
    closeLiteral (body ++ '"' :: rest) = some (body ++ ['"'], rest) := by
  induction h with
  | nil =>
    rw [List.nil_append, BantamJava.closeLiteral.eq_def]
    rfl
  | @plain c cs hquote hslash hline _ ih =>
    have hbreak : ¬ (c = '\r' ∨ c = '\n') := by simpa [staysOnLine] using hline
    rw [List.cons_append, BantamJava.closeLiteral.eq_def]
    simp only [if_neg hquote, if_neg hslash, if_neg hbreak, ih]
    rfl
  | escape hfeed _ ih =>
    rw [List.cons_append, List.cons_append, BantamJava.closeLiteral.eq_def]
    simp only [if_neg hfeed, ih]
    rfl

theorem literalBody_of_closeLiteral {cs closed rest : List Char}
    (h : closeLiteral cs = some (closed, rest)) :
    ∃ body, LiteralBody body ∧ closed = body ++ ['"'] := by
  fun_induction closeLiteral cs generalizing closed with
  | case1 => cases h
  | case2 =>
    cases h
    exact ⟨[], .nil, rfl⟩
  | case3 => cases h
  | case4 => cases h
  | case5 d ds hd _ ih =>
    obtain ⟨p, hp, he⟩ := Option.map_eq_some_iff.1 h
    cases he
    obtain ⟨body, hbody, hclosed⟩ := ih hp
    exact ⟨_, .escape hd hbody, by rw [hclosed]; rfl⟩
  | case6 => cases h
  | case7 c cs hquote hslash hbreak ih =>
    obtain ⟨p, hp, he⟩ := Option.map_eq_some_iff.1 h
    cases he
    obtain ⟨body, hbody, hclosed⟩ := ih hp
    have hline : staysOnLine c = true := by simpa [staysOnLine] using hbreak
    exact ⟨c :: body, .plain hquote hslash hline hbody, by rw [hclosed]; rfl⟩

/-- **A constant is closed by its first quote behind no backslash.** -/
theorem closeLiteral_eq_some_iff {cs closed rest : List Char} :
    closeLiteral cs = some (closed, rest) ↔
      ∃ body, LiteralBody body ∧ closed = body ++ ['"'] ∧ cs = closed ++ rest := by
  constructor
  · intro h
    obtain ⟨body, hbody, hclosed⟩ := literalBody_of_closeLiteral h
    exact ⟨body, hbody, hclosed, (append_of_closeLiteral h).symm⟩
  · rintro ⟨body, hbody, rfl, rfl⟩
    rw [List.append_assoc]
    exact hbody.closeLiteral rest

/-! ### Comments -/

theorem prefix_cons_iff_head? {c d e : Char} {cs : List Char} :
    [d, e] <+: c :: cs ↔ c = d ∧ cs.head? = some e := by
  cases cs with
  | nil => simp [List.cons_prefix_cons]
  | cons x xs => simp [List.cons_prefix_cons, eq_comm]

/-- What is closed by `*/` goes on after its first character as without the slash. -/
theorem head?_closed (body rest : List Char) :
    (body ++ ['*', '/'] ++ rest).head? = (body ++ ['*']).head? := by
  cases body <;> rfl

theorem closeComment_append {body : List Char} (h : ¬ ['*', '/'] <:+: body ++ ['*'])
    (rest : List Char) :
    closeComment (body ++ ['*', '/'] ++ rest) = some (body ++ ['*', '/'], rest) := by
  induction body with
  | nil => rfl
  | cons c body ih =>
    rw [List.cons_append, List.infix_cons_iff, not_or, prefix_cons_iff_head?,
      ← head?_closed body rest] at h
    rw [List.cons_append, List.cons_append, closeComment, if_neg h.1, ih h.2]
    rfl

theorem not_infix_of_closeComment {cs closed rest : List Char}
    (h : closeComment cs = some (closed, rest)) :
    ∃ body, ¬ ['*', '/'] <:+: body ++ ['*'] ∧ closed = body ++ ['*', '/'] := by
  induction cs generalizing closed with
  | nil => cases h
  | cons c cs ih =>
    rw [closeComment] at h
    by_cases hends : c = '*' ∧ cs.head? = some '/'
    · rw [if_pos hends] at h
      cases h
      exact ⟨[], by decide, by rw [hends.1]; rfl⟩
    · rw [if_neg hends] at h
      obtain ⟨p, hp, he⟩ := Option.map_eq_some_iff.1 h
      cases he
      obtain ⟨body, hbody, hclosed⟩ := ih hp
      have hcs : body ++ ['*', '/'] ++ p.2 = cs := hclosed ▸ append_of_closeComment hp
      refine ⟨c :: body, ?_, by rw [hclosed]; rfl⟩
      rw [List.cons_append, List.infix_cons_iff, not_or, prefix_cons_iff_head?,
        ← head?_closed body p.2, hcs]
      exact ⟨hends, hbody⟩

/-- **A comment is closed by the first `*/` in it.** -/
theorem closeComment_eq_some_iff {cs closed rest : List Char} :
    closeComment cs = some (closed, rest) ↔
      ∃ body, ¬ ['*', '/'] <:+: body ++ ['*'] ∧ closed = body ++ ['*', '/'] ∧
        cs = closed ++ rest := by
  constructor
  · intro h
    obtain ⟨body, hbody, hclosed⟩ := not_infix_of_closeComment h
    exact ⟨body, hbody, hclosed, (append_of_closeComment h).symm⟩
  · rintro ⟨body, hbody, rfl, rfl⟩
    exact closeComment_append hbody rest

theorem closeComment_eq_none_iff {cs : List Char} :
    closeComment cs = none ↔ ¬ ['*', '/'] <:+: cs := by
  induction cs with
  | nil => simp [closeComment]
  | cons c cs ih =>
    rw [closeComment, List.infix_cons_iff, prefix_cons_iff_head?, not_or, ← ih]
    by_cases hends : c = '*' ∧ cs.head? = some '/'
    · simp [hends]
    · simp [hends]

/-! ### Operators -/

/-- The longer operators come first. -/
theorem operators_longer_first : operators.Pairwise fun o o' => o'.1.length ≤ o.1.length := by
  decide

/-- No two operators are spelled the same. -/
theorem operators_distinct : ∀ o ∈ operators, ∀ o' ∈ operators, o.1 = o'.1 → o = o' := by
  decide

theorem longest_of_find?_operators {s : List Char} {o : List Char × Kind}
    (h : (operators.find? fun o => o.1.isPrefixOf s) = some o) :
    o ∈ operators ∧ o.1 <+: s ∧ ∀ o' ∈ operators, o'.1 <+: s → o'.1.length ≤ o.1.length := by
  obtain ⟨hfits, before, behind, hsplit, hbefore⟩ := List.find?_eq_some_iff_append.1 h
  have hsorted := operators_longer_first
  rw [hsplit, List.pairwise_append, List.pairwise_cons] at hsorted
  refine ⟨List.mem_of_find?_eq_some h, List.isPrefixOf_iff_prefix.1 hfits, ?_⟩
  intro o' ho' hfits'
  rw [hsplit, List.mem_append, List.mem_cons] at ho'
  rcases ho' with hmem | rfl | hmem
  · have hmissed := hbefore o' hmem
    simp [List.isPrefixOf_iff_prefix.2 hfits'] at hmissed
  · exact Nat.le_refl _
  · exact hsorted.2.1.1 o' hmem

/-- **The operator found is the longest one that fits.** -/
theorem find?_operators_eq_some_iff {s : List Char} {o : List Char × Kind} :
    (operators.find? fun o => o.1.isPrefixOf s) = some o ↔
      o ∈ operators ∧ o.1 <+: s ∧
        ∀ o' ∈ operators, o'.1 <+: s → o'.1.length ≤ o.1.length := by
  constructor
  · exact longest_of_find?_operators
  · rintro ⟨hmem, hfits, hlongest⟩
    cases hfind : operators.find? fun o => o.1.isPrefixOf s with
    | none =>
      have hmissed := List.find?_eq_none.1 hfind o hmem
      exact absurd (List.isPrefixOf_iff_prefix.2 hfits) hmissed
    | some o' =>
      obtain ⟨hmem', hfits', hlongest'⟩ := longest_of_find?_operators hfind
      have hlength : o'.1.length = o.1.length :=
        Nat.le_antisymm (hlongest o' hmem' hfits') (hlongest' o hmem hfits)
      have hchars : o'.1 = o.1 :=
        (List.prefix_of_prefix_length_le hfits' hfits (Nat.le_of_eq hlength)).eq_of_length hlength
      rw [operators_distinct o' hmem' o hmem hchars]

/-! ### First characters -/

/-- There are no blanks among the visible characters of ASCII. -/
theorem isBlank_of_visible {c : Char} (hlow : 33 ≤ c.toNat) (hhigh : c.toNat ≤ 126) :
    isBlank c = false := by
  cases hb : isBlank c with
  | false => rfl
  | true =>
    obtain ⟨r, hr, hle, hge⟩ := (Ranges.contains_iff blankRanges_ascending _).1 hb
    have houtside : ∀ r ∈ blankRanges, r.2 < 33 ∨ 126 < r.1 := by decide
    have := houtside r hr
    omega

theorem isBlank_of_isLetter {c : Char} (h : isLetter c = true) : isBlank c = false := by
  have hbounds : (97 ≤ c.toNat ∧ c.toNat ≤ 122) ∨ (65 ≤ c.toNat ∧ c.toNat ≤ 90) := by
    simpa [isLetter] using h
  exact isBlank_of_visible (by omega) (by omega)

theorem isBlank_of_isDigit {c : Char} (h : isDigit c = true) : isBlank c = false := by
  have hbounds : 48 ≤ c.toNat ∧ c.toNat ≤ 57 := by simpa [isDigit] using h
  exact isBlank_of_visible (by omega) (by omega)

theorem isLetter_of_isDigit {c : Char} (h : isDigit c = true) : isLetter c = false := by
  have hbounds : 48 ≤ c.toNat ∧ c.toNat ≤ 57 := by simpa [isDigit] using h
  have hnot : ¬ ((97 ≤ c.toNat ∧ c.toNat ≤ 122) ∨ (65 ≤ c.toNat ∧ c.toNat ≤ 90)) := by omega
  cases hl : isLetter c with
  | false => rfl
  | true => exact absurd (by simpa [isLetter] using hl) hnot

/-- Whether a character starts no run and no string constant. -/
def isMark (c : Char) : Bool :=
  !isBlank c && !isLetter c && !isDigit c && c != '"'

theorem operators_start_with_marks : ∀ o ∈ operators, o.1.head?.all isMark = true := by
  decide

section CutFrom

variable {c : Char} (cs : List Char)

theorem cutFrom_of_isBlank (h : isBlank c = true) : cutFrom c cs = cutRun .blank isBlank c cs := by
  unfold cutFrom
  rw [if_pos h]

theorem cutFrom_of_isLetter (h : isLetter c = true) :
    cutFrom c cs = cutRun .word isWordChar c cs := by
  unfold cutFrom
  rw [isBlank_of_isLetter h, if_neg Bool.false_ne_true, if_pos h]

theorem cutFrom_of_isDigit (h : isDigit c = true) : cutFrom c cs = cutRun .number isDigit c cs := by
  unfold cutFrom
  rw [isBlank_of_isDigit h, isLetter_of_isDigit h, if_neg Bool.false_ne_true,
    if_neg Bool.false_ne_true, if_pos h]

theorem cutFrom_quote : cutFrom '"' cs = cutLiteral cs := rfl

/-- Comments, operators and stray characters start with a mark. -/
theorem cutFrom_of_isMark (h : isMark c = true) :
    cutFrom c cs =
      if ['/', '/'] <+: c :: cs then cutRun .lineComment staysOnLine c cs
      else if ['/', '*'] <+: c :: cs then cutComment cs.tail
      else cutOperator c cs := by
  obtain ⟨⟨⟨hblank, hletter⟩, hdigit⟩, hquote⟩ :
      ((isBlank c = false ∧ isLetter c = false) ∧ isDigit c = false) ∧ c ≠ '"' := by
    simpa [isMark] using h
  simp only [cutFrom, hblank, hletter, hdigit, Bool.false_eq_true, if_false, if_neg hquote,
    prefix_cons_iff_head?]

theorem cutFrom_lineComment :
    cutFrom '/' ('/' :: cs) = cutRun .lineComment staysOnLine '/' ('/' :: cs) := by
  rw [cutFrom_of_isMark _ (by decide), if_pos ⟨cs, rfl⟩]

theorem cutFrom_blockComment : cutFrom '/' ('*' :: cs) = cutComment cs := by
  have hline : ¬ ['/', '/'] <+: '/' :: '*' :: cs := by simp
  rw [cutFrom_of_isMark _ (by decide), if_neg hline, if_pos ⟨cs, rfl⟩]
  rfl

end CutFrom

/-! ### Cutting finds what fits -/

theorem cutLiteral_of_open {cs : List Char}
    (h : ∀ body after, LiteralBody body → cs ≠ body ++ '"' :: after) :
    cutLiteral cs = cutRun .openLiteral staysOnLine '"' cs := by
  unfold cutLiteral
  split
  · next body rest hclose =>
    obtain ⟨inside, hinside, rfl, hcs⟩ := closeLiteral_eq_some_iff.1 hclose
    rw [List.append_assoc] at hcs
    exact absurd hcs (h inside rest hinside)
  · rfl

/-- **A regular lexeme is cut off where it fits.** -/
theorem Lexeme.Regular.cut {l : Lexeme} {rest : List Char} (h : l.Regular rest) :
    cut (l.chars ++ rest) = some (l, rest) := by
  cases h with
  | blank hc hcs => exact congrArg some ((cutFrom_of_isBlank _ hc).trans (hcs.cutRun _ _))
  | @lineComment cs _ hcs =>
    have hrun : Maximal staysOnLine ('/' :: cs) rest :=
      ⟨List.forall_mem_cons.2 ⟨rfl, hcs.all⟩, hcs.stops⟩
    exact congrArg some ((cutFrom_lineComment _).trans (hrun.cutRun _ _))
  | @blockComment cs _ hfirst =>
    have hcut : cutComment (cs ++ ['*', '/'] ++ rest) =
        (⟨.blockComment, '/' :: '*' :: (cs ++ ['*', '/'])⟩, rest) := by
      unfold cutComment
      rw [closeComment_append hfirst]
    exact congrArg some ((cutFrom_blockComment _).trans hcut)
  | @openComment cs hopen =>
    have hcut : cutComment cs = (⟨.openComment, '/' :: '*' :: cs⟩, []) := by
      unfold cutComment
      rw [closeComment_eq_none_iff.2 hopen]
    rw [List.append_nil]
    exact congrArg some ((cutFrom_blockComment _).trans hcut)
  | word hc hcs => exact congrArg some ((cutFrom_of_isLetter _ hc).trans (hcs.cutRun _ _))
  | number hc hcs => exact congrArg some ((cutFrom_of_isDigit _ hc).trans (hcs.cutRun _ _))
  | @literal cs _ hcs =>
    have hcut : cutLiteral (cs ++ '"' :: rest) = (⟨.literal, '"' :: (cs ++ ['"'])⟩, rest) := by
      unfold cutLiteral
      rw [hcs.closeLiteral]
    rw [List.cons_append, List.append_assoc]
    exact congrArg some ((cutFrom_quote _).trans hcut)
  | openLiteral hcs hopen =>
    have hcut := (cutLiteral_of_open hopen).trans (hcs.cutRun .openLiteral '"')
    exact congrArg some ((cutFrom_quote _).trans hcut)
  | @operator chars _ kind hmem hlongest hline hblock =>
    have hfind := find?_operators_eq_some_iff.2 ⟨hmem, List.prefix_append chars rest, hlongest⟩
    cases chars with
    | nil => exact absurd rfl (operators_ne_nil _ hmem)
    | cons c cs =>
      have hmark : isMark c = true := operators_start_with_marks _ hmem
      have hcut : cutOperator c (cs ++ rest) = (⟨.operator kind, c :: cs⟩, rest) := by
        unfold cutOperator
        rw [List.cons_append] at hfind
        rw [hfind]
        simp
      have hfrom : cutFrom c (cs ++ rest) = cutOperator c (cs ++ rest) := by
        rw [cutFrom_of_isMark _ hmark]
        rw [List.cons_append] at hline hblock
        rw [if_neg hline, if_neg hblock]
      exact congrArg some (hfrom.trans hcut)

theorem regular_or_stray_cutOperator {c : Char} {cs : List Char}
    (hline : ¬ ['/', '/'] <+: c :: cs) (hblock : ¬ ['/', '*'] <+: c :: cs) :
    (cutOperator c cs).1.Regular (cutOperator c cs).2 ∨
      cutOperator c cs = (⟨.stray, [c]⟩, cs) := by
  have happend := append_cutOperator c cs
  unfold cutOperator at *
  split at happend
  · next chars kind hfind =>
    obtain ⟨hmem, -, hlongest⟩ := longest_of_find?_operators hfind
    rw [← happend] at hlongest hline hblock
    exact .inl (.operator hmem hlongest hline hblock)
  · exact .inr rfl

theorem regular_cutLiteral (cs : List Char) : (cutLiteral cs).1.Regular (cutLiteral cs).2 := by
  unfold cutLiteral
  split
  · next closed rest hclose =>
    obtain ⟨body, hbody, rfl, -⟩ := closeLiteral_eq_some_iff.1 hclose
    exact .literal hbody
  · next hclose =>
    refine .openLiteral (maximal_takeWhile staysOnLine cs) ?_
    intro body after hbody hcs
    have happend : cs = body ++ '"' :: after := List.takeWhile_append_dropWhile.symm.trans hcs
    rw [happend, hbody.closeLiteral] at hclose
    cases hclose

theorem regular_cutComment (cs : List Char) : (cutComment cs).1.Regular (cutComment cs).2 := by
  unfold cutComment
  split
  · next closed rest hclose =>
    obtain ⟨body, hbody, rfl, -⟩ := closeComment_eq_some_iff.1 hclose
    exact .blockComment hbody
  · next hclose => exact .openComment (closeComment_eq_none_iff.1 hclose)

/-- What is cut off is regular, or else a single character. -/
theorem regular_or_stray_cutFrom (c : Char) (cs : List Char) :
    (cutFrom c cs).1.Regular (cutFrom c cs).2 ∨ cutFrom c cs = (⟨.stray, [c]⟩, cs) := by
  by_cases hblank : isBlank c = true
  · rw [cutFrom_of_isBlank _ hblank]
    exact .inl (.blank hblank (maximal_takeWhile isBlank cs))
  by_cases hletter : isLetter c = true
  · rw [cutFrom_of_isLetter _ hletter]
    exact .inl (.word hletter (maximal_takeWhile isWordChar cs))
  by_cases hdigit : isDigit c = true
  · rw [cutFrom_of_isDigit _ hdigit]
    exact .inl (.number hdigit (maximal_takeWhile isDigit cs))
  by_cases hquote : c = '"'
  · rw [hquote, cutFrom_quote]
    exact .inl (regular_cutLiteral cs)
  have hmark : isMark c = true := by simp [isMark, hblank, hletter, hdigit, hquote]
  by_cases hline : ['/', '/'] <+: c :: cs
  · obtain ⟨body, hbody⟩ := hline
    obtain ⟨hc, hcs⟩ : '/' = c ∧ '/' :: body = cs := List.cons.inj hbody
    rw [← hc, ← hcs, cutFrom_lineComment]
    exact .inl (.lineComment (maximal_takeWhile staysOnLine body))
  by_cases hblock : ['/', '*'] <+: c :: cs
  · obtain ⟨body, hbody⟩ := hblock
    obtain ⟨hc, hcs⟩ : '/' = c ∧ '*' :: body = cs := List.cons.inj hbody
    rw [← hc, ← hcs, cutFrom_blockComment]
    exact .inl (regular_cutComment body)
  rw [cutFrom_of_isMark _ hmark, if_neg hline, if_neg hblock]
  exact regular_or_stray_cutOperator hline hblock

theorem Lexeme.Regular.shape_ne_stray {l : Lexeme} {rest : List Char} (h : l.Regular rest) :
    l.shape ≠ .stray := by
  cases h <;> exact fun he => Shape.noConfusion he

/-- **Cutting finds the lexeme that fits, and there is no other.** -/
theorem cut_eq_some_iff {s : List Char} {l : Lexeme} {rest : List Char} :
    cut s = some (l, rest) ↔ s = l.chars ++ rest ∧ l.Fits rest := by
  constructor
  · intro h
    refine ⟨(append_of_cut h).symm, ?_⟩
    cases s with
    | nil => cases h
    | cons c cs =>
      have hfrom : cutFrom c cs = (l, rest) := Option.some.inj h
      have hcases := regular_or_stray_cutFrom c cs
      rw [hfrom] at hcases
      rcases hcases with hregular | hstray
      · exact .inl hregular
      · cases hstray
        refine .inr ⟨c, rfl, ?_⟩
        intro other after hregular hsame
        have hother := hregular.cut
        rw [hsame, h] at hother
        cases hother
        exact hregular.shape_ne_stray rfl
  · rintro ⟨rfl, hregular | ⟨c, rfl, hnone⟩⟩
    · exact hregular.cut
    · rcases regular_or_stray_cutFrom c rest with hregular | hstray
      · exact absurd (append_cutFrom c rest) (hnone _ _ hregular)
      · exact congrArg some hstray

end BantamJava
