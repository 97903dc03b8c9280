/-
# Line breaks and positions

A walk over a text keeps count of lines and columns as it goes, and remembers a
carriage return in case that a line feed follows. Here the position behind a text is
said in terms of the text alone: one more than the number of its line breaks, and one
more than the number of characters behind the last of them. A walk that starts at the
first line and column ends there, in whatever steps it is taken (`Place.after_start`).
Both are counted in 32 bits, which is enough for every text whose length is less than the
greatest number (`line_positionBehind`, `column_positionBehind`).

Key definitions: `endsBreak`, `lineBreaks`, `lastLine`, `positionBehind`.
Key theorems: `lineBreaks_concat`, `Place.after_start`, `lineBreaks_le_append`,
`line_positionBehind`, `column_positionBehind`, `positionBehind_le`, `positionBehind_lt`.
-/
import Mathlib.Data.List.DropRight
import BantamJava.Lexeme.Basic
import BantamJava.Text.Position

namespace BantamJava

/-! ### Counting line breaks -/

/-- Whether a line break ends with the character `c`, in front of the text `cs`. -/
def endsBreak (c : Char) (cs : List Char) : Bool :=
  c == '\n' || (c == '\r' && cs.head? != some '\n')

/-- The number of line breaks in a text. A carriage return, a line feed and the pair of
the two are one break each. -/
def lineBreaks : List Char → Nat
  | [] => 0
  | c :: cs => if endsBreak c cs then lineBreaks cs + 1 else lineBreaks cs

/-- The characters behind the last carriage return or line feed of a text. -/
def lastLine (cs : List Char) : List Char := cs.rtakeWhile staysOnLine

/-- The position behind a text, in 32 bits. -/
def positionBehind (before : List Char) : Position :=
  ⟨.ofNat (lineBreaks before + 1), .ofNat ((lastLine before).length + 1)⟩

/-- A line break that ends with `c` is a new one, unless `c` is the line feed of a pair. -/
theorem lineBreaks_concat (cs : List Char) (c : Char) :
    lineBreaks (cs ++ [c]) =
      if c = '\r' ∨ c = '\n' ∧ cs.getLast? ≠ some '\r' then lineBreaks cs + 1
      else lineBreaks cs := by
  induction cs with
  | nil => simp [lineBreaks, endsBreak, or_comm]
  | cons d cs ih =>
    cases cs with
    | nil =>
      -- the pair is one break, counted at the carriage return while that is the last character
      simp only [List.cons_append, List.nil_append, lineBreaks, endsBreak]
      by_cases hr : c = '\r' <;> by_cases hn : c = '\n' <;> by_cases hr' : d = '\r' <;>
        by_cases hn' : d = '\n' <;> simp_all
    | cons e es =>
      have hends : endsBreak d (e :: es ++ [c]) = endsBreak d (e :: es) := rfl
      have hlast : (d :: e :: es).getLast? = (e :: es).getLast? := List.getLast?_cons_cons
      rw [List.cons_append, lineBreaks, hends, ih, hlast, lineBreaks.eq_def (d :: e :: es)]
      simp only
      split <;> split <;> rfl

theorem lastLine_concat (cs : List Char) (c : Char) :
    lastLine (cs ++ [c]) = if staysOnLine c = true then lastLine cs ++ [c] else [] :=
  List.rtakeWhile_concat staysOnLine cs c

/-! ### Texts without line breaks -/

theorem staysOnLine_iff {c : Char} : staysOnLine c = true ↔ c ≠ '\r' ∧ c ≠ '\n' := by
  simp [staysOnLine]

theorem endsBreak_of_staysOnLine {c : Char} (h : staysOnLine c = true) (cs : List Char) :
    endsBreak c cs = false := by
  obtain ⟨hr, hn⟩ := staysOnLine_iff.1 h
  simp [endsBreak, hr, hn]

/-- A character that does not stay on its line ends a break, unless a line feed follows. -/
theorem endsBreak_or_feed {c : Char} (h : staysOnLine c = false) (cs : List Char) :
    endsBreak c cs = true ∨ cs.head? = some '\n' := by
  have hc : c = '\n' ∨ c = '\r' := by
    by_cases hr : c = '\r'
    · exact .inr hr
    · exact .inl (by simpa [staysOnLine, hr] using h)
  by_cases hfeed : cs.head? = some '\n'
  · exact .inr hfeed
  · left
    rcases hc with rfl | rfl <;> simp [endsBreak, hfeed]

theorem lineBreaks_eq_zero_iff {cs : List Char} :
    lineBreaks cs = 0 ↔ ∀ c ∈ cs, staysOnLine c = true := by
  induction cs with
  | nil => simp [lineBreaks]
  | cons c cs ih =>
    rw [List.forall_mem_cons, ← ih, lineBreaks]
    cases hline : staysOnLine c with
    | true => simp [endsBreak_of_staysOnLine hline]
    | false =>
      simp only [Bool.false_eq_true, false_and, iff_false]
      intro hzero
      rcases endsBreak_or_feed hline cs with hends | hfeed
      · simp [hends] at hzero
      · have hcs : lineBreaks cs = 0 := by
          split at hzero
          · omega
          · exact hzero
        have := ih.1 hcs '\n' (List.mem_of_head? hfeed)
        simp [staysOnLine] at this

theorem lastLine_eq_self_iff {cs : List Char} : lastLine cs = cs ↔ lineBreaks cs = 0 := by
  rw [lineBreaks_eq_zero_iff, lastLine, List.rtakeWhile_eq_self_iff]

/-- A character in front does not matter for the last line of several. -/
theorem lastLine_cons {c : Char} {cs : List Char} (h : lineBreaks (c :: cs) ≠ 0) :
    lastLine (c :: cs) = lastLine cs := by
  unfold lastLine List.rtakeWhile
  rw [List.reverse_cons]
  by_cases hcs : lineBreaks cs = 0
  · have hall := lineBreaks_eq_zero_iff.1 hcs
    have hc : ¬ staysOnLine c = true := by
      intro hline
      exact h (lineBreaks_eq_zero_iff.2 (List.forall_mem_cons.2 ⟨hline, hall⟩))
    rw [List.takeWhile_append_of_pos (by simpa using hall), List.takeWhile_cons_of_neg hc,
      List.append_nil, List.takeWhile_eq_self_iff.2 (by simpa using hall)]
  · have hshort : (cs.reverse.takeWhile staysOnLine).length ≠ cs.reverse.length := by
      intro hlength
      apply hcs
      rw [← lastLine_eq_self_iff]
      apply (List.rtakeWhile_suffix staysOnLine cs).eq_of_length
      simpa [List.rtakeWhile] using hlength
    rw [List.takeWhile_append, if_neg hshort]

/-- The last line is empty if nothing precedes the end of the text but a line break. -/
theorem lastLine_eq_nil_iff {cs : List Char} :
    lastLine cs = [] ↔ cs = [] ∨ ∃ c ∈ cs.getLast?, staysOnLine c = false := by
  induction cs using List.reverseRecOn with
  | nil => simp [lastLine]
  | append_singleton ds d _ => by_cases hd : staysOnLine d = true <;> simp [lastLine_concat, hd]

namespace Place

/-- **A walk from the start ends at the position behind the text.** It remembers
whether the last character was a carriage return. -/
theorem after_start (before : List Char) :
    start.after before = ⟨positionBehind before, before.getLast? == some '\r'⟩ := by
  induction before using List.reverseRecOn with
  | nil => rfl
  | append_singleton cs c ih =>
    rw [after_append, ih, after_cons, after_nil]
    simp only [step, positionBehind, lineBreaks_concat, lastLine_concat, List.getLast?_concat]
    by_cases hr : c = '\r'
    · simp [hr, staysOnLine]
    by_cases hn : c = '\n'
    · by_cases hlast : cs.getLast? = some '\r' <;> simp [hn, hlast, staysOnLine]
    · simp [hr, hn, staysOnLine]

theorem position_after_start (before : List Char) :
    (start.after before).position = positionBehind before := by
  rw [after_start]

end Place

/-! ### Longer texts reach further -/

/-- A character adds a line, or leaves the lines as they are and takes nothing from the last
one. -/
theorem lineBreaks_le_concat (cs : List Char) (c : Char) :
    lineBreaks cs < lineBreaks (cs ++ [c]) ∨
      lineBreaks cs = lineBreaks (cs ++ [c]) ∧
        (lastLine cs).length ≤ (lastLine (cs ++ [c])).length := by
  rw [lineBreaks_concat, lastLine_concat]
  by_cases hbreak : c = '\r' ∨ c = '\n' ∧ cs.getLast? ≠ some '\r'
  · exact .inl (by simp [hbreak])
  · refine .inr ⟨by simp [hbreak], ?_⟩
    cases hline : staysOnLine c with
    | true => simp
    | false =>
      -- the line feed of a pair, so nothing stands on the last line
      obtain ⟨hreturn, hpair⟩ := not_or.1 hbreak
      have hfeed : c = '\n' := by simpa [staysOnLine, hreturn] using hline
      have hlast : cs.getLast? = some '\r' := by simpa [hfeed] using hpair
      have hnil : lastLine cs = [] := lastLine_eq_nil_iff.2 (.inr ⟨'\r', hlast, rfl⟩)
      simp [hnil]

/-- **A text reaches at least as far as what it begins with**: it has more lines, or the last
line of it is not shorter. -/
theorem lineBreaks_le_append (before behind : List Char) :
    lineBreaks before < lineBreaks (before ++ behind) ∨
      lineBreaks before = lineBreaks (before ++ behind) ∧
        (lastLine before).length ≤ (lastLine (before ++ behind)).length := by
  induction behind using List.reverseRecOn with
  | nil => simp
  | append_singleton ds d ih =>
    have hstep := lineBreaks_le_concat (before ++ ds) d
    rw [← List.append_assoc]
    omega

/-- A text has room for its line breaks and its last line. -/
theorem lineBreaks_add_lastLine_le (cs : List Char) :
    lineBreaks cs + (lastLine cs).length ≤ cs.length := by
  induction cs using List.reverseRecOn with
  | nil => simp [lineBreaks, lastLine]
  | append_singleton ds d ih =>
    rw [lineBreaks_concat, lastLine_concat, List.length_append, List.length_singleton]
    cases hline : staysOnLine d with
    | true =>
      obtain ⟨hreturn, hfeed⟩ := staysOnLine_iff.1 hline
      simp only [hreturn, hfeed, false_and, or_self, if_false, if_true, List.length_append,
        List.length_singleton]
      omega
    | false =>
      simp only [Bool.false_eq_true, if_false, List.length_nil]
      split <;> omega

section Exact

variable {before : List Char} (h : before.length + 1 < UInt32.size)

include h

/-- **The line is exact** behind a text that is not too long. -/
theorem line_positionBehind : (positionBehind before).line.toNat = lineBreaks before + 1 := by
  have hle := lineBreaks_add_lastLine_le before
  exact UInt32.toNat_ofNat_of_lt' (by omega)

/-- **The column is exact** behind a text that is not too long. -/
theorem column_positionBehind :
    (positionBehind before).column.toNat = (lastLine before).length + 1 := by
  have hle := lineBreaks_add_lastLine_le before
  exact UInt32.toNat_ofNat_of_lt' (by omega)

end Exact

theorem ofNat_succ_inj {m n : Nat} (hm : m < UInt32.size) (hn : n < UInt32.size) :
    UInt32.ofNat (m + 1) = UInt32.ofNat (n + 1) ↔ m = n := by
  rw [UInt32.ofNat_add, UInt32.ofNat_add, UInt32.add_left_inj, ← UInt32.toNat_inj,
    UInt32.toNat_ofNat_of_lt' hm, UInt32.toNat_ofNat_of_lt' hn]

/-- The position tells the number of lines and the length of the last one, even if it had to
start again at zero. -/
theorem positionBehind_inj {xs ys : List Char} (hxs : xs.length < UInt32.size)
    (hys : ys.length < UInt32.size) :
    positionBehind xs = positionBehind ys ↔
      lineBreaks xs = lineBreaks ys ∧ (lastLine xs).length = (lastLine ys).length := by
  have hx := lineBreaks_add_lastLine_le xs
  have hy := lineBreaks_add_lastLine_le ys
  rw [positionBehind, positionBehind, Position.mk.injEq,
    ofNat_succ_inj (by omega) (by omega), ofNat_succ_inj (by omega) (by omega)]

/-- The position behind a text is not in front of that behind what it begins with. -/
theorem positionBehind_le {before behind : List Char}
    (h : (before ++ behind).length + 1 < UInt32.size) :
    positionBehind before ≤ positionBehind (before ++ behind) := by
  have hbefore : before.length + 1 < UInt32.size := by
    rw [List.length_append] at h
    omega
  have hle := lineBreaks_le_append before behind
  rw [Position.le_def, line_positionBehind h, column_positionBehind h,
    line_positionBehind hbefore, column_positionBehind hbefore]
  omega

/-- It is behind that one if a character comes next that stays on its line. -/
theorem positionBehind_lt {c : Char} (hc : staysOnLine c = true) {before behind : List Char}
    (h : (before ++ c :: behind).length + 1 < UInt32.size) :
    positionBehind before < positionBehind (before ++ c :: behind) := by
  have hbefore : before.length + 1 < UInt32.size := by
    rw [List.length_append] at h
    omega
  have hle := lineBreaks_le_append (before ++ [c]) behind
  obtain ⟨hreturn, hfeed⟩ := staysOnLine_iff.1 hc
  rw [lineBreaks_concat, lastLine_concat, List.append_assoc, List.singleton_append] at hle
  simp only [hreturn, hfeed, hc, false_and, or_self, if_false, if_true, List.length_append,
    List.length_singleton] at hle
  rw [Position.lt_def, line_positionBehind h, column_positionBehind h,
    line_positionBehind hbefore, column_positionBehind hbefore]
  omega

end BantamJava
