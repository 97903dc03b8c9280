/-
# Lines and positions agree

A line of a text is found by searching for line breaks from the start of the text, while
a reader keeps count of them as it goes. The two agree: the line whose number a reader
has, when it stands in front of a character, is the line of that character, and there the
character stands in the reader's column.

Both go by the same line breaks: all lines but the first one are found behind a character
as they are without it, one line sooner if a line break ends there (`lineAt?_add_two`).
By induction over the text in front, the line of a character is what stands around it;
and a text has the lines that start in front of its end.

Key theorems: `lineAt?_add_two`, `lineAt?_of_split`, `lineAt?_eq_none_iff`,
`Reader.Behind.line_shows`, `Reader.Behind.line_missing_iff`, `excerpt_shows_character`.
-/
import BantamJava.Proofs.ReaderPlace

namespace BantamJava

/-! ### Line after line -/

theorem breakLine_fst (cs : List Char) : (breakLine cs).1 = cs.takeWhile staysOnLine := by
  induction cs with
  | nil => rfl
  | cons c cs ih =>
    unfold breakLine
    by_cases hr : c = '\r'
    · simp [hr, staysOnLine]
    by_cases hn : c = '\n'
    · simp [hn, staysOnLine]
    · simp [hr, hn, ih, List.takeWhile_cons, staysOnLine]

theorem lineAt?_one (c : Char) (cs : List Char) :
    lineAt? 1 (c :: cs) = some ((c :: cs).takeWhile staysOnLine) := by
  rw [lineAt?, if_pos rfl, breakLine_fst]

theorem lineAt?_later (n : Nat) (cs : List Char) :
    lineAt? (n + 2) cs = lineAt? (n + 1) (breakLine cs).2 := by
  cases cs with
  | nil => rfl
  | cons c cs => rw [lineAt?, if_neg (Nat.succ_ne_zero n)]

/-- **A character in front moves the later lines by one if it ends a line break**, and not
at all otherwise. -/
theorem lineAt?_add_two (n : Nat) (c : Char) (cs : List Char) :
    lineAt? (n + 2) (c :: cs) =
      if endsBreak c cs = true then lineAt? (n + 1) cs else lineAt? (n + 2) cs := by
  rw [lineAt?_later]
  by_cases hr : c = '\r'
  · by_cases hfeed : cs.head? = some '\n'
    · -- the line feed of the pair ends the break
      obtain ⟨ds, rfl⟩ : ∃ ds, cs = '\n' :: ds := List.head?_eq_some_iff.1 hfeed
      simp [lineAt?_later, breakLine, endsBreak, hr]
    · simp [breakLine, endsBreak, hr, hfeed]
  by_cases hn : c = '\n'
  · simp [breakLine, endsBreak, hn]
  · simp [lineAt?_later n cs, breakLine, endsBreak, hr, hn]

/-! ### The line of a character -/

/-- **The line of a character** is what stands around it, up to the line breaks on either
side. -/
theorem lineAt?_of_split {c : Char} (hc : staysOnLine c = true) (before behind : List Char) :
    lineAt? (lineBreaks before + 1) (before ++ c :: behind) =
      some (lastLine before ++ c :: behind.takeWhile staysOnLine) := by
  induction before with
  | nil => simp [lineBreaks, lastLine, lineAt?_one, hc]
  | cons d ds ih =>
    by_cases hzero : lineBreaks (d :: ds) = 0
    · -- all that stands before the character is on its line
      rw [hzero, List.cons_append, lineAt?_one, ← List.cons_append,
        List.takeWhile_append_of_pos (lineBreaks_eq_zero_iff.1 hzero),
        List.takeWhile_cons_of_pos hc, lastLine_eq_self_iff.2 hzero]
    · have hends : endsBreak d (ds ++ c :: behind) = endsBreak d ds := by
        cases ds with
        | nil =>
          have hnone : ((c :: behind).head? != some '\n') = true := by
            simpa using (staysOnLine_iff.1 hc).2
          unfold endsBreak
          rw [List.nil_append, hnone]
          rfl
        | cons e es => rfl
      obtain ⟨n, hn⟩ := Nat.exists_eq_succ_of_ne_zero hzero
      rw [lastLine_cons hzero, ← ih, hn, List.cons_append, lineAt?_add_two, hends]
      rw [lineBreaks] at hn
      split at hn
      · next hd => rw [if_pos hd, Nat.succ.inj hn]
      · next hd => rw [if_neg hd, hn]

/-! ### The lines that a text has -/

/-- **A text has the lines that start in front of its end.** -/
theorem lineAt?_eq_none_iff (n : Nat) (text : List Char) :
    lineAt? n text = none ↔
      n = 0 ∨ lineBreaks text + 1 < n ∨ lineBreaks text + 1 = n ∧ lastLine text = [] := by
  rw [← List.length_eq_zero_iff]
  induction text generalizing n with
  | nil =>
    cases n with
    | zero => simp [lineAt?]
    | succ n =>
      have hlast : (lastLine []).length = 0 := rfl
      refine iff_of_true rfl ?_
      rw [lineBreaks, hlast]
      omega
  | cons c cs ih =>
    rcases n with _ | _ | n
    · simp [lineAt?]
    · -- the first line starts in front of the first character
      have hfirst : lineBreaks (c :: cs) ≠ 0 ∨ (lastLine (c :: cs)).length ≠ 0 := by
        refine or_iff_not_imp_left.2 fun hzero => ?_
        simp [lastLine_eq_self_iff.2 (not_not.1 hzero)]
      refine iff_of_false (by simp [lineAt?_one]) ?_
      omega
    · rw [lineAt?_add_two]
      cases hends : endsBreak c cs with
      | true =>
        have hbreaks : lineBreaks (c :: cs) = lineBreaks cs + 1 := by simp [lineBreaks, hends]
        have hlast : lastLine (c :: cs) = lastLine cs := lastLine_cons (by omega)
        simp only [if_true, ih, hbreaks, hlast]
        omega
      | false =>
        have hbreaks : lineBreaks (c :: cs) = lineBreaks cs := by simp [lineBreaks, hends]
        have hlast : lineBreaks cs = 0 ∨ lastLine (c :: cs) = lastLine cs :=
          or_iff_not_imp_left.2 fun hne => lastLine_cons (by omega)
        simp only [Bool.false_eq_true, if_false, ih, hbreaks]
        rcases hlast with hzero | hlast
        · omega
        · rw [hlast]

/-! ### The line of a reader -/

namespace Reader.Behind

variable {text before : List Char} {r : Reader}

/-- **The line of a reader shows the character in front of it**, in its column. -/
theorem line_shows (h : r.Behind text before) (hlength : text.length < UInt32.size) {c : Char}
    {behind : List Char} (hrest : r.rest = c :: behind) (hc : staysOnLine c = true) :
    ∃ shown, lineAt? r.position.line.toNat text = some shown ∧
      (∀ d ∈ shown, staysOnLine d = true) ∧
      0 < r.position.column.toNat ∧ shown[r.position.column.toNat - 1]? = some c := by
  have hshort : before.length + 1 < UInt32.size := by
    have hle := congrArg List.length h.split
    simp only [hrest, List.length_append, List.length_cons] at hle
    omega
  obtain ⟨hline, hcolumn⟩ := h.exact hshort
  refine ⟨lastLine before ++ c :: behind.takeWhile staysOnLine, ?_, ?_, ?_, ?_⟩
  · rw [hline, h.split, hrest]
    exact lineAt?_of_split hc before behind
  · rw [List.forall_mem_append, List.forall_mem_cons]
    exact ⟨fun d => List.mem_rtakeWhile_imp, hc, fun d => List.mem_takeWhile_imp⟩
  · rw [hcolumn]
    omega
  · simp [hcolumn]

/-- **A reader has a line to show, unless it stands on the empty line at the end.** -/
theorem line_missing_iff (h : r.Behind text before) (hlength : text.length < UInt32.size) :
    lineAt? r.position.line.toNat text = none ↔
      lastLine text = [] ∧ r.position = positionBehind text := by
  have hroom := lineBreaks_add_lastLine_le text
  have hbefore : before.length < UInt32.size := by
    have hle := h.begins.length_le
    omega
  have hreach : lineBreaks before < lineBreaks text ∨ lineBreaks before = lineBreaks text ∧
      (lastLine before).length ≤ (lastLine text).length := by
    rw [h.split]
    exact lineBreaks_le_append before r.rest
  have hline : r.position.line.toNat = (lineBreaks before + 1) % UInt32.size := by
    rw [h.position]
    exact UInt32.toNat_ofNat'
  rw [lineAt?_eq_none_iff, hline, h.position, positionBehind_inj hbefore hlength,
    ← List.length_eq_zero_iff]
  by_cases hfull : lineBreaks before + 1 = UInt32.size
  · -- nothing but line breaks, as many as a text may have, and the line starts again at zero
    rw [hfull, Nat.mod_self]
    omega
  · rw [Nat.mod_eq_of_lt (by omega)]
    omega

end Reader.Behind

/-- **Lines and positions agree.** A reader can be moved to any character of a text. In
front of one that is not part of a line break, the line with the number that the reader
has is the line of that character, which stands there in the column that the reader has. A
text has the lines that start in front of its end, so no line is missing to a reader but
the empty one behind a final line break, or the only one of an empty text. -/
theorem excerpt_shows_character (text file : String) (hlength : text.length < UInt32.size) :
    let begin := Reader.ofText text file
    (∀ before behind, text.toList = before ++ behind →
      ∃ r, begin.call (.advance (byteLength before)) = (.moved, r) ∧ r.rest = behind) ∧
    (∀ asked c behind, (begin.calls asked).2.rest = c :: behind → staysOnLine c = true →
      let p := (begin.calls asked).2.position
      ∃ shown, lineAt? p.line.toNat text.toList = some shown ∧
        (∀ d ∈ shown, staysOnLine d = true) ∧
        0 < p.column.toNat ∧ shown[p.column.toNat - 1]? = some c) ∧
    (∀ n, lineAt? n text.toList = none ↔ n = 0 ∨ lineBreaks text.toList + 1 < n ∨
      lineBreaks text.toList + 1 = n ∧ lastLine text.toList = []) ∧
    ∀ asked, lineAt? (begin.calls asked).2.position.line.toNat text.toList = none ↔
      (text.toList = [] ∨ ∃ c ∈ text.toList.getLast?, staysOnLine c = false) ∧
        (begin.calls asked).2.position = positionBehind text.toList := by
  intro begin
  refine ⟨?_, ?_, fun n => lineAt?_eq_none_iff n _, ?_⟩
  · intro before behind htext
    have hbytes := byteLength_le before
    have hshort : before.length ≤ text.length := by
      rw [← String.length_toList, htext, List.length_append]
      omega
    have hsmall : 0 + byteLength before ≤ maxOffset := by
      have hmax : 4 * UInt32.size ≤ maxOffset := by decide
      omega
    exact ⟨_, begin.call_advance htext hsmall, rfl⟩
  · intro asked c behind hrest hc
    obtain ⟨before, h⟩ := Reader.Behind.ofText_calls text file asked
    exact h.line_shows (by rwa [String.length_toList]) hrest hc
  · intro asked
    obtain ⟨before, h⟩ := Reader.Behind.ofText_calls text file asked
    rw [h.line_missing_iff (by rwa [String.length_toList]), lastLine_eq_nil_iff]

/-- A reader that stops between a carriage return and its line feed comes to the third
line, and there is no fourth one behind the final line break. -/
theorem excerpt_shows_character_among_breaks :
    let r := ((Reader.ofText "a\r\n\réb\n" "a").calls [.advance 2, .advance 1, .advance 3]).2
    (∃ shown, lineAt? 3 "a\r\n\réb\n".toList = some shown ∧ shown[2 - 1]? = some 'b') ∧
      r.position = ⟨3, 2⟩ ∧ lineAt? 4 "a\r\n\réb\n".toList = none := by
  obtain ⟨-, hshows, hnone, -⟩ :=
    excerpt_shows_character "a\r\n\réb\n" "a" (by decide +kernel)
  obtain ⟨shown, hline, -, -, hcharacter⟩ :=
    hshows [.advance 2, .advance 1, .advance 3] 'b' ['\n'] (by decide +kernel) (by decide)
  exact ⟨⟨shown, hline, hcharacter⟩, by decide +kernel, (hnone 4).2 (by decide +kernel)⟩

end BantamJava
