/-
# The caret stands under the lexeme at fault

Every fault of a parse is about an item of the text, a token or a lexeme that yields
none, or it stands at the end of the text. That is carried through the run of the parser
step by step: the current token and all to come are items of the source
(`Cursor.Within`), and a fault is reported at the current token, right behind a number,
or because it is an item (`Course.accounts`). An item is yielded by a lexeme of the text
and has the position of that lexeme (`Tiles.exists_of_mem`).

A lexeme that yields an item does not start with a blank. So on its line it stands
behind the indentation, and what is trimmed from the end of the line stands behind it:
in the line as it is shown its first character has moved to the left by the width of the
indentation, and that is how far to the left the arrow is moved.

Key definitions: `Item.Blamed`, `Cursor.Within`, `Diagnostic.shownLine`,
`Diagnostic.arrowLine`.
Key theorems: `Course.accounts`, `Diagnostic.toList_excerpt`,
`Diagnostic.arrowLine_caret_iff`, `Diagnostic.shownLine_at_caret`, `caret_points_at_lexeme`.
-/
import BantamJava.Proofs.SourceOrder
import BantamJava.Proofs.TextLines

namespace BantamJava

/-! ### What a fault is about -/

/-- The fault is about the item: it is the item, or it was raised at the token that the
item is, or this is a number and the fault says that it is out of range. -/
inductive Item.Blamed : Item → Fault → Prop where
  | lexeme (f : Fault) : Blamed (.fault f) f
  | token (t : Token) {cause : String → Cause} (hs : Spelling cause) :
      Blamed (.token t) ⟨cause t.value, t.position⟩
  | number {t : Token} (h : t.OutOfRange) : Blamed (.token t) t.numberFault

theorem Item.Blamed.position {item : Item} {f : Fault} (h : item.Blamed f) :
    f.position = Source.itemPosition item := by
  cases h <;> rfl

/-- The fault stands at the end of the source, or is about an item of it. -/
def Source.Accounts (s : Source) (f : Fault) : Prop :=
  f.position = s.finish.token.position ∨ ∃ item ∈ s.items, item.Blamed f

/-- What the cursor holds are items of the source, and its end token. -/
structure Cursor.Within (s : Source) (c : Cursor) : Prop where
  finish : c.finish = s.finish
  current : c.current = s.finish.token ∨ .token c.current ∈ s.items
  rest : c.rest ⊆ s.items

theorem Cursor.within_pull {s : Source} {items : List Item} (h : items ⊆ s.items) (n : Nat) :
    (⟨(pull s.finish items).1, (pull s.finish items).2.1, s.finish, n⟩ : Cursor).Within s ∧
      ∀ f ∈ faultsIn (pull s.finish items).2.2, .fault f ∈ s.items := by
  generalize htaken : pull s.finish items = taken
  have hpull := pull_items s.finish items
  simp only [htaken] at hpull
  have hfaults : ∀ f ∈ faultsIn taken.2.2, Item.fault f ∈ items := by
    intro f hf
    have hmem := List.mem_map_of_mem (f := Item.fault) hf
    rcases hpull with hitems | ⟨hitems, -, -⟩
    · rw [hitems]
      exact List.mem_append_left _ hmem
    · rw [hitems]
      exact hmem
  refine ⟨⟨rfl, ?_, ?_⟩, fun f hf => h (hfaults f hf)⟩
  · rcases hpull with hitems | ⟨-, htoken, -⟩
    · right
      apply h
      rw [hitems]
      exact List.mem_append_right _ List.mem_cons_self
    · exact .inl htoken
  · rcases hpull with hitems | ⟨-, -, hrest⟩
    · intro item hitem
      apply h
      rw [hitems]
      exact List.mem_append_right _ (List.mem_cons_of_mem _ hitem)
    · rw [hrest]
      exact List.nil_subset _

namespace Cursor.Within

variable {s : Source} {c : Cursor}

theorem advance (h : c.Within s) (hk : c.current.kind ≠ .endOfInput) :
    c.advance.1.Within s ∧ ∀ f ∈ faultsIn c.advance.2, .fault f ∈ s.items := by
  have hfaults : faultsIn c.advance.2 = faultsIn (pull s.finish c.rest).2.2 := by
    simp [Cursor.advance, hk, h.finish, Event.fault?]
  have hcursor : c.advance.1 = ⟨(pull s.finish c.rest).1, (pull s.finish c.rest).2.1, s.finish,
      c.consumed + 1⟩ := by
    simp [Cursor.advance, hk, h.finish]
  rw [hfaults, hcursor]
  exact within_pull h.rest (c.consumed + 1)

theorem accounts_here (h : c.Within s) {cause : String → Cause} (hs : Spelling cause) :
    s.Accounts ⟨cause c.current.value, c.current.position⟩ := by
  rcases h.current with hend | hitem
  · left
    rw [hend]
  · exact .inr ⟨_, hitem, .token _ hs⟩

theorem accounts_number (h : c.Within s) (hn : c.current.OutOfRange) :
    s.Accounts c.current.numberFault := by
  rcases h.current with hend | hitem
  · left
    rw [hend]
    rfl
  · exact .inr ⟨_, hitem, .number hn⟩

end Cursor.Within

/-- **What a run reports is about items of the source**, or stands at its end. -/
theorem Course.accounts {s : Source} {c d : Cursor} {es : List Event} (h : Course c es d)
    (hc : c.Within s) : d.Within s ∧ ∀ f ∈ faultsIn es, s.Accounts f := by
  induction h with
  | start => exact ⟨hc, nofun⟩
  | note _ _ hf ih =>
    refine ⟨ih.1, ?_⟩
    simpa [hf] using ih.2
  | advance _ hk ih =>
    obtain ⟨hwithin, hfaults⟩ := ih.1.advance hk
    refine ⟨hwithin, ?_⟩
    rw [faultsIn_append, List.forall_mem_append]
    exact ⟨ih.2, fun f hf => .inr ⟨_, hfaults f hf, .lexeme f⟩⟩
  | report _ hs ih =>
    refine ⟨ih.1, ?_⟩
    rw [faultsIn_append, List.forall_mem_append]
    refine ⟨ih.2, fun f hf => ?_⟩
    obtain rfl := List.mem_singleton.1 hf
    exact ih.1.accounts_here hs
  | @number _ d _ hn ih =>
    have hk : d.current.kind ≠ .endOfInput := by
      rw [hn.1]
      decide
    obtain ⟨hwithin, hfaults⟩ := ih.1.advance hk
    refine ⟨hwithin, ?_⟩
    rw [faultsIn_append, faultsIn_append, List.forall_mem_append, List.forall_mem_append]
    refine ⟨ih.2, fun f hf => .inr ⟨_, hfaults f hf, .lexeme f⟩, fun f hf => ?_⟩
    obtain rfl := List.mem_singleton.1 hf
    exact ih.1.accounts_number hn

/-- Every diagnostic of a text is about an item of it, or stands at its end. -/
theorem accounts_of_mem_diagnostics {text file : String} {d : Diagnostic}
    (hd : d ∈ (parse text file).diagnostics) : (Source.ofText text file).Accounts d.fault := by
  let s := Source.ofText text file
  let session := Session.start file s
  obtain ⟨cs, hcs⟩ := (Parser.classes_ends session.table session.cursor).1
  have hcourse := Trait.classes_has Trait.course_allows Trait.course_catches session.table
    session.cursor
  obtain ⟨hwithin, hbefore⟩ := Cursor.within_pull (List.Subset.refl s.items) 0
  obtain ⟨-, hrun⟩ := hcourse.1.accounts hwithin
  have hfault : d.fault ∈ session.parse.2.diagnostics.map (·.fault) := List.mem_map_of_mem hd
  rw [Session.faults_parse hcs, List.mem_append] at hfault
  rcases hfault with hjournal | hevents
  · exact .inr ⟨_, hbefore _ hjournal, .lexeme _⟩
  · exact hrun _ hevents

/-! ### The lexeme of an item -/

/-- A fault in front of the end of a text is about a lexeme of it, and stands where that
lexeme starts. -/
theorem exists_lexeme_of_accounts {text file : String} {f : Fault}
    (h : (Source.ofText text file).Accounts f)
    (hend : f.position ≠ (Source.ofText text file).finish.token.position) :
    ∃ (before : List Char) (l : Lexeme) (behind : List Char) (item : Item),
      text.toList = before ++ (l.chars ++ behind) ∧ l.Fits behind ∧
        l.Yields (positionBehind before) [item] ∧ item.Blamed f ∧
        f.position = positionBehind before := by
  obtain ⟨item, hitem, hblamed⟩ := h.resolve_left hend
  obtain ⟨ls, htiles⟩ := (Reader.ofText text file).tiles_items
  obtain ⟨before, l, behind, htext, hfits, hyields⟩ := htiles.exists_of_mem hitem
  have hplace : ((Reader.ofText text file).place.after before).position = positionBehind before :=
    Place.position_after_start before
  rw [hplace] at hyields
  refine ⟨before, l, behind, item, htext, hfits, hyields, hblamed, ?_⟩
  rw [hblamed.position, hyields.itemPosition]

/-! ### The lines of a rendering -/

namespace Diagnostic

/-- The margin of a rendering, which is as wide as the number of the line. -/
def marginLine (p : Position) : List Char :=
  List.replicate ((toString p.line).length + 1) ' ' ++ ['|']

/-- The line with the number, and the source line without its indentation and the blanks
at its end. -/
def shownLine (p : Position) (line : List Char) : List Char :=
  (toString p.line).toList ++ [' ', '|', ' '] ++
    (line.drop (line.takeWhile isIndent).length).rdropWhile isBlank

/-- The line with the arrow, without the caret that ends it. -/
def arrowLine (p : Position) (line : List Char) : List Char :=
  marginLine p ++ ' ' :: List.replicate (arrowWidth p.column.toNat line - 1) '-'

theorem dropWhile_isIndent (line : List Char) :
    line.dropWhile isIndent = line.drop (line.takeWhile isIndent).length := by
  conv => rhs; arg 2; rw [← List.takeWhile_append_dropWhile (p := isIndent) (l := line)]
  exact List.drop_left.symm

theorem toList_excerpt (p : Position) (line : List Char) :
    (excerpt p line).toList = marginLine p ++ '\n' :: (shownLine p line ++
      '\n' :: (arrowLine p line ++ ['^'] ++ ['\n'])) := by
  have htrim : trimEnd (line.dropWhile isIndent) =
      (line.drop (line.takeWhile isIndent).length).rdropWhile isBlank := by
    rw [dropWhile_isIndent]
    rfl
  unfold excerpt arrow
  simp [htrim, marginLine, shownLine, arrowLine]

theorem toList_heading (d : Diagnostic) : ∃ head, d.heading.toList = head ++ ['\n'] := by
  unfold heading
  rw [String.toList_append]
  exact ⟨_, rfl⟩

theorem feed_not_mem_number (n : UInt32) : '\n' ∉ (toString n).toList := by
  intro hmem
  have hmem : '\n' ∈ (toString n.toNat).toList := hmem
  exact absurd (isDigit_of_mem_toString hmem) (by decide)

theorem feed_not_mem_marginLine (p : Position) : '\n' ∉ marginLine p := by
  simp [marginLine]

theorem feed_not_mem_shownLine (p : Position) {line : List Char}
    (h : ∀ c ∈ line, staysOnLine c = true) : '\n' ∉ shownLine p line := by
  unfold shownLine
  rw [List.mem_append, List.mem_append]
  rintro ((hnumber | hmargin) | hline)
  · exact feed_not_mem_number _ hnumber
  · exact absurd hmargin (by decide)
  · have hmem : '\n' ∈ line :=
      List.mem_of_mem_drop ((List.rdropWhile_prefix isBlank _).mem hline)
    exact absurd (h _ hmem) (by decide)

theorem feed_not_mem_arrowLine (p : Position) (line : List Char) :
    '\n' ∉ arrowLine p line ++ ['^'] := by
  simp [arrowLine, marginLine]

/-- The place of the caret on its line, and of what it points at on the line above. -/
def caretIndex (p : Position) (line : List Char) : Nat :=
  (toString p.line).length + 2 + arrowWidth p.column.toNat line

/-- There is one caret on the last line of a rendering. -/
theorem arrowLine_caret_iff (p : Position) (line : List Char) (j : Nat) :
    (arrowLine p line ++ ['^'])[j]? = some '^' ↔ j = caretIndex p line := by
  have hlength : (arrowLine p line).length = caretIndex p line := by
    have hpos : 1 ≤ arrowWidth p.column.toNat line := Nat.le_max_left _ _
    simp only [arrowLine, marginLine, caretIndex, List.length_append, List.length_replicate,
      List.length_cons, List.length_nil]
    omega
  have hnone : '^' ∉ arrowLine p line := by simp [arrowLine, marginLine]
  rw [← hlength]
  constructor
  · intro hj
    rcases Nat.lt_or_ge j (arrowLine p line).length with hlt | hge
    · rw [List.getElem?_append_left hlt] at hj
      exact absurd (List.mem_of_getElem? hj) hnone
    · obtain ⟨hbound, -⟩ := List.getElem?_eq_some_iff.1 hj
      rw [List.length_append, List.length_singleton] at hbound
      omega
  · rintro rfl
    rw [List.getElem?_append_right (Nat.le_refl _), Nat.sub_self]
    rfl

/-! ### What the caret points at -/

theorem isIndent_of_isBlank {c : Char} (h : isBlank c = false) : isIndent c = false := by
  cases hi : isIndent c with
  | false => rfl
  | true =>
    have hc : c = ' ' ∨ c = '\t' := by simpa [isIndent] using hi
    rcases hc with rfl | rfl
    · exact absurd h (by decide)
    · exact absurd h (by decide)

/-- The indentation of a line ends in front of every character that is not blank. -/
theorem length_takeWhile_isIndent_le {c : Char} (hc : isBlank c = false) (xs ys : List Char) :
    ((xs ++ c :: ys).takeWhile isIndent).length ≤ xs.length := by
  rw [List.takeWhile_append]
  split
  · rw [List.takeWhile_cons_of_neg (by simp [isIndent_of_isBlank hc]), List.append_nil]
  · exact (List.takeWhile_sublist isIndent).length_le

/-- Blanks are dropped from the end of a line only up to a character that is not blank. -/
theorem rdropWhile_isBlank_append {c : Char} (hc : isBlank c = false) (xs ys : List Char) :
    (xs ++ c :: ys).rdropWhile isBlank = xs ++ c :: ys.rdropWhile isBlank := by
  have hcons : (c :: xs.reverse).dropWhile isBlank = c :: xs.reverse :=
    List.dropWhile_cons_of_neg (by simp [hc])
  unfold List.rdropWhile
  rw [List.reverse_append, List.reverse_cons, List.append_assoc, List.singleton_append,
    List.dropWhile_append]
  split
  · next hnil =>
    rw [List.isEmpty_iff] at hnil
    rw [hcons, hnil]
    simp
  · simp

/-- **The caret points at the character whose column it was given**, if that is not a
blank. -/
theorem shownLine_at_caret {p : Position} {c : Char} (hc : isBlank c = false)
    {xs ys : List Char} (hcolumn : p.column.toNat = xs.length + 1) :
    (shownLine p (xs ++ c :: ys))[caretIndex p (xs ++ c :: ys)]? = some c := by
  have hle := length_takeWhile_isIndent_le hc xs ys
  unfold shownLine caretIndex arrowWidth
  generalize ((xs ++ c :: ys).takeWhile isIndent).length = w at hle ⊢
  have hindex : (toString p.line).length + 2 + max 1 (p.column.toNat - w) =
      ((toString p.line).toList ++ [' ', '|', ' ']).length + (xs.drop w).length := by
    simp only [List.length_append, String.length_toList, List.length_drop, List.length_cons,
      List.length_nil]
    omega
  rw [List.drop_append_of_le_length hle, rdropWhile_isBlank_append hc, hindex,
    List.getElem?_append_right (Nat.le_add_right _ _), Nat.add_sub_cancel_left,
    List.getElem?_append_right (Nat.le_refl _), Nat.sub_self]
  rfl

theorem render?_eq_of_lineAt? {d : Diagnostic} {source : String} {line : List Char}
    (h : lineAt? d.fault.position.line.toNat source.toList = some line) :
    d.render? source =
      if arrowWidth d.fault.position.column.toNat line ≤ maxArrow then
        some (d.heading ++ excerpt d.fault.position line)
      else none := by
  simp only [render?, h]

theorem render?_eq_none_iff {d : Diagnostic} {source : String} {line : List Char}
    (h : lineAt? d.fault.position.line.toNat source.toList = some line) :
    d.render? source = none ↔
      65535 < d.fault.position.column.toNat - (line.takeWhile isIndent).length := by
  rw [render?_eq_of_lineAt? h, ite_eq_right_iff]
  simp only [reduceCtorEq, imp_false, arrowWidth, maxArrow]
  omega

end Diagnostic

open Diagnostic

/-- **The caret points at the lexeme at fault.** A diagnostic of a text that does not stand
at its end is about a lexeme of the text, the one of the token at fault or of the
characters that make no token, and stands where that lexeme starts. Its source line is
what stands around the start of the lexeme between two line breaks. The diagnostic has no
rendering exactly if its column is more than 65535 behind the indentation of the line.
Otherwise the rendering ends with three lines, of which the second one shows the number
and the source line, without its indentation and the blanks at its end, and the third one
has a single caret, below the first character of the lexeme. -/
theorem caret_points_at_lexeme (text file : String) (hlength : text.length < UInt32.size)
    (d : Diagnostic) (hd : d ∈ (parse text file).diagnostics)
    (hend : d.fault.position ≠ (Source.ofText text file).finish.token.position) :
    ∃ (before : List Char) (l : Lexeme) (behind : List Char) (item : Item),
      text.toList = before ++ (l.chars ++ behind) ∧ l.Fits behind ∧
      l.Yields (positionBehind before) [item] ∧ item.Blamed d.fault ∧
      d.fault.position = positionBehind before ∧
      let line := lastLine before ++ (l.chars ++ behind).takeWhile staysOnLine
      let indent := (line.takeWhile fun c => c == ' ' || c == '\t').length
      (d.render? text = none ↔ 65535 < d.fault.position.column.toNat - indent) ∧
      ∀ out, d.render? text = some out →
        ∃ head top middle bottom : List Char,
          out.toList = head ++ '\n' :: (top ++ '\n' :: (middle ++ '\n' :: (bottom ++ ['\n']))) ∧
          '\n' ∉ top ∧ '\n' ∉ middle ∧ '\n' ∉ bottom ∧
          middle = (toString d.fault.position.line).toList ++ [' ', '|', ' '] ++
            (line.drop indent).rdropWhile isBlank ∧
          ∃ i : Nat, (∀ j : Nat, bottom[j]? = some '^' ↔ j = i) ∧ middle[i]? = l.chars.head? := by
  obtain ⟨before, l, behind, item, htext, hfits, hyields, hblamed, hposition⟩ :=
    exists_lexeme_of_accounts (accounts_of_mem_diagnostics hd) hend
  refine ⟨before, l, behind, item, htext, hfits, hyields, hblamed, hposition, ?_⟩
  obtain ⟨c, cs, hchars, hblank⟩ := hfits.starts_visible hyields
  have hstays := staysOnLine_of_isBlank hblank
  have hshort : before.length + 1 < UInt32.size := by
    have hle := congrArg List.length htext
    simp only [hchars, String.length_toList, List.length_append, List.length_cons] at hle
    omega
  have hline : lineAt? d.fault.position.line.toNat text.toList =
      some (lastLine before ++ c :: (cs ++ behind).takeWhile staysOnLine) := by
    rw [hposition, line_positionBehind hshort, htext, hchars]
    exact lineAt?_of_split hstays before (cs ++ behind)
  have haround : (l.chars ++ behind).takeWhile staysOnLine =
      c :: (cs ++ behind).takeWhile staysOnLine := by
    rw [hchars, List.cons_append, List.takeWhile_cons_of_pos hstays]
  have hcolumn : d.fault.position.column.toNat = (lastLine before).length + 1 := by
    rw [hposition, column_positionBehind hshort]
  intro line indent
  have hshown : line = lastLine before ++ c :: (cs ++ behind).takeWhile staysOnLine := by
    show _ ++ _ = _
    rw [haround]
  rw [← hshown] at hline
  refine ⟨render?_eq_none_iff hline, fun out hout => ?_⟩
  rw [render?_eq_of_lineAt? hline] at hout
  split at hout
  · obtain rfl := Option.some.inj hout
    obtain ⟨head, hhead⟩ := toList_heading d
    have honline : ∀ e ∈ line, staysOnLine e = true := by
      rw [hshown, List.forall_mem_append, List.forall_mem_cons]
      exact ⟨fun e => List.mem_rtakeWhile_imp, hstays, fun e => List.mem_takeWhile_imp⟩
    refine ⟨head, marginLine d.fault.position, shownLine d.fault.position line,
      arrowLine d.fault.position line ++ ['^'], ?_, feed_not_mem_marginLine _,
      feed_not_mem_shownLine _ honline, feed_not_mem_arrowLine _ _, rfl,
      caretIndex d.fault.position line, arrowLine_caret_iff _ _, ?_⟩
    · rw [String.toList_append, hhead, toList_excerpt, List.append_assoc]
      rfl
    · rw [hchars, hshown]
      exact shownLine_at_caret hblank hcolumn
  · cases hout

/-- A stray character on an indented line between two line breaks. -/
theorem caret_points_at_lexeme_indented :
    let text := "class A \x7b\r\n\t  int x = 1 # ;\r\n\x7d"
    let d : Diagnostic := ⟨.lexical, "a", ⟨.unrecognised "#", ⟨2, 14⟩⟩⟩
    let out := "Error: UnrecognisedToken\n-> a:2:14\n  |\n2 | int x = 1 # ;\n  | ----------^\n"
    d ∈ (parse text "a").diagnostics ∧ d.render? text = some out ∧
    ∃ (before : List Char) (l : Lexeme) (behind : List Char),
      text.toList = before ++ (l.chars ++ behind) ∧ positionBehind before = ⟨2, 14⟩ ∧
      ∃ (head top middle bottom : List Char) (i : Nat),
        out.toList = head ++ '\n' :: (top ++ '\n' :: (middle ++ '\n' :: (bottom ++ ['\n']))) ∧
        bottom[i]? = some '^' ∧ middle[i]? = l.chars.head? := by
  intro text d out
  have hd : d ∈ (parse text "a").diagnostics := by decide +kernel
  have hrender : d.render? text = some out := by decide +kernel
  have hend : d.fault.position ≠ (Source.ofText text "a").finish.token.position := by
    decide +kernel
  obtain ⟨before, l, behind, -, htext, -, -, -, hposition, -, hlines⟩ :=
    caret_points_at_lexeme text "a" (by decide +kernel) d hd hend
  obtain ⟨head, top, middle, bottom, hout, -, -, -, -, i, hcaret, hshown⟩ := hlines out hrender
  exact ⟨hd, hrender, before, l, behind, htext, hposition.symm, head, top, middle, bottom, i,
    hout, (hcaret i).2 rfl, hshown⟩

end BantamJava
