/-
# Texts joined by a line feed

What stands behind a line feed has no influence on how the text in front of it is cut
into lexemes, unless a block comment is open there. No word, number, operator or string
constant reaches over a line feed, and no line comment does. A run of blanks does, but
then it does not matter where it is cut, since blanks yield nothing. So the items of two
texts that are joined by a line feed are those of the first, followed by those of the
second, which stand as many lines further down as there are line breaks before them.

Key definitions: `itemsAt`, `Reader.stream`, `Position.down`.
Key theorems: `itemsAt_blank`, `cutFrom_append_feed`, `itemsAt_append_feed`,
`itemsAt_down`, `Reader.next_afterCalls`, `Reader.line_le_of_mem_stream`,
`stream_of_joined_lines`.
-/
import Mathlib.Data.List.Find
import BantamJava.Proofs.LexicalFaults
import BantamJava.Proofs.LineBreaks
import BantamJava.Proofs.Relocation.Basic
import BantamJava.Proofs.Tiling

namespace BantamJava

open Placed (relocate)

/-! ### The items of a text from a place on -/

/-- The items of a text that starts at a place. -/
def itemsAt (p : Place) (text : List Char) : List Item :=
  (⟨text, p, 0, unnamedSource⟩ : Reader).items

theorem tiles_itemsAt (p : Place) (text : List Char) :
    ∃ ls, Tiles p text ls (itemsAt p text) :=
  (⟨text, p, 0, unnamedSource⟩ : Reader).tiles_items

theorem Reader.items_eq (r : Reader) : r.items = itemsAt r.place r.rest := by
  obtain ⟨ls, htiles⟩ := r.tiles_items
  obtain ⟨ls', htiles'⟩ := tiles_itemsAt r.place r.rest
  exact (htiles'.unique htiles).2

@[simp] theorem itemsAt_nil (p : Place) : itemsAt p [] = [] := by
  rw [itemsAt, Reader.items]
  rfl

/-- The items of a text are those of its first lexeme, followed by those of the rest. -/
theorem itemsAt_cut {text : List Char} {l : Lexeme} {rest : List Char}
    (h : cut text = some (l, rest)) (p : Place) :
    itemsAt p text = (l.item? p.position).toList ++ itemsAt (p.after l.chars) rest := by
  rw [itemsAt, Reader.items]
  split
  · next hnone => cases h.symm.trans hnone
  · next l' rest' hsome =>
    cases h.symm.trans hsome
    rw [Reader.items_eq]
    rfl

/-- **A blank at the front yields nothing.** -/
theorem itemsAt_blank {c : Char} (h : isBlank c = true) (p : Place) (cs : List Char) :
    itemsAt p (c :: cs) = itemsAt (p.step c) cs := by
  have hskip (d : Char) (ds : List Char) (q : Place) (hd : isBlank d = true) :
      itemsAt q (d :: ds) =
        itemsAt (q.after (d :: ds.takeWhile isBlank)) (ds.dropWhile isBlank) := by
    have hcut : cut (d :: ds) = some (⟨.blank, d :: ds.takeWhile isBlank⟩, ds.dropWhile isBlank) :=
      congrArg some (cutFrom_of_isBlank ds hd)
    exact itemsAt_cut hcut q
  rw [hskip c cs p h, Place.after_cons]
  cases cs with
  | nil => simp
  | cons d ds =>
    by_cases hd : isBlank d = true
    · rw [hskip d ds _ hd, List.takeWhile_cons_of_pos hd, List.dropWhile_cons_of_pos hd]
    · rw [List.takeWhile_cons_of_neg hd, List.dropWhile_cons_of_neg hd, Place.after_nil]

/-! ### Cutting in front of a line feed -/

/-- A text that does not hold the character `stop` is found at the front of what stands
before that character, or not at all. -/
theorem prefix_append_cons_iff {stop : Char} {xs : List Char} (h : stop ∉ xs)
    (text behind : List Char) : xs <+: text ++ stop :: behind ↔ xs <+: text := by
  constructor
  · intro hxs
    rcases List.prefix_or_prefix_of_prefix hxs (List.prefix_append text _) with hshort | ⟨us, rfl⟩
    · exact hshort
    · cases us with
      | nil => simp
      | cons u us =>
        have hu : u = stop :=
          (List.cons_prefix_cons.1 ((List.prefix_append_right_inj text).1 hxs)).1
        simp [hu] at h
  · exact fun hxs => hxs.trans (List.prefix_append _ _)

section Feed

variable (behind : List Char)

theorem cutRun_append_feed {within : Char → Bool} (h : within '\n' = false) (shape : Shape)
    (c : Char) (cs : List Char) :
    cutRun shape within c (cs ++ '\n' :: behind) =
      ((cutRun shape within c cs).1, (cutRun shape within c cs).2 ++ '\n' :: behind) := by
  have hmax := maximal_takeWhile within cs
  have hstops : ∀ d ∈ (cs.dropWhile within ++ '\n' :: behind).head?, within d = false := by
    intro d hd
    cases hrest : cs.dropWhile within with
    | nil =>
      obtain rfl : '\n' = d := by simpa [hrest] using hd
      exact h
    | cons e es => exact hmax.stops d (by simpa [hrest] using hd)
  have hrun := Maximal.cutRun ⟨hmax.all, hstops⟩ shape c
  rwa [← List.append_assoc, List.takeWhile_append_dropWhile] at hrun

theorem LiteralBody.feed_not_mem {body : List Char} (h : LiteralBody body) : '\n' ∉ body := by
  induction h with
  | nil => simp
  | plain _ _ hline _ ih =>
    have hc := (staysOnLine_iff.1 hline).2
    simp [ih, hc.symm]
  | escape hfeed _ ih => simp [ih, hfeed.symm]

/-- A string constant that is not closed before a line feed is not closed at all. -/
theorem closeLiteral_append_feed (cs : List Char) :
    closeLiteral (cs ++ '\n' :: behind) =
      (closeLiteral cs).map fun halves => (halves.1, halves.2 ++ '\n' :: behind) := by
  cases hclose : closeLiteral cs with
  | some halves =>
    obtain ⟨body, hbody, hclosed, hcs⟩ := closeLiteral_eq_some_iff.1 hclose
    refine closeLiteral_eq_some_iff.2 ⟨body, hbody, hclosed, ?_⟩
    rw [hcs, List.append_assoc]
  | none =>
    cases hlong : closeLiteral (cs ++ '\n' :: behind) with
    | none => rfl
    | some halves =>
      obtain ⟨closed, rest⟩ := halves
      obtain ⟨body, hbody, hclosed, hcs⟩ := closeLiteral_eq_some_iff.1 hlong
      have hfeed : '\n' ∉ closed := by simp [hclosed, hbody.feed_not_mem]
      have hprefix : closed <+: cs ++ '\n' :: behind := ⟨rest, hcs.symm⟩
      obtain ⟨rest', hcs'⟩ := (prefix_append_cons_iff hfeed cs behind).1 hprefix
      have hsome := closeLiteral_eq_some_iff.2 ⟨body, hbody, hclosed, hcs'.symm⟩
      rw [hclose] at hsome
      cases hsome

theorem cutLiteral_append_feed (cs : List Char) :
    cutLiteral (cs ++ '\n' :: behind) =
      ((cutLiteral cs).1, (cutLiteral cs).2 ++ '\n' :: behind) := by
  unfold cutLiteral
  rw [closeLiteral_append_feed]
  cases closeLiteral cs with
  | none => exact cutRun_append_feed behind (by decide) _ _ _
  | some halves => rfl

theorem cutComment_append_feed {cs : List Char} (h : (cutComment cs).1.shape ≠ .openComment) :
    cutComment (cs ++ '\n' :: behind) =
      ((cutComment cs).1, (cutComment cs).2 ++ '\n' :: behind) := by
  unfold cutComment at h ⊢
  cases hclose : closeComment cs with
  | none => simp [hclose] at h
  | some halves =>
    obtain ⟨body, hbody, hclosed, hcs⟩ := closeComment_eq_some_iff.1 hclose
    have hcs' : cs ++ '\n' :: behind = halves.1 ++ (halves.2 ++ '\n' :: behind) := by
      rw [hcs, List.append_assoc]
    rw [closeComment_eq_some_iff.2 ⟨body, hbody, hclosed, hcs'⟩]

theorem operators_without_feed : ∀ o ∈ operators, '\n' ∉ o.1 := by
  decide

theorem find?_operators_append_feed (text : List Char) :
    (operators.find? fun o => o.1.isPrefixOf (text ++ '\n' :: behind)) =
      operators.find? fun o => o.1.isPrefixOf text := by
  refine List.find?_congr fun o ho => ?_
  have hiff := prefix_append_cons_iff (operators_without_feed o ho) text behind
  rw [← List.isPrefixOf_iff_prefix, ← List.isPrefixOf_iff_prefix] at hiff
  exact Bool.eq_iff_iff.2 hiff

theorem cutOperator_append_feed (c : Char) (cs : List Char) :
    cutOperator c (cs ++ '\n' :: behind) =
      ((cutOperator c cs).1, (cutOperator c cs).2 ++ '\n' :: behind) := by
  unfold cutOperator
  rw [← List.cons_append, find?_operators_append_feed]
  cases hfind : operators.find? fun o => o.1.isPrefixOf (c :: cs) with
  | none => rfl
  | some o =>
    have hfits := (longest_of_find?_operators hfind).2.1
    simp only [List.drop_append_of_le_length hfits.length_le]

/-- **What is cut off in front of a line feed does not depend on what follows it**, unless
it is a run of blanks or an open comment. -/
theorem cutFrom_append_feed {c : Char} {cs : List Char} (hblank : isBlank c = false)
    (hopen : (cutFrom c cs).1.shape ≠ .openComment) :
    cutFrom c (cs ++ '\n' :: behind) =
      ((cutFrom c cs).1, (cutFrom c cs).2 ++ '\n' :: behind) := by
  by_cases hletter : isLetter c = true
  · rw [cutFrom_of_isLetter _ hletter, cutFrom_of_isLetter _ hletter]
    exact cutRun_append_feed behind (by decide) _ _ _
  by_cases hdigit : isDigit c = true
  · rw [cutFrom_of_isDigit _ hdigit, cutFrom_of_isDigit _ hdigit]
    exact cutRun_append_feed behind (by decide) _ _ _
  by_cases hquote : c = '"'
  · rw [hquote, cutFrom_quote, cutFrom_quote]
    exact cutLiteral_append_feed behind cs
  have hmark : isMark c = true := by simp [isMark, hblank, hletter, hdigit, hquote]
  have hline := prefix_append_cons_iff (by decide : '\n' ∉ ['/', '/']) (c :: cs) behind
  have hblock := prefix_append_cons_iff (by decide : '\n' ∉ ['/', '*']) (c :: cs) behind
  rw [List.cons_append] at hline hblock
  rw [cutFrom_of_isMark cs hmark] at hopen ⊢
  rw [cutFrom_of_isMark _ hmark]
  simp only [hline, hblock]
  split
  · exact cutRun_append_feed behind (by decide) _ _ _
  · split
    · next hline' hblock' =>
      obtain ⟨rest, hrest⟩ := hblock'
      obtain ⟨-, rfl⟩ := List.cons.inj hrest
      rw [if_neg hline', if_pos ⟨rest, hrest⟩] at hopen
      exact cutComment_append_feed behind hopen
    · exact cutOperator_append_feed behind c cs

end Feed

/-! ### The items of joined texts -/

/-- **A text is read apart from what stands behind a line feed**, if no comment is left
open in it. -/
theorem itemsAt_append_feed (p : Place) (text behind : List Char)
    (h : ∀ f ∈ faultsOf (itemsAt p text), f.cause ≠ .unterminatedComment) :
    itemsAt p (text ++ '\n' :: behind) =
      itemsAt p text ++ itemsAt (p.after (text ++ ['\n'])) behind := by
  -- lexeme after lexeme, but a run of blanks character after character
  induction hn : text.length using Nat.strong_induction_on generalizing p text with
  | _ n ih =>
    cases text with
    | nil => rw [List.nil_append, itemsAt_blank (by decide), itemsAt_nil]; rfl
    | cons c cs =>
      by_cases hblank : isBlank c = true
      · rw [itemsAt_blank hblank] at h
        rw [List.cons_append, itemsAt_blank hblank, itemsAt_blank hblank]
        exact ih cs.length (by simp [← hn]) _ cs h rfl
      · obtain ⟨l, rest, hcut⟩ : ∃ l rest, cut (c :: cs) = some (l, rest) := ⟨_, _, rfl⟩
        rw [itemsAt_cut hcut, faultsOf, List.filterMap_append, List.forall_mem_append] at h
        have hfrom : cutFrom c cs = (l, rest) := Option.some.inj hcut
        have hopen : l.shape ≠ .openComment := by
          intro hshape
          have hitem : l.item? p.position = some (.fault ⟨.unterminatedComment, p.position⟩) := by
            simp [Lexeme.item?, hshape]
          rw [hitem] at h
          exact h.1 _ List.mem_cons_self rfl
        have hlong : cut (c :: cs ++ '\n' :: behind) = some (l, rest ++ '\n' :: behind) := by
          have happend := cutFrom_append_feed behind (Bool.eq_false_iff.2 hblank)
            (by rw [hfrom]; exact hopen)
          rw [hfrom] at happend
          exact congrArg some happend
        have hshorter : rest.length < n := hn ▸ length_lt_of_cut hcut
        have hplace : (p.after l.chars).after (rest ++ ['\n']) = p.after (c :: cs ++ ['\n']) := by
          rw [← Place.after_append, ← List.append_assoc, append_of_cut hcut]
        rw [itemsAt_cut hlong, itemsAt_cut hcut, ih rest.length hshorter _ rest h.2 rfl, hplace,
          List.append_assoc]

/-! ### Lines further down -/

/-- The position as many lines further down, in 32 bits. -/
def Position.down (lines : Nat) (p : Position) : Position :=
  { p with line := p.line + .ofNat lines }

/-- The place as many lines further down. -/
def Place.down (lines : Nat) (p : Place) : Place := { p with position := p.position.down lines }

theorem Place.step_down (lines : Nat) (p : Place) (c : Char) :
    (p.down lines).step c = (p.step c).down lines := by
  have hline : p.position.line + .ofNat lines + 1 = p.position.line + 1 + .ofNat lines := by
    ac_rfl
  unfold step down Position.down
  split
  · rw [hline]
  · split
    · cases p.afterReturn with
      | true => rfl
      | false => simp only [Bool.false_eq_true, if_false, hline]
    · rfl

theorem Place.after_down (lines : Nat) (p : Place) (cs : List Char) :
    (p.down lines).after cs = (p.after cs).down lines := by
  induction cs generalizing p with
  | nil => rfl
  | cons c cs ih => rw [after_cons, step_down, ih, after_cons]

theorem Lexeme.item?_relocate (f : Position → Position) (l : Lexeme) (p : Position) :
    l.item? (f p) = relocate f (l.item? p) := by
  unfold item?
  cases l.shape <;> rfl

/-- **The items of a text that starts further down stand further down.** -/
theorem itemsAt_down (lines : Nat) (p : Place) (text : List Char) :
    itemsAt (p.down lines) text = relocate (Position.down lines) (itemsAt p text) := by
  induction hn : text.length using Nat.strong_induction_on generalizing p text with
  | _ n ih =>
    cases hcut : cut text with
    | none =>
      rw [eq_nil_of_cut hcut, itemsAt_nil, itemsAt_nil]
      rfl
    | some halves =>
      obtain ⟨l, rest⟩ := halves
      have hshorter : rest.length < n := hn ▸ length_lt_of_cut hcut
      have hitem : l.item? (p.down lines).position =
          relocate (Position.down lines) (l.item? p.position) :=
        l.item?_relocate (Position.down lines) p.position
      rw [itemsAt_cut hcut, itemsAt_cut hcut, Place.after_down, ih rest.length hshorter _ rest rfl,
        hitem, relocate_append, relocate_toList]

/-- Behind a line feed a text starts at the first column, as many lines down as there are
line breaks before it. -/
theorem Place.after_feed (before : List Char) :
    start.after (before ++ ['\n']) = start.down (lineBreaks (before ++ ['\n'])) := by
  rw [after_start, positionBehind, lastLine_concat, Nat.add_comm]
  simp [start, Position.start, down, Position.down, staysOnLine]

/-- The items of a reader, up to and including the end token. -/
def Reader.stream (r : Reader) : List Item := r.items ++ [.token r.finish]

/-- **The stream is what a reader gives call after call**, and all later calls give the end
token again. -/
theorem Reader.next_afterCalls (r : Reader) (n : Nat) :
    (r.afterCalls n).next.1 = r.stream.getD n (.token r.finish) := by
  obtain ⟨ls, htiles⟩ := r.tiles_items
  obtain ⟨hfinish, ahead, -, hahead⟩ := afterCalls_of_tiles n htiles
  rw [(next_of_tiles hahead).1, hfinish, stream, List.headD_eq_head?_getD, List.head?_drop,
    List.getD_eq_getElem?_getD]
  rcases Nat.lt_or_ge n r.items.length with hlt | hge
  · rw [List.getElem?_append_left hlt]
  · rw [List.getElem?_append_right hge, List.getElem?_eq_none hge]
    cases n - r.items.length <;> rfl

theorem Reader.stream_ofText (text file : String) :
    (ofText text file).stream = itemsAt .start text.toList ++
      [.token (.atEnd (Place.start.after text.toList).position)] := by
  rw [stream, items_eq]
  rfl

/-- No item of a text is further down than the text is long. -/
theorem Reader.line_le_of_mem_stream {text file : String} (h : text.length + 1 < UInt32.size)
    {item : Item} (hitem : item ∈ (ofText text file).stream) :
    (Source.itemPosition item).line.toNat ≤ text.length + 1 := by
  rw [← String.length_toList] at h ⊢
  have hbehind : ∃ before, before <+: text.toList ∧
      Source.itemPosition item = positionBehind before := by
    rcases List.mem_append.1 hitem with hitem | hitem
    · obtain ⟨ls, htiles⟩ := (ofText text file).tiles_items
      obtain ⟨before, l, behind, htext, -, hyields⟩ := htiles.exists_of_mem hitem
      refine ⟨before, ⟨l.chars ++ behind, htext.symm⟩, ?_⟩
      rw [hyields.itemPosition]
      exact Place.position_after_start before
    · obtain rfl := List.mem_singleton.1 hitem
      exact ⟨text.toList, List.prefix_refl _, Place.position_after_start _⟩
  obtain ⟨before, hprefix, hposition⟩ := hbehind
  have hlength := hprefix.length_le
  have hbreaks := lineBreaks_add_lastLine_le before
  rw [hposition, line_positionBehind (by omega)]
  omega

theorem Position.line_down {lines : Nat} {p : Position}
    (h : p.line.toNat + lines < UInt32.size) :
    (p.down lines).line.toNat = p.line.toNat + lines := by
  have hlines : (UInt32.ofNat lines).toNat = lines := UInt32.toNat_ofNat_of_lt' (by omega)
  show (p.line + .ofNat lines).toNat = _
  rw [UInt32.toNat_add, hlines]
  exact Nat.mod_eq_of_lt h

/-- **Texts joined by a line feed are read one after the other.** If no comment is left
open in the first, the items are those of the first but for its end token, followed by
those of the second, which stand further down: by the number of line breaks in the first
text and the line feed. Lines are 32 bits wide, and this is how they are added, whatever
the length of the texts; if the joined text is short enough for its end to have a line,
they are added as numbers. -/
theorem stream_of_joined_lines (first second file : String)
    (h : ∀ f ∈ faultsOf (Reader.ofText first file).stream, f.cause ≠ .unterminatedComment) :
    let lines := lineBreaks (first ++ "\n").toList
    let behind := (Reader.ofText second file).stream
    (Reader.ofText (first ++ "\n" ++ second) file).stream =
      (Reader.ofText first file).stream.dropLast ++ relocate (Position.down lines) behind ∧
    ((first ++ "\n" ++ second).length + 1 < UInt32.size → ∀ item ∈ behind,
      ((Source.itemPosition item).down lines).line.toNat =
        (Source.itemPosition item).line.toNat + lines) := by
  intro lines behind
  have htext : (first ++ "\n" ++ second).toList = first.toList ++ '\n' :: second.toList := by
    simp [String.toList_append]
  have hbefore : (first ++ "\n").toList = first.toList ++ ['\n'] := by
    simp [String.toList_append]
  have hplace : Place.start.after (first.toList ++ '\n' :: second.toList) =
      (Place.start.after second.toList).down lines := by
    rw [List.append_cons, Place.after_append, Place.after_feed, Place.after_down, ← hbefore]
  rw [Reader.stream_ofText, faultsOf, List.filterMap_append, List.forall_mem_append] at h
  constructor
  · have hitems := itemsAt_append_feed .start first.toList second.toList h.1
    rw [Place.after_feed, itemsAt_down, ← hbefore] at hitems
    rw [Reader.stream_ofText, Reader.stream_ofText, htext, List.dropLast_concat, hitems, hplace]
    show _ = _ ++ relocate (Position.down lines) (Reader.ofText second file).stream
    rw [Reader.stream_ofText, relocate_append, List.append_assoc]
    rfl
  · intro hshort item hitem
    have hlines := lineBreaks_add_lastLine_le (first ++ "\n").toList
    simp only [String.length_append, String.length_toList] at hshort hlines
    have hline := Reader.line_le_of_mem_stream (by omega) hitem
    exact Position.line_down (by show _ + lineBreaks (first ++ "\n").toList < _; omega)

/-- A string constant that is left open in front of a carriage return stays open, and the
carriage return and the line feed are one line break. -/
theorem stream_of_joined_lines_open_literal :
    lineBreaks ("x \"a\\\r" ++ "\n").toList = 1 ∧
      (Reader.ofText ("x \"a\\\r" ++ "\n" ++ "\" y") "a").stream =
        (Reader.ofText "x \"a\\\r" "a").stream.dropLast ++
          relocate (Position.down (lineBreaks ("x \"a\\\r" ++ "\n").toList))
            (Reader.ofText "\" y" "a").stream ∧
      ∀ item ∈ (Reader.ofText "\" y" "a").stream,
        ((Source.itemPosition item).down 1).line.toNat =
          (Source.itemPosition item).line.toNat + 1 := by
  have hlines : lineBreaks ("x \"a\\\r" ++ "\n").toList = 1 := by decide +kernel
  obtain ⟨hstream, hexact⟩ := stream_of_joined_lines "x \"a\\\r" "\" y" "a" (by decide +kernel)
  rw [hlines] at hexact
  exact ⟨hlines, hstream, hexact (by decide +kernel)⟩

end BantamJava
