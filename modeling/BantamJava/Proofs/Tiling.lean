/-
# A text is tiled by its lexemes

Every text can be cut into lexemes of the lexical grammar, one after another, in
exactly one way. A reader that is asked for one item after another goes along these
lexemes: it gives what each of them yields, a token or a fault for some and nothing
for blanks and comments, in their order and at their places, and then the end token
for ever.

Key definitions: `Lexeme.Yields`, `Tiles`, `Reader.afterCalls`.
Key theorems: `Lexeme.Fits.yields`, `Tiles.unique`, `Reader.tiles_items`,
`Reader.next_of_tiles`, `Reader.afterCalls_of_tiles`, `text_is_tiled`.
-/
import BantamJava.Proofs.Acceptance
import BantamJava.Proofs.LexicalGrammar

namespace BantamJava

/-! ### What a lexeme yields -/

/-- The items that a lexeme yields at a position: none if it is skipped, otherwise one
token or one fault. -/
inductive Lexeme.Yields (p : Position) : Lexeme → List Item → Prop where
  | blank (chars : List Char) : Yields p ⟨.blank, chars⟩ []
  | lineComment (chars : List Char) : Yields p ⟨.lineComment, chars⟩ []
  | blockComment (chars : List Char) : Yields p ⟨.blockComment, chars⟩ []
  | reserved {chars : List Char} {kind : Kind}
      (h : (String.ofList chars, kind) ∈ reservedWords) :
      Yields p ⟨.word, chars⟩ [.token ⟨kind, String.ofList chars, p⟩]
  | identifier {chars : List Char} (h : ∀ kind, (String.ofList chars, kind) ∉ reservedWords) :
      Yields p ⟨.word, chars⟩ [.token ⟨.identifier, String.ofList chars, p⟩]
  | number (chars : List Char) :
      Yields p ⟨.number, chars⟩ [.token ⟨.number, String.ofList chars, p⟩]
  | literal (body : List Char) :
      Yields p ⟨.literal, '"' :: (body ++ ['"'])⟩
        [.token ⟨.string, String.ofList (unescape body), p⟩]
  | operator (kind : Kind) (chars : List Char) :
      Yields p ⟨.operator kind, chars⟩ [.token ⟨kind, String.ofList chars, p⟩]
  | openComment (chars : List Char) :
      Yields p ⟨.openComment, chars⟩ [.fault ⟨.unterminatedComment, p⟩]
  | openLiteral (chars : List Char) :
      Yields p ⟨.openLiteral, chars⟩ [.fault ⟨.unterminatedString (String.ofList chars), p⟩]
  | stray (chars : List Char) :
      Yields p ⟨.stray, chars⟩ [.fault ⟨.unrecognised (String.ofList chars), p⟩]

theorem reservedKind?_of_mem : ∀ r ∈ reservedWords, reservedKind? r.1 = some r.2 := by
  decide

theorem mem_of_reservedKind? {word : String} {kind : Kind} (h : reservedKind? word = some kind) :
    (word, kind) ∈ reservedWords := by
  obtain ⟨before, behind, hsplit, -⟩ := List.lookup_eq_some_iff.1 h
  rw [hsplit]
  exact List.mem_append_right _ List.mem_cons_self

namespace Lexeme

theorem Yields.eq_item? {p : Position} {l : Lexeme} {items : List Item} (h : l.Yields p items) :
    items = (l.item? p).toList := by
  cases h with
  | reserved h =>
    simp only [item?, wordKind, reservedKind?_of_mem _ h]
    rfl
  | @identifier chars h =>
    have hnone : reservedKind? (String.ofList chars) = none := by
      cases hk : reservedKind? (String.ofList chars) with
      | none => rfl
      | some kind => exact absurd (mem_of_reservedKind? hk) (h kind)
    simp only [item?, wordKind, hnone]
    rfl
  | literal body =>
    simp only [item?, List.tail_cons, List.dropLast_concat]
    rfl
  | _ => rfl

theorem yields_word (p : Position) (chars : List Char) :
    Yields p ⟨.word, chars⟩ [.token ⟨wordKind (String.ofList chars), String.ofList chars, p⟩] := by
  cases hk : reservedKind? (String.ofList chars) with
  | some kind =>
    rw [wordKind, hk]
    exact .reserved (mem_of_reservedKind? hk)
  | none =>
    rw [wordKind, hk]
    refine .identifier fun kind hmem => ?_
    have hsome := reservedKind?_of_mem _ hmem
    rw [hk] at hsome
    cases hsome

/-- **A lexeme of the grammar yields its item**, or nothing if it has none. -/
theorem Fits.yields {l : Lexeme} {rest : List Char} (h : l.Fits rest) (p : Position) :
    l.Yields p (l.item? p).toList := by
  rcases h with hregular | ⟨c, rfl, -⟩
  · cases hregular with
    | word => exact yields_word p _
    | @literal body _ _ =>
      have hbody : ('"' :: (body ++ ['"'])).tail.dropLast = body := List.dropLast_concat
      unfold item?
      rw [hbody]
      exact .literal body
    | blank => exact .blank _
    | lineComment => exact .lineComment _
    | blockComment => exact .blockComment _
    | openComment => exact .openComment _
    | number => exact .number _
    | openLiteral => exact .openLiteral _
    | operator => exact .operator _ _
  · exact .stray _

theorem itemPosition_of_item? {l : Lexeme} {p : Position} {item : Item}
    (h : l.item? p = some item) : Source.itemPosition item = p := by
  unfold item? at h
  split at h <;> cases h <;> rfl

theorem Yields.itemPosition {l : Lexeme} {p : Position} {item : Item}
    (h : l.Yields p [item]) : Source.itemPosition item = p := by
  have hitem : l.item? p = some item := by
    cases hi : l.item? p with
    | none => simpa [hi] using h.eq_item?
    | some other => simpa [hi, eq_comm] using h.eq_item?
  exact itemPosition_of_item? hitem

theorem Fits.ne_nil {l : Lexeme} {rest : List Char} (h : l.Fits rest) : l.chars ≠ [] :=
  ne_nil_of_cut (cut_eq_some_iff.2 ⟨rfl, h⟩)

end Lexeme

/-! ### Tilings -/

/-- The text from a place on is made of these lexemes, which yield these items. -/
inductive Tiles : Place → List Char → List Lexeme → List Item → Prop where
  | nil (p : Place) : Tiles p [] [] []
  | cons {p : Place} {l : Lexeme} {rest : List Char} {ls : List Lexeme} {here items : List Item}
      (hfits : l.Fits rest) (hyields : l.Yields p.position here)
      (hrest : Tiles (p.after l.chars) rest ls items) :
      Tiles p (l.chars ++ rest) (l :: ls) (here ++ items)

namespace Tiles

variable {p : Place} {text : List Char} {ls : List Lexeme} {items : List Item}

theorem flatMap_chars (h : Tiles p text ls items) : ls.flatMap (·.chars) = text := by
  induction h with
  | nil => rfl
  | cons _ _ _ ih => rw [List.flatMap_cons, ih]

theorem ne_nil (h : Tiles p text ls items) : ∀ l ∈ ls, l.chars ≠ [] := by
  induction h with
  | nil => exact fun l hl => absurd hl List.not_mem_nil
  | cons hfits _ _ ih => exact List.forall_mem_cons.2 ⟨hfits.ne_nil, ih⟩

theorem of_nil (h : Tiles p [] ls items) : ls = [] ∧ items = [] := by
  generalize htext : ([] : List Char) = text at h
  cases h with
  | nil => exact ⟨rfl, rfl⟩
  | cons hfits _ _ => exact absurd (List.append_eq_nil_iff.1 htext.symm).1 hfits.ne_nil

/-- A tiling starts with the lexeme that is cut off. -/
theorem of_cut {l : Lexeme} {rest : List Char} (hcut : cut text = some (l, rest))
    (h : Tiles p text ls items) :
    ∃ ls' items', ls = l :: ls' ∧ items = (l.item? p.position).toList ++ items' ∧
      Tiles (p.after l.chars) rest ls' items' := by
  cases h with
  | nil => cases hcut
  | cons hfits hyields hrest =>
    have hcut' := cut_eq_some_iff.2 ⟨rfl, hfits⟩
    rw [hcut] at hcut'
    cases hcut'
    exact ⟨_, _, rfl, by rw [hyields.eq_item?], hrest⟩

/-- **There is one tiling of a text**, since there is one lexeme that fits at its front. -/
theorem unique {ls' : List Lexeme} {items' : List Item} (h : Tiles p text ls items)
    (h' : Tiles p text ls' items') : ls' = ls ∧ items' = items := by
  induction h generalizing ls' items' with
  | nil p => exact h'.of_nil
  | cons hfits hyields _ ih =>
    obtain ⟨ls'', items'', rfl, rfl, hrest'⟩ := h'.of_cut (cut_eq_some_iff.2 ⟨rfl, hfits⟩)
    obtain ⟨rfl, rfl⟩ := ih hrest'
    rw [hyields.eq_item?]
    exact ⟨rfl, rfl⟩

/-- **Every item of a text is yielded by a lexeme in it**, at the place behind what comes
before that lexeme. -/
theorem exists_of_mem (h : Tiles p text ls items) {item : Item} (hitem : item ∈ items) :
    ∃ (before : List Char) (l : Lexeme) (behind : List Char),
      text = before ++ (l.chars ++ behind) ∧ l.Fits behind ∧
        l.Yields (p.after before).position [item] := by
  induction h with
  | nil => cases hitem
  | @cons p l rest _ here items hfits hyields _ ih =>
    rcases List.mem_append.1 hitem with hhere | hrest
    · have hsingle : here = [item] := by
        have heq := hyields.eq_item?
        rw [heq, Option.mem_toList] at hhere
        rw [heq, hhere, Option.toList_some]
      rw [hsingle] at hyields
      exact ⟨[], l, rest, rfl, hfits, hyields⟩
    · obtain ⟨before, l', behind, rfl, hfits', hyields'⟩ := ih hrest
      refine ⟨l.chars ++ before, l', behind, ?_, hfits', ?_⟩
      · rw [List.append_assoc]
      · rw [Place.after_append]
        exact hyields'

end Tiles

/-! ### Readers -/

theorem eq_nil_of_cut {text : List Char} (h : cut text = none) : text = [] := by
  cases text with
  | nil => rfl
  | cons c cs => cases h

namespace Reader

theorem finish_pass {r : Reader} {l : Lexeme} {rest : List Char}
    (h : cut r.rest = some (l, rest)) : (r.pass l.chars rest).finish = r.finish := by
  have happend := append_of_cut h
  show Token.atEnd ((r.place.after l.chars).after rest).position = _
  rw [← Place.after_append, happend]
  rfl

/-- **The items of a reader are what the lexemes ahead of it yield.** -/
theorem tiles_items (r : Reader) : ∃ ls, Tiles r.place r.rest ls r.items := by
  fun_induction items r with
  | case1 r hcut =>
    rw [eq_nil_of_cut hcut]
    exact ⟨[], .nil _⟩
  | case2 r l rest hcut ih =>
    obtain ⟨ls, hls⟩ := ih
    obtain ⟨happend, hfits⟩ := cut_eq_some_iff.1 hcut
    rw [happend]
    exact ⟨l :: ls, .cons hfits (hfits.yields r.position) hls⟩

/-- **One call goes to behind the next lexeme that yields an item.** Without one it goes
to the end of the text, and gives the end token. -/
theorem next_of_tiles {r : Reader} {ls : List Lexeme} {items : List Item}
    (h : Tiles r.place r.rest ls items) :
    r.next.1 = items.headD (.token r.finish) ∧ r.next.2.finish = r.finish ∧
      ∃ ahead, ahead <:+ ls ∧ Tiles r.next.2.place r.next.2.rest ahead items.tail := by
  fun_induction next r generalizing ls items with
  | case1 r hcut =>
    have hrest := eq_nil_of_cut hcut
    have hfinish : r.finish = .atEnd r.position := by
      unfold finish
      rw [hrest]
      rfl
    rw [hrest] at h
    obtain ⟨rfl, rfl⟩ := h.of_nil
    refine ⟨by rw [hfinish]; rfl, rfl, [], List.suffix_rfl, ?_⟩
    rw [hrest]
    exact h
  | case2 r l rest hcut item hitem =>
    obtain ⟨ls', items', rfl, rfl, hrest⟩ := h.of_cut hcut
    have hposition : l.item? r.place.position = some item := hitem
    rw [hposition]
    exact ⟨rfl, finish_pass hcut, ls', List.suffix_cons l ls', hrest⟩
  | case3 r l rest hcut hitem ih =>
    obtain ⟨ls', items', rfl, rfl, hrest⟩ := h.of_cut hcut
    have hposition : l.item? r.place.position = none := hitem
    obtain ⟨hreply, hfinish, ahead, hahead, htiles⟩ := ih hrest
    rw [finish_pass hcut] at hreply hfinish
    rw [hposition]
    exact ⟨hreply, hfinish, ahead, hahead.trans (List.suffix_cons l ls'), htiles⟩

/-- The reader after a number of calls for the next item. -/
def afterCalls : Nat → Reader → Reader
  | 0, r => r
  | n + 1, r => afterCalls n r.next.2

/-- **Call after call the reader goes along the lexemes**, and has given the items of
those that it has passed. -/
theorem afterCalls_of_tiles (n : Nat) {r : Reader} {ls : List Lexeme} {items : List Item}
    (h : Tiles r.place r.rest ls items) :
    (r.afterCalls n).finish = r.finish ∧
      ∃ ahead, ahead <:+ ls ∧
        Tiles (r.afterCalls n).place (r.afterCalls n).rest ahead (items.drop n) := by
  induction n generalizing r ls items with
  | zero => exact ⟨rfl, ls, List.suffix_rfl, h⟩
  | succ n ih =>
    obtain ⟨-, hfinish, ahead, hahead, htiles⟩ := next_of_tiles h
    obtain ⟨hfinish', ahead', hahead', htiles'⟩ := ih htiles
    refine ⟨hfinish'.trans hfinish, ahead', hahead'.trans hahead, ?_⟩
    rw [← List.drop_one, List.drop_drop, Nat.add_comm 1 n] at htiles'
    exact htiles'

end Reader

/-- **A text is tiled by its lexemes.** There is one way to cut it into lexemes of the
grammar. They are not empty and make up the text, every one of its characters once. The
items that they yield, none of which is an end token, are what a reader gives call after
call, before it gives the end token for ever; after each call the lexemes still ahead
are the last ones of these, and yield the items still to come. -/
theorem text_is_tiled (text file : String) :
    ∃ lexemes items,
      Tiles .start text.toList lexemes items ∧
      (∀ ls is, Tiles .start text.toList ls is → ls = lexemes ∧ is = items) ∧
      (∀ l ∈ lexemes, l.chars ≠ []) ∧
      lexemes.flatMap (·.chars) = text.toList ∧
      NoEnd items ∧
      ∀ n, let r := (Reader.ofText text file).afterCalls n
        r.next.1 = items.getD n (.token (.atEnd (Place.start.after text.toList).position)) ∧
        ∃ ahead, ahead <:+ lexemes ∧ Tiles r.place r.rest ahead (items.drop n) := by
  obtain ⟨lexemes, hls⟩ := (Reader.ofText text file).tiles_items
  refine ⟨lexemes, _, hls, fun ls is h => hls.unique h, hls.ne_nil, hls.flatMap_chars,
    noEnd_items _, ?_⟩
  intro n r
  obtain ⟨hfinish, ahead, hahead, htiles⟩ := Reader.afterCalls_of_tiles n hls
  refine ⟨?_, ahead, hahead, htiles⟩
  rw [(Reader.next_of_tiles htiles).1, hfinish, List.headD_eq_head?_getD, List.head?_drop,
    List.getD_eq_getElem?_getD]
  rfl

end BantamJava
