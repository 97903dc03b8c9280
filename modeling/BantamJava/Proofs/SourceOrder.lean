/-
# The order of diagnostics

Diagnostics come in the order of the text, but for one exception. The parser holds
one token of lookahead, and what is wrong between two tokens is reported when the
second one is taken. A number that is out of range is found to be so only when it
has been consumed, so it is reported behind what is wrong directly behind it. Every
other fault is raised at the current token, behind which nothing has been reported
yet.

The positions of the items of a text ascend, a run takes its steps as `Course` says,
and each step keeps the faults in order (`InOrder`).

Key definitions: `Ascending`, `Cursor.Along`, `Overtakes`, `InOrder`.
Key theorems: `Reader.ascending_items`, `Course.inOrder`, `parse_in_source_order`,
`parse_number_overtaken`.
-/
import BantamJava.Proofs.ReaderPlace
import BantamJava.Proofs.Trait.Course

namespace BantamJava

/-! ### Items in the order of the text -/

/-- The positions of the items ascend, and none is behind `p`. -/
def Ascending (items : List Item) (p : Position) : Prop :=
  (items.map Source.itemPosition ++ [p]).Pairwise (· ≤ ·)

/-- **The items of a text are in the order of the text**, if it is short enough for its end to
have a position. -/
theorem Reader.ascending_items {text : String} (file : String)
    (h : text.length + 1 < UInt32.size) :
    Ascending (ofText text file).items (ofText text file).finish.position := by
  rw [← String.length_toList] at h
  have hbehind := Behind.ofText text file
  refine List.pairwise_append.2 ⟨?_, List.pairwise_singleton _ _, fun p hp q hq => ?_⟩
  · exact (hbehind.items_ascend (by omega)).imp Position.le_of_lt
  · obtain ⟨item, hitem, rfl⟩ := List.mem_map.1 hp
    obtain rfl := List.mem_singleton.1 hq
    obtain ⟨ahead, -, hstands, -⟩ := hbehind.items_stand hitem
    obtain ⟨rest, hrest⟩ := hstands.begins
    rw [hstands.position, hbehind.finish, ← hrest]
    exact positionBehind_le (hrest ▸ h)

/-! ### Cursors in a source -/

/-- The items of the source are in order, and none is behind its end. -/
def Source.InOrder (s : Source) : Prop := Ascending s.items s.finish.token.position

theorem Source.ofText_inOrder {text : String} (file : String)
    (h : text.length + 1 < UInt32.size) : (Source.ofText text file).InOrder :=
  Reader.ascending_items file h

/-- The cursor is somewhere in the source, or at its end. -/
structure Cursor.Along (s : Source) (c : Cursor) : Prop where
  finish : c.finish = s.finish
  place : c.current.kind ≠ .endOfInput → ∃ before, s.items = before ++ .token c.current :: c.rest
  ascending : Ascending (.token c.current :: c.rest) s.finish.token.position

/-- Taking a token takes the faults in front of it, and leaves what is behind it, or
nothing if there is no token. -/
theorem Cursor.pull_items (finish : EndToken) (items : List Item) :
    let taken := pull finish items
    let fs := faultsIn taken.2.2
    items = fs.map .fault ++ .token taken.1 :: taken.2.1 ∨
      items = fs.map .fault ∧ taken.1 = finish.token ∧ taken.2.1 = [] := by
  induction items with
  | nil => exact .inr ⟨rfl, rfl, rfl⟩
  | cons item items ih =>
    cases item with
    | token t => exact .inl rfl
    | fault f =>
      simp only [pull, faultsIn_cons, Event.fault?, Option.toList_some, List.map_cons,
        List.cons_append, List.cons.injEq, true_and]
      exact ih

theorem itemPositions_faults (fs : List Fault) :
    (fs.map Item.fault).map Source.itemPosition = fs.map Fault.position := by
  rw [List.map_map]
  rfl

/-- The positions of the faults taken and of the token behind them are among those
of the items. -/
theorem Cursor.positions_pull (finish : EndToken) (items : List Item) :
    ((faultsIn (pull finish items).2.2).map Fault.position ++
      [(pull finish items).1.position]).Sublist
      (items.map Source.itemPosition ++ [finish.token.position]) := by
  generalize htaken : pull finish items = taken
  have hpull := pull_items finish items
  simp only [htaken] at hpull
  rcases hpull with h | ⟨h, htoken, -⟩
  · rw [h, List.map_append, itemPositions_faults, List.append_assoc]
    refine List.Sublist.append_left ?_ _
    exact List.Sublist.cons_cons _ (List.nil_sublist _)
  · simp only [h, itemPositions_faults, htoken, List.Sublist.refl]

/-- Behind the items in front of it, a cursor takes a token from the others. -/
theorem Cursor.along_pull {s : Source} {before items : List Item}
    (hs : s.items = before ++ items) (hasc : Ascending items s.finish.token.position) (n : Nat) :
    (⟨(pull s.finish items).1, (pull s.finish items).2.1, s.finish, n⟩ : Cursor).Along s ∧
      ∃ behind, items = (faultsIn (pull s.finish items).2.2).map .fault ++ behind := by
  generalize htaken : pull s.finish items = taken
  have hpull := pull_items s.finish items
  simp only [htaken] at hpull
  rcases hpull with h | ⟨h, htoken, hrest⟩
  · refine ⟨⟨rfl, fun _ => ⟨before ++ (faultsIn taken.2.2).map .fault, ?_⟩, ?_⟩, _, h⟩
    · rw [hs, List.append_assoc, ← h]
    · unfold Ascending at hasc ⊢
      rw [h, List.map_append, List.append_assoc] at hasc
      exact (List.pairwise_append.1 hasc).2.1
  · refine ⟨⟨rfl, fun hk => absurd (htoken ▸ s.finish.isEnd) hk, ?_⟩, [], ?_⟩
    · show ([taken.1.position] ++ taken.2.1.map _ ++ [s.finish.token.position]).Pairwise (· ≤ ·)
      rw [htoken, hrest]
      simp [Position.le_refl]
    · rw [List.append_nil]
      exact h

/-- What lies between a token and the next one: the faults there, in order. -/
theorem Cursor.Along.advance {s : Source} {c : Cursor} (h : c.Along s)
    (hk : c.current.kind ≠ .endOfInput) :
    c.advance.1.Along s ∧
      (∃ before behind, s.items =
        before ++ .token c.current :: ((faultsIn c.advance.2).map .fault ++ behind)) ∧
      (c.current.position :: ((faultsIn c.advance.2).map Fault.position ++
        [c.advance.1.current.position])).Pairwise (· ≤ ·) := by
  obtain ⟨before, hs⟩ := h.place hk
  have hs' : s.items = (before ++ [.token c.current]) ++ c.rest := by
    rw [hs, List.append_assoc]
    rfl
  have hasc : Ascending c.rest s.finish.token.position := (List.pairwise_cons.1 h.ascending).2
  have hfaults : faultsIn c.advance.2 = faultsIn (pull s.finish c.rest).2.2 := by
    simp [Cursor.advance, hk, h.finish, Event.fault?]
  have hcursor : c.advance.1 = ⟨(pull s.finish c.rest).1, (pull s.finish c.rest).2.1, s.finish,
      c.consumed + 1⟩ := by
    simp [Cursor.advance, hk, h.finish]
  obtain ⟨halong, behind, hrest⟩ := along_pull hs' hasc (c.consumed + 1)
  rw [hfaults, hcursor]
  refine ⟨halong, ⟨before, behind, by rw [← hrest, hs]⟩, ?_⟩
  exact h.ascending.sublist (List.Sublist.cons_cons _ (positions_pull s.finish c.rest))

/-! ### Faults in order -/

/-- The fault `f` of the source stands directly behind a number that is out of range,
and `g` is the fault of that number. -/
def Overtakes (items : List Item) (f g : Fault) : Prop :=
  ∃ (before : List Item) (t : Token) (fs : List Fault) (behind : List Item),
    items = before ++ .token t :: (fs.map .fault ++ behind) ∧
      t.OutOfRange ∧ f ∈ fs ∧ g = t.numberFault

/-- The faults found so far are in the order of the source, but for those that
overtake a number, and none is behind the current token. -/
structure InOrder (s : Source) (found : List Fault) (c : Cursor) : Prop where
  along : c.Along s
  pairwise : found.Pairwise fun f g => f.position ≤ g.position ∨ Overtakes s.items f g
  reached : ∀ f ∈ found, f.position ≤ c.current.position

namespace InOrder

variable {s : Source} {found : List Fault} {c : Cursor}

/-- A fault at the current token. -/
theorem snoc {f : Fault} (h : InOrder s found c) (hf : f.position = c.current.position) :
    InOrder s (found ++ [f]) c := by
  refine ⟨h.along, ?_, ?_⟩
  · refine List.pairwise_append.2 ⟨h.pairwise, List.pairwise_singleton _ _, ?_⟩
    intro g hg f' hf'
    obtain rfl := List.mem_singleton.1 hf'
    exact .inl (hf ▸ h.reached g hg)
  · intro g hg
    rcases List.mem_append.1 hg with hg | hg
    · exact h.reached g hg
    · obtain rfl := List.mem_singleton.1 hg
      exact hf ▸ Position.le_refl _

/-- A token consumed, with the faults behind it. -/
theorem advance (h : InOrder s found c) (hk : c.current.kind ≠ .endOfInput) :
    InOrder s (found ++ faultsIn c.advance.2) c.advance.1 := by
  obtain ⟨halong, -, hpos⟩ := h.along.advance hk
  obtain ⟨hcurrent, hpos⟩ := List.pairwise_cons.1 hpos
  obtain ⟨hfaults, -, hnext⟩ := List.pairwise_append.1 hpos
  have hbehind : ∀ f ∈ faultsIn c.advance.2, c.current.position ≤ f.position := fun f hf =>
    hcurrent _ (List.mem_append_left _ (List.mem_map_of_mem hf))
  refine ⟨halong, ?_, ?_⟩
  · refine List.pairwise_append.2 ⟨h.pairwise, ?_, fun f hf g hg => ?_⟩
    · exact (List.pairwise_map.1 hfaults).imp .inl
    · exact .inl (Position.le_trans (h.reached f hf) (hbehind g hg))
  · intro f hf
    rcases List.mem_append.1 hf with hf | hf
    · have hle := hcurrent _ (List.mem_append_right _ List.mem_cons_self)
      exact Position.le_trans (h.reached f hf) hle
    · exact hnext _ (List.mem_map_of_mem hf) _ List.mem_cons_self

/-- A number consumed, with the faults behind it, and then reported. -/
theorem number (h : InOrder s found c) (hn : c.current.OutOfRange) :
    InOrder s (found ++ faultsIn c.advance.2 ++ [c.current.numberFault]) c.advance.1 := by
  have hk : c.current.kind ≠ .endOfInput := by rw [hn.1]; decide
  have hadvance := h.advance hk
  obtain ⟨-, ⟨before, behind, hitems⟩, hpos⟩ := h.along.advance hk
  have hcurrent := (List.pairwise_cons.1 hpos).1
  refine ⟨hadvance.along, ?_, ?_⟩
  · refine List.pairwise_append.2 ⟨hadvance.pairwise, List.pairwise_singleton _ _, ?_⟩
    intro f hf g hg
    obtain rfl := List.mem_singleton.1 hg
    rcases List.mem_append.1 hf with hf | hf
    · exact .inl (h.reached f hf)
    · -- the fault of the source has been reported first
      exact .inr ⟨before, c.current, _, behind, hitems, hn, hf, rfl⟩
  · intro f hf
    rcases List.mem_append.1 hf with hf | hf
    · exact hadvance.reached f hf
    · obtain rfl := List.mem_singleton.1 hf
      exact hcurrent _ (List.mem_append_right _ List.mem_cons_self)

end InOrder

/-- **A run keeps the faults in order.** -/
theorem Course.inOrder {s : Source} {found : List Fault} {c d : Cursor} {es : List Event}
    (h : Course c es d) (hc : InOrder s found c) : InOrder s (found ++ faultsIn es) d := by
  induction h with
  | start => simpa using hc
  | note _ _ hf ih => simpa [hf] using ih
  | advance _ hk ih =>
    rw [faultsIn_append, ← List.append_assoc]
    exact ih.advance hk
  | report _ _ ih =>
    rw [faultsIn_append, ← List.append_assoc]
    exact ih.snoc rfl
  | number _ hn ih =>
    rw [faultsIn_append, faultsIn_append, ← List.append_assoc, ← List.append_assoc]
    exact ih.number hn

/-! ### Sessions -/

theorem Cursor.inOrder_ofSource {s : Source} (h : s.InOrder) :
    BantamJava.InOrder s (faultsIn (ofSource s).2) (ofSource s).1 := by
  have hitems : s.items = [] ++ s.items := rfl
  obtain ⟨halong, -⟩ := along_pull hitems h 0
  have hpos := List.Pairwise.sublist (positions_pull s.finish s.items) h
  obtain ⟨hfaults, -, hnext⟩ := List.pairwise_append.1 hpos
  refine ⟨halong, (List.pairwise_map.1 hfaults).imp .inl, fun f hf => ?_⟩
  exact hnext _ (List.mem_map_of_mem hf) _ List.mem_cons_self

/-- **Diagnostics come in the order of the text, but for numbers that are out of
range.** Of two diagnostics the first is not behind the second one, unless the second
is about a number that is out of range, and the first about a lexeme directly behind
that number. The text has to be short enough for its end to have a position. -/
theorem parse_in_source_order (text file : String) (hlength : text.length + 1 < UInt32.size) :
    ((parse text file).diagnostics.map (·.fault)).Pairwise fun f g =>
      f.position ≤ g.position ∨ Overtakes (Reader.ofText text file).items f g := by
  let s := Source.ofText text file
  let session := Session.start file s
  obtain ⟨cs, hcs⟩ := (Parser.classes_ends session.table session.cursor).1
  have hcourse := Trait.classes_has Trait.course_allows Trait.course_catches session.table
    session.cursor
  have horder := hcourse.1.inOrder (Cursor.inOrder_ofSource (Source.ofText_inOrder file hlength))
  have hfaults : (parse text file).diagnostics.map (·.fault) = faultsIn session.journal ++
      faultsIn (Parser.classes session.table session.cursor).events :=
    Session.faults_parse hcs
  rw [hfaults]
  exact horder.pairwise

/-- Of the two diagnostics of `class A { int x = 99999999999 # ; }` the first is about the stray
`#`, which overtakes the number. -/
theorem parse_in_source_order_overtaken :
    let text := "class A \x7b int x = 99999999999 # ; \x7d"
    text.length + 1 < UInt32.size ∧
      ∃ f g, (parse text "a").diagnostics.map (·.fault) = [f, g] ∧
        g.position < f.position ∧ Overtakes (Reader.ofText text "a").items f g := by
  intro text
  have hlength : text.length + 1 < UInt32.size := by decide +kernel
  have horder := parse_in_source_order text "a" hlength
  have hcount : ((parse text "a").diagnostics.map (·.fault)).length = 2 := by decide +kernel
  have hswapped : ((parse text "a").diagnostics.map (·.fault)).Pairwise
      fun f g => g.position < f.position := by decide +kernel
  obtain ⟨f, g, hfaults⟩ := List.length_eq_two.1 hcount
  rw [hfaults, List.pairwise_pair] at horder hswapped
  refine ⟨hlength, f, g, hfaults, hswapped, horder.resolve_left ?_⟩
  rw [Position.le_def]
  rw [Position.lt_def] at hswapped
  omega

/-- In `class A { int x = 99999999999 # ; }` the stray `#` is reported in front of the
number before it. -/
theorem parse_number_overtaken :
    ¬((parse "class A { int x = 99999999999 # ; }" "a").diagnostics.map
      (·.fault.position)).Pairwise (· ≤ ·) := by
  decide +kernel

end BantamJava
