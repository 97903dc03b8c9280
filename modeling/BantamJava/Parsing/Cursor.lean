/-
# Sources and cursors

A source is the list of items that a text or a caller delivers, and the end
token that it delivers for ever after. A cursor is how far a parser has got:
the one token it may look at, the items still to come, and how many tokens it
has consumed. Faults among the items are reported when the token after them is
taken, and the end token is never passed.

What lies ahead of a cursor is read off its items: the tokens before the end
(`upcoming`) and the faults between them (`pending`). A cursor moves by
advancing only, and `Reaches` says what a journal has to hold if it does.

Key definitions: `Source`, `EndToken`, `Cursor`, `Cursor.pull`,
`Cursor.advance`, `Cursor.upcoming`, `Cursor.left`, `Cursor.Reaches`.
Key theorems: `Cursor.upcoming_advance`, `Cursor.upcoming_after`,
`Cursor.reaches_advance`, `Cursor.Reaches.trans`.
-/
import BantamJava.Lexeme.Reader
import BantamJava.Parsing.Event

namespace BantamJava

/-- A token that stands for the end of the input. -/
structure EndToken where
  token : Token
  isEnd : token.kind = .endOfInput
deriving DecidableEq

/-- The items of a source, and the end token that follows them. -/
structure Source where
  items : List Item
  finish : EndToken
deriving DecidableEq

/-- The tokens of a list of items before the first end token, faults left out. -/
def tokensAhead : List Item → List Token
  | [] => []
  | .token t :: items => if t.kind = .endOfInput then [] else t :: tokensAhead items
  | .fault _ :: items => tokensAhead items

/-- The faults of a list of items before the first end token. -/
def faultsAhead : List Item → List Fault
  | [] => []
  | .token t :: items => if t.kind = .endOfInput then [] else faultsAhead items
  | .fault f :: items => f :: faultsAhead items

namespace Source

/-- The source of a text. -/
def ofText (text : String) (file : String) : Source :=
  let r := Reader.ofText text file
  ⟨r.items, r.finish, rfl⟩

/-- The position of an item. -/
def itemPosition : Item → Position
  | .token t => t.position
  | .fault f => f.position

/-- A source of given items. It ends where the last of them is. -/
def ofItems (items : List Item) : Source :=
  ⟨items, .atEnd ((items.getLast?.map itemPosition).getD .start), rfl⟩

/-- The tokens of a source before its end, faults left out. -/
def tokens (s : Source) : List Token := tokensAhead s.items

end Source

/-- How far a parser has got. -/
structure Cursor where
  /-- The token that the parser may look at. -/
  current : Token
  /-- The items after it. -/
  rest : List Item
  /-- What the source delivers once the items are used up. -/
  finish : EndToken
  /-- How many tokens have been consumed. -/
  consumed : Nat
deriving DecidableEq

namespace Cursor

/-- The first token among the items, what comes after it, and the events of
getting there: faults on the way are reported. -/
def pull (finish : EndToken) : List Item → Token × List Item × List Event
  | [] => (finish.token, [], [])
  | .token t :: items => (t, items, [.delivered t])
  | .fault f :: items =>
    let taken := pull finish items
    (taken.1, taken.2.1, .reported f :: taken.2.2)

/-- The cursor before the first token of a source, and the events of getting
there. -/
def ofSource (s : Source) : Cursor × List Event :=
  let taken := pull s.finish s.items
  (⟨taken.1, taken.2.1, s.finish, 0⟩, taken.2.2)

/-- Whether the input has ended. -/
def atEnd (c : Cursor) : Bool := c.current.kind == .endOfInput

/-- Consumes the current token, unless the input has ended. -/
def advance (c : Cursor) : Cursor × List Event :=
  if c.current.kind = .endOfInput then (c, [])
  else
    let taken := pull c.finish c.rest
    (⟨taken.1, taken.2.1, c.finish, c.consumed + 1⟩, taken.2.2 ++ [.consumed c.current])

/-- The tokens from the current one on, before the end. -/
def upcoming (c : Cursor) : List Token := tokensAhead (.token c.current :: c.rest)

/-- The faults between the tokens to come. -/
def pending (c : Cursor) : List Fault := faultsAhead (.token c.current :: c.rest)

/-- The number of tokens still to be consumed. -/
def left (c : Cursor) : Nat := c.upcoming.length

/-! ### Pulling -/

theorem tokensAhead_pull (finish : EndToken) : ∀ items : List Item,
    tokensAhead (.token (pull finish items).1 :: (pull finish items).2.1) = tokensAhead items
  | [] => by simp [pull, tokensAhead, finish.isEnd]
  | .token t :: items => rfl
  | .fault f :: items => tokensAhead_pull finish items

theorem faultsAhead_pull (finish : EndToken) : ∀ items : List Item,
    faultsAhead items = faultsIn (pull finish items).2.2 ++
      faultsAhead (.token (pull finish items).1 :: (pull finish items).2.1)
  | [] => by simp [pull, faultsAhead, finish.isEnd]
  | .token t :: items => by simp [pull, Event.fault?]
  | .fault f :: items => by
    simp only [pull, faultsIn_cons, Event.fault?, Option.toList_some, List.cons_append,
      List.nil_append]
    rw [← faultsAhead_pull finish items, faultsAhead]

theorem consumedIn_pull (finish : EndToken) : ∀ items : List Item,
    consumedIn (pull finish items).2.2 = []
  | [] => rfl
  | .token t :: items => rfl
  | .fault f :: items => by simp [pull, Event.consumed?, consumedIn_pull finish items]

/-! ### What lies ahead -/

theorem faultsAhead_tokens (ts : List Token) : faultsAhead (ts.map .token) = [] := by
  induction ts with
  | nil => rfl
  | cons t ts ih =>
    simp only [List.map_cons, faultsAhead, ih]
    split <;> rfl

theorem tokensAhead_tokens {ts : List Token} (h : ∀ t ∈ ts, t.kind ≠ .endOfInput) :
    tokensAhead (ts.map .token) = ts := by
  induction ts with
  | nil => rfl
  | cons t ts ih =>
    have ht := h t List.mem_cons_self
    have hts := ih fun s hs => h s (List.mem_cons_of_mem _ hs)
    simp only [List.map_cons, tokensAhead, if_neg ht, hts]

theorem ne_endOfInput_of_mem {items : List Item} {t : Token} (h : t ∈ tokensAhead items) :
    t.kind ≠ .endOfInput := by
  induction items with
  | nil => cases h
  | cons item items ih =>
    cases item with
    | fault f => exact ih h
    | token s =>
      by_cases hs : s.kind = .endOfInput
      · simp [tokensAhead, hs] at h
      · simp only [tokensAhead, if_neg hs, List.mem_cons] at h
        rcases h with rfl | h
        · exact hs
        · exact ih h

theorem upcoming_eq_nil_iff {c : Cursor} : c.upcoming = [] ↔ c.current.kind = .endOfInput := by
  simp [upcoming, tokensAhead]

theorem left_eq_zero_iff {c : Cursor} : c.left = 0 ↔ c.current.kind = .endOfInput := by
  rw [left, List.length_eq_zero_iff, upcoming_eq_nil_iff]

theorem upcoming_of_ne {c : Cursor} (h : c.current.kind ≠ .endOfInput) :
    c.upcoming = c.current :: tokensAhead c.rest := by
  simp [upcoming, tokensAhead, h]

theorem current_of_upcoming {c : Cursor} {t : Token} {ts : List Token}
    (h : c.upcoming = t :: ts) : c.current = t ∧ c.current.kind ≠ .endOfInput := by
  have hne : c.current.kind ≠ .endOfInput := by
    intro he
    rw [upcoming_eq_nil_iff.2 he] at h
    cases h
  exact ⟨(List.cons.inj ((upcoming_of_ne hne).symm.trans h)).1, hne⟩

theorem length_tokensAhead_le : ∀ items : List Item, (tokensAhead items).length ≤ items.length
  | [] => by simp [tokensAhead]
  | .token t :: items => by
    have := length_tokensAhead_le items
    simp only [tokensAhead]
    split
    · exact Nat.zero_le _
    · simp only [List.length_cons]
      omega
  | .fault f :: items => by
    have := length_tokensAhead_le items
    simp only [tokensAhead, List.length_cons]
    omega

theorem left_le (c : Cursor) : c.left ≤ c.rest.length + 1 := by
  simpa [left, upcoming] using length_tokensAhead_le (.token c.current :: c.rest)

/-! ### Advancing -/

theorem advance_of_end {c : Cursor} (h : c.current.kind = .endOfInput) : c.advance = (c, []) := by
  simp [advance, h]

theorem upcoming_advance (c : Cursor) : c.advance.1.upcoming = c.upcoming.tail := by
  by_cases h : c.current.kind = .endOfInput
  · rw [advance_of_end h, upcoming_eq_nil_iff.2 h, List.tail_nil]
  · rw [upcoming_of_ne h, List.tail_cons]
    simpa [advance, h, upcoming] using tokensAhead_pull c.finish c.rest

theorem consumedIn_advance {c : Cursor} (h : c.current.kind ≠ .endOfInput) :
    consumedIn c.advance.2 = [c.current] := by
  simp [advance, h, consumedIn_pull, Event.consumed?]

theorem pending_advance (c : Cursor) :
    c.pending = faultsIn c.advance.2 ++ c.advance.1.pending := by
  by_cases h : c.current.kind = .endOfInput
  · simp [advance_of_end h]
  · have := faultsAhead_pull c.finish c.rest
    simpa [advance, h, pending, faultsAhead, Event.fault?] using this

theorem consumed_advance {c : Cursor} (h : c.current.kind ≠ .endOfInput) :
    c.advance.1.consumed = c.consumed + 1 := by
  simp [advance, h]

/-- The cursor after `n` tokens more. -/
def after : Nat → Cursor → Cursor
  | 0, c => c
  | n + 1, c => after n c.advance.1

theorem after_add : ∀ (m n : Nat) (c : Cursor), c.after (m + n) = (c.after m).after n
  | 0, n, c => by rw [Nat.zero_add, after]
  | m + 1, n, c => by
    rw [Nat.add_right_comm]
    exact after_add m n c.advance.1

theorem upcoming_after : ∀ (n : Nat) (c : Cursor), (c.after n).upcoming = c.upcoming.drop n
  | 0, c => by simp [after]
  | n + 1, c => by
    rw [after, upcoming_after n, upcoming_advance, List.drop_tail]

theorem consumed_after : ∀ (n : Nat) (c : Cursor), n ≤ c.left →
    (c.after n).consumed = c.consumed + n
  | 0, _, _ => rfl
  | n + 1, c, h => by
    have hk : c.current.kind ≠ .endOfInput := fun he => by
      rw [left_eq_zero_iff.2 he] at h
      omega
    have hl : c.advance.1.left = c.left - 1 := by
      rw [left, left, upcoming_advance, List.length_tail]
    rw [after, consumed_after n _ (by omega), consumed_advance hk]
    omega

/-! ### Moving -/

/-- A journal `es` leads from the cursor `c` to the cursor `d`: it consumes
tokens one by one, and reports the faults between them. -/
structure Reaches (c : Cursor) (es : List Event) (d : Cursor) : Prop where
  cursor : d = c.after (consumedIn es).length
  tokens : c.upcoming = consumedIn es ++ d.upcoming
  faults : ∃ fs, fs.Sublist (faultsIn es) ∧ c.pending = fs ++ d.pending

theorem Reaches.refl (c : Cursor) {es : List Event} (h : consumedIn es = []) : c.Reaches es c :=
  ⟨by rw [h]; rfl, by rw [h]; rfl, [], List.nil_sublist _, rfl⟩

theorem Reaches.trans {c d e : Cursor} {es fs : List Event} (h : c.Reaches es d)
    (h' : d.Reaches fs e) : c.Reaches (es ++ fs) e := by
  obtain ⟨xs, hxs, hc⟩ := h.faults
  obtain ⟨ys, hys, hd⟩ := h'.faults
  refine ⟨?_, ?_, xs ++ ys, ?_, ?_⟩
  · rw [h'.cursor, h.cursor, consumedIn_append, List.length_append, after_add]
  · rw [h.tokens, h'.tokens, consumedIn_append, List.append_assoc]
  · rw [faultsIn_append]
    exact hxs.append hys
  · rw [hc, hd, List.append_assoc]

theorem reaches_advance (c : Cursor) : c.Reaches c.advance.2 c.advance.1 := by
  by_cases h : c.current.kind = .endOfInput
  · rw [advance_of_end h]
    exact .refl c rfl
  · refine ⟨?_, ?_, faultsIn c.advance.2, List.Sublist.refl _, pending_advance c⟩
    · rw [consumedIn_advance h]
      rfl
    · rw [consumedIn_advance h, upcoming_advance, upcoming_of_ne h]
      rfl

/-- Where no fault lies ahead, none ever will. -/
theorem Reaches.pending_eq_nil {c d : Cursor} {es : List Event} (h : c.Reaches es d)
    (hc : c.pending = []) : d.pending = [] := by
  obtain ⟨fs, -, hfs⟩ := h.faults
  exact (List.append_eq_nil_iff.1 (hfs.symm.trans hc)).2

theorem Reaches.left_add {c d : Cursor} {es : List Event} (h : c.Reaches es d) :
    (consumedIn es).length + d.left = c.left := by
  simp [left, h.tokens]

theorem Reaches.consumed_eq {c d : Cursor} {es : List Event} (h : c.Reaches es d) :
    d.consumed = c.consumed + (consumedIn es).length := by
  have := h.left_add
  rw [h.cursor, consumed_after _ _ (by omega)]

theorem Reaches.left_le {c d : Cursor} {es : List Event} (h : c.Reaches es d) :
    d.left ≤ c.left := by
  have := h.left_add
  omega

end Cursor
end BantamJava
