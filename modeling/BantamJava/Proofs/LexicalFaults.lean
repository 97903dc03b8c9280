/-
# Faulty lexemes leave the tree alone

A source with faults among its items is parsed to the same program as without
them. Each of these faults becomes a diagnostic, once and in the order of the
source, somewhere among the diagnostics that the tokens alone give rise to.

The run over the whole source and the run over its tokens are in lockstep
(`World.cleared`): they always look at the same token, and what the first one
reports beyond the second are the faults in front of that token, which it passed
when it took the token.

Key definitions: `Interleaves`, `withoutFaults`, `faultsOf`, `World.cleared`.
Key theorems: `Told.advance`, `World.classes_cleared`, `parse_withoutFaults`.
-/
import BantamJava.Proofs.Termination

namespace BantamJava

/-! ### Interleaving -/

/-- The third list is made of the first two, each in its own order. -/
inductive Interleaves {α : Type} : List α → List α → List α → Prop where
  | nil : Interleaves [] [] []
  | left (x : α) {xs ys zs : List α} (h : Interleaves xs ys zs) : Interleaves (x :: xs) ys (x :: zs)
  | right (y : α) {xs ys zs : List α} (h : Interleaves xs ys zs) :
      Interleaves xs (y :: ys) (y :: zs)

namespace Interleaves

variable {α β : Type}

theorem append {xs ys zs xs' ys' zs' : List α} (h : Interleaves xs ys zs)
    (h' : Interleaves xs' ys' zs') : Interleaves (xs ++ xs') (ys ++ ys') (zs ++ zs') := by
  induction h with
  | nil => exact h'
  | left x _ ih => exact .left x ih
  | right y _ ih => exact .right y ih

theorem all_left (xs : List α) : Interleaves xs [] xs := by
  induction xs with
  | nil => exact .nil
  | cons x xs ih => exact .left x ih

theorem map (f : α → β) {xs ys zs : List α} (h : Interleaves xs ys zs) :
    Interleaves (xs.map f) (ys.map f) (zs.map f) := by
  induction h with
  | nil => exact .nil
  | left x _ ih => exact .left (f x) ih
  | right y _ ih => exact .right (f y) ih

end Interleaves

/-! ### Items without the faults -/

/-- The fault that an item is, if it is one. -/
def Item.fault? : Item → Option Fault
  | .token _ => none
  | .fault f => some f

/-- The faults among the items. -/
def faultsOf (items : List Item) : List Fault := items.filterMap Item.fault?

/-- The items that are tokens. -/
def withoutFaults (items : List Item) : List Item := items.filter fun i => i.fault?.isNone

@[simp] theorem faultsOf_token (t : Token) (items : List Item) :
    faultsOf (.token t :: items) = faultsOf items := rfl

@[simp] theorem faultsOf_fault (f : Fault) (items : List Item) :
    faultsOf (.fault f :: items) = f :: faultsOf items := rfl

@[simp] theorem withoutFaults_nil : withoutFaults [] = [] := rfl

@[simp] theorem withoutFaults_token (t : Token) (items : List Item) :
    withoutFaults (.token t :: items) = .token t :: withoutFaults items := rfl

@[simp] theorem withoutFaults_fault (f : Fault) (items : List Item) :
    withoutFaults (.fault f :: items) = withoutFaults items := rfl

theorem tokensAhead_withoutFaults (items : List Item) :
    tokensAhead (withoutFaults items) = tokensAhead items := by
  induction items with
  | nil => rfl
  | cons item items ih => cases item <;> simp [tokensAhead, ih]

/-- Where no end token cuts them short, all faults lie ahead. -/
theorem faultsAhead_eq_faultsOf {items : List Item} (h : NoEnd items) :
    faultsAhead items = faultsOf items := by
  induction items with
  | nil => rfl
  | cons item items ih =>
    have hitems : NoEnd items := fun t ht => h t (List.mem_cons_of_mem _ ht)
    cases item with
    | token t =>
      have ht : t.kind ≠ .endOfInput := h t List.mem_cons_self
      simp [faultsAhead, ht, ih hitems]
    | fault f => simp [faultsAhead, ih hitems]

namespace Cursor

/-- The cursor with no faults to come. -/
def cleared (c : Cursor) : Cursor := { c with rest := withoutFaults c.rest }

/-- The same token is taken, with nothing to report. -/
theorem pull_withoutFaults (finish : EndToken) (items : List Item) :
    ∃ es, faultsIn es = [] ∧ pull finish (withoutFaults items) =
      ((pull finish items).1, withoutFaults (pull finish items).2.1, es) := by
  induction items with
  | nil => exact ⟨[], rfl, rfl⟩
  | cons item items ih =>
    cases item with
    | token t => exact ⟨[.delivered t], rfl, rfl⟩
    | fault f => exact ih

theorem upcoming_cleared (c : Cursor) : c.cleared.upcoming = c.upcoming := by
  simp only [upcoming, cleared, tokensAhead, tokensAhead_withoutFaults]

theorem advance_cleared {c : Cursor} (h : c.current.kind ≠ .endOfInput) :
    c.cleared.advance.1 = c.advance.1.cleared ∧
      faultsIn c.cleared.advance.2 = [] := by
  obtain ⟨es, hes, hpull⟩ := pull_withoutFaults c.finish c.rest
  have hcurrent : c.cleared.current.kind ≠ .endOfInput := h
  simp only [advance, if_neg h, if_neg hcurrent]
  simp only [cleared, hpull]
  exact ⟨trivial, by simp [hes, Event.fault?]⟩

theorem pending_of_end {c : Cursor} (h : c.current.kind = .endOfInput) : c.pending = [] := by
  simp [pending, faultsAhead, h]

end Cursor

/-! ### The two runs -/

/-- What the first run tells from the cursor `c` on is what the second run tells,
and among it the faults of the lexemes that are passed. -/
def Told (c : Cursor) (es fs : List Event) : Prop :=
  ∃ passed, c.pending = passed ++ (c.after (consumedIn es).length).pending ∧
    Interleaves passed (faultsIn fs) (faultsIn es)

theorem Told.still {c : Cursor} {es : List Event} (hc : consumedIn es = []) {fs : List Event}
    (hf : Interleaves [] (faultsIn fs) (faultsIn es)) : Told c es fs :=
  ⟨[], by rw [hc]; rfl, hf⟩

theorem Told.append {c d : Cursor} {es fs es' fs' : List Event} (hr : c.Reaches es d)
    (h : Told c es fs) (h' : Told d es' fs') : Told c (es ++ es') (fs ++ fs') := by
  obtain ⟨passed, hpending, hmixed⟩ := h
  obtain ⟨passed', hpending', hmixed'⟩ := h'
  refine ⟨passed ++ passed', ?_, ?_⟩
  · rw [consumedIn_append, List.length_append, Cursor.after_add, List.append_assoc, ← hr.cursor,
      ← hpending', hr.cursor]
    exact hpending
  · rw [faultsIn_append, faultsIn_append]
    exact hmixed.append hmixed'

/-- The faults in front of the next token are reported when it is taken. -/
theorem Told.advance {c : Cursor} (h : c.current.kind ≠ .endOfInput) :
    Told c c.advance.2 c.cleared.advance.2 := by
  refine ⟨faultsIn c.advance.2, ?_, ?_⟩
  · rw [Cursor.consumedIn_advance h]
    exact c.pending_advance
  · rw [(Cursor.advance_cleared h).2]
    exact Interleaves.all_left _

namespace World

open BantamJava.Parser

/-- The first run reads a source with its faults, the second one without. -/
def cleared : World where
  near c d := d = c.cleared
  said := Told
  blames _ f g := g = f
  closes _ _ := True
  offset := 0
  said_nil _ := .still rfl .nil
  said_append := Told.append
  said_note _ hc hf := .still (by simp [hc]) (by simp [hf, Interleaves.nil])
  said_report _ h := by
    subst h
    exact .still rfl (.right _ .nil)
  said_advance h hk := by
    subst h
    exact .advance hk
  near_advance h hk := by
    subst h
    exact (Cursor.advance_cleared hk).1
  left_le h := by
    subst h
    exact Nat.le_of_eq (congrArg List.length (Cursor.upcoming_cleared _).symm)
  consumed_eq h := by rw [h]; rfl
  current_or h := .inl (by rw [h]; rfl)
  blames_here h _ := by rw [h]; rfl
  blames_number _ _ _ := rfl
  closes_zero _ := trivial
  closes_open _ _ _ := trivial
  closes_close _ _ _ := trivial
  closes_other _ _ _ _ _ := trivial
  closes_end h hc hd _ := by
    subst h
    exact absurd (hc.symm.trans hd) (by decide)

theorem cleared_faithful : cleared.Faithful := by
  rintro c d rfl
  rfl

/-- **The classes of a source are those of its tokens**, and what is reported on
the way to them are the faults ahead and what the tokens alone give rise to. -/
theorem classes_cleared (table : StmtTable) (c : Cursor) :
    (classes table c.cleared).outcome = (classes table c).outcome ∧
      Interleaves c.pending (faultsIn (classes table c.cleared).events)
        (faultsIn (classes table c).events) := by
  have hloop : cleared.Lockstep (c.left + 1) (classes table) (classes table) := by
    refine collect_lockstep (.inl cleared_faithful) ?_ (left_classTurn_lt_of_stop table)
    exact (classTurn_lockstep (.inl cleared_faithful)).weaken fun c d h _ => cleared_faithful c d h
  have hmatch := hloop c c.cleared rfl (Nat.lt_succ_self _) trivial
  obtain ⟨⟨cs, hcs⟩, hend⟩ := classes_ends table c
  refine ⟨?_, ?_⟩
  · have houtcome := hmatch.outcome
    rw [hcs] at houtcome ⊢
    generalize (classes table c.cleared).outcome = o at houtcome
    cases houtcome
    rfl
  · obtain ⟨passed, hpending, hmixed⟩ := hmatch.said
    rw [← ((classes table).reaches c).cursor, Cursor.pending_of_end hend, List.append_nil]
      at hpending
    rwa [hpending]

end World

/-! ### Sessions -/

theorem Cursor.ofSource_cleared (items : List Item) (e : EndToken) :
    (Cursor.ofSource ⟨withoutFaults items, e⟩).1 = (Cursor.ofSource ⟨items, e⟩).1.cleared ∧
      faultsIn (Cursor.ofSource ⟨withoutFaults items, e⟩).2 = [] := by
  obtain ⟨es, hes, hpull⟩ := Cursor.pull_withoutFaults e items
  simp only [Cursor.ofSource, hpull]
  exact ⟨rfl, hes⟩

namespace Session

theorem registerAll_eq (registrations : List (Kind × StmtForm)) (s : Session) :
    s.registerAll registrations =
      { s with table := registrations.foldl (fun table r => table.register r.1 r.2) s.table } := by
  induction registrations generalizing s with
  | nil => rfl
  | cons r rs ih => exact ih (s.register r.1 r.2)

theorem parse_fst_eq {s : Session} {as : List Class}
    (h : (Parser.classes s.table s.cursor).outcome = .ok as) :
    s.parse.1 = ⟨as, s.cursor.current.position⟩ := by
  simp only [parse, Parser.run_program h]
  rfl

end Session

/-- **Faulty lexemes leave the tree alone, and none of them is lost or told
twice.** Items without an end token among them are parsed to the same program
with their faults and without, whatever forms of statements were registered. The
diagnostics are those of the faults, each once, in their order and under its own
tier, interleaved with the diagnostics of the tokens alone, in theirs. -/
theorem parse_withoutFaults (file : String) (items : List Item) (e : EndToken) (hitems : NoEnd items)
    (registrations : List (Kind × StmtForm)) :
    let whole := (Session.start file ⟨items, e⟩).registerAll registrations
    let cleared := (Session.start file ⟨withoutFaults items, e⟩).registerAll registrations
    whole.parse.1 = cleared.parse.1 ∧
    Interleaves ((faultsOf items).map (.ofFault file)) cleared.parse.2.diagnostics
      whole.parse.2.diagnostics := by
  intro whole cleared
  obtain ⟨hcursor, hquiet⟩ := Cursor.ofSource_cleared items e
  have hwhole := Session.registerAll_eq registrations (Session.start file ⟨items, e⟩)
  have hcleared := Session.registerAll_eq registrations (Session.start file ⟨withoutFaults items, e⟩)
  have htable : cleared.table = whole.table := by
    simp only [whole, cleared, hwhole, hcleared]
    rfl
  have hcursors : cleared.cursor = whole.cursor.cleared := by
    simp only [whole, cleared, hwhole, hcleared]
    exact hcursor
  obtain ⟨as, has⟩ := (Parser.classes_ends whole.table whole.cursor).1
  obtain ⟨houtcome, hmixed⟩ := World.classes_cleared whole.table whole.cursor
  have has' : (Parser.classes cleared.table cleared.cursor).outcome = .ok as := by
    rw [htable, hcursors, houtcome, has]
  refine ⟨?_, ?_⟩
  · rw [Session.parse_fst_eq has, Session.parse_fst_eq has', hcursors]
    rfl
  · -- the faults in front of the first token are told before the parse starts
    have hfaults : faultsOf items = faultsIn whole.journal ++ whole.cursor.pending := by
      rw [← faultsAhead_eq_faultsOf hitems]
      simp only [whole, hwhole]
      exact Cursor.faultsAhead_pull e items
    have hjournal : faultsIn cleared.journal = [] := by
      simp only [cleared, hcleared]
      exact hquiet
    have hfiles : cleared.file = file ∧ whole.file = file := by
      simp only [whole, cleared, hwhole, hcleared]
      exact ⟨rfl, rfl⟩
    rw [Session.diagnostics_parse has, Session.diagnostics_parse has', hfaults, hjournal, hfiles.1,
      hfiles.2, htable, hcursors]
    exact ((Interleaves.all_left _).append hmixed).map _

/-- A stray character in front of a class, and another one inside a field whose
number is out of range. -/
theorem parse_withoutFaults_stray :
    let items : List Item := [.fault ⟨.unrecognised "#", ⟨1, 1⟩⟩,
      .token ⟨.classWord, "class", ⟨1, 2⟩⟩, .token ⟨.identifier, "A", ⟨1, 8⟩⟩,
      .token ⟨.openCurly, "\x7b", ⟨1, 10⟩⟩, .token ⟨.identifier, "int", ⟨1, 12⟩⟩,
      .token ⟨.identifier, "x", ⟨1, 16⟩⟩, .token ⟨.assignment, "=", ⟨1, 18⟩⟩,
      .token ⟨.number, "2147483648", ⟨1, 20⟩⟩, .fault ⟨.unrecognised "$", ⟨1, 31⟩⟩,
      .token ⟨.semicolon, ";", ⟨1, 32⟩⟩, .token ⟨.closeCurly, "\x7d", ⟨1, 34⟩⟩]
    let e : EndToken := ⟨.atEnd ⟨1, 35⟩, rfl⟩
    NoEnd items ∧
    (Session.start "a" ⟨items, e⟩).parse.1 =
      (Session.start "a" ⟨withoutFaults items, e⟩).parse.1 ∧
    Interleaves
      [.ofFault "a" ⟨.unrecognised "#", ⟨1, 1⟩⟩, .ofFault "a" ⟨.unrecognised "$", ⟨1, 31⟩⟩]
      (Session.start "a" ⟨withoutFaults items, e⟩).parse.2.diagnostics
      (Session.start "a" ⟨items, e⟩).parse.2.diagnostics := by
  intro items e
  have hitems : NoEnd items := by
    intro t ht
    simp only [items, List.mem_cons, List.not_mem_nil, Item.token.injEq, reduceCtorEq, false_or,
      or_false] at ht
    rcases ht with rfl | rfl | rfl | rfl | rfl | rfl | rfl | rfl | rfl <;> decide
  exact ⟨hitems, parse_withoutFaults "a" items e hitems []⟩

end BantamJava
