/-
# What is accepted, and where the first fault stands

The parser reports nothing exactly if the tokens of its source are a program of
the grammar, and then it gives the program that the grammar gives. Otherwise its
first fault stands at the earliest token possible: what is before that token can
be completed to a program, and no program goes on with that token.

Both follow from how the classes of a program are read (`classes_reads`). What
is added here is that the parser goes on to the end of the input
(`classes_ends`), so that all tokens are in the phrase that it has read and no
faulty lexeme is passed over in silence.

Key theorems: `diagnostics_eq_nil_iff`, `noEnd_items`, `parse_accepts`,
`parse_first_fault`.
-/
import BantamJava.Proofs.Reading.Program
import BantamJava.Proofs.Termination

namespace BantamJava

open BantamJava.Parser

/-! ### Going on to the end -/

theorem consumedIn_classes (table : StmtTable) (c : Cursor) :
    consumedIn (classes table c).events = c.upcoming := by
  have hnil := Cursor.upcoming_eq_nil_iff.2 (classes_ends table c).2
  rw [((classes table).reaches c).tokens, hnil, List.append_nil]

/-- The faults of lexemes are among those reported. -/
theorem pending_sublist_classes (table : StmtTable) (c : Cursor) :
    c.pending.Sublist (faultsIn (classes table c).events) := by
  obtain ⟨fs, hfs, hpending⟩ := ((classes table).reaches c).faults
  have hend : (classes table c).cursor.pending = [] := by
    simp [Cursor.pending, faultsAhead, (classes_ends table c).2]
  rw [hpending, hend, List.append_nil]
  exact hfs

theorem trouble?_classes (table : StmtTable) (c : Cursor) :
    (classes table c).trouble? = firstReport (classes table c).events := by
  obtain ⟨cs, hcs⟩ := (classes_ends table c).1
  simp [Reply.trouble?, Reply.journal, hcs]

/-- What the parser of programs reads, if no lexeme is faulty. -/
theorem readsAt_classes {c : Cursor} (hc : c.pending = []) :
    ReadsAt (Many ClassPhrase) (fun _ => Stops (· == .endOfInput)) c (classes .standard c) :=
  classes_reads c hc (Nat.lt_succ_self _) trivial

/-! ### Programs that are accepted -/

/-- Classes that the parser finds without reporting anything. -/
theorem many_of_quiet {c : Cursor} {cs : List Class} (hcs : (classes .standard c).outcome = .ok cs)
    (hquiet : faultsIn (classes .standard c).events = []) :
    c.pending = [] ∧ Many ClassPhrase c.upcoming cs := by
  have hsub := pending_sublist_classes .standard c
  rw [hquiet] at hsub
  have hpending := List.sublist_nil.1 hsub
  refine ⟨hpending, ?_⟩
  have htrouble : (classes .standard c).trouble? = none := by
    rw [trouble?_classes]
    exact firstReport_eq_none_iff.2 hquiet
  have hsound := (readsAt_classes hpending).sound cs htrouble hcs
  rwa [consumedIn_classes] at hsound

/-- Classes of the grammar are found, and nothing is reported. -/
theorem quiet_of_many {c : Cursor} (hc : c.pending = []) {cs : List Class}
    (h : Many ClassPhrase c.upcoming cs) :
    (classes .standard c).outcome = .ok cs ∧ faultsIn (classes .standard c).events = [] := by
  have hread := readsAt_classes hc
  have hstops : Stops (· == .endOfInput) ([] : List Token).head? := fun t ht => by cases ht
  cases htrouble : (classes .standard c).trouble? with
  | some found =>
    -- the first fault would exclude this very phrase
    obtain ⟨n, f⟩ := found
    obtain ⟨i, -, -, -, -, hno⟩ := hread.fault n f htrouble
    refine absurd ?_ (hno c.upcoming cs [] h hstops)
    rw [List.append_nil]
  | none =>
    obtain ⟨cs', hcs', hquiet⟩ := Reply.exists_ok_of_trouble?_eq_none htrouble
    obtain ⟨-, rfl⟩ := hread.unique cs' htrouble hcs' c.upcoming cs [] h hstops (by
      rw [List.append_nil])
    exact ⟨hcs', firstReport_eq_none_iff.1 hquiet⟩

namespace Session

/-- **The parser accepts exactly its grammar**, for sources of all kinds. -/
theorem diagnostics_eq_nil_iff (file : String) (s : Source) :
    (start file s).parse.2.diagnostics = [] ↔
      faultsAhead s.items = [] ∧ ∃ cs, Many ClassPhrase s.tokens cs := by
  obtain ⟨cs, hcs⟩ := (classes_ends .standard (start file s).cursor).1
  have hfaults : faultsAhead s.items = faultsIn (start file s).journal ++
      (start file s).cursor.pending := Cursor.faultsAhead_pull s.finish s.items
  rw [diagnostics_parse (s := start file s) hcs, List.map_eq_nil_iff, List.append_eq_nil_iff,
    hfaults, List.append_eq_nil_iff, ← Cursor.upcoming_ofSource]
  constructor
  · rintro ⟨hjournal, hquiet⟩
    obtain ⟨hpending, hmany⟩ := many_of_quiet hcs hquiet
    exact ⟨⟨hjournal, hpending⟩, cs, hmany⟩
  · rintro ⟨⟨hjournal, hpending⟩, cs', hmany⟩
    exact ⟨hjournal, (quiet_of_many hpending hmany).2⟩

theorem classes_eq_of_many {file : String} {s : Source} (hs : faultsAhead s.items = [])
    {cs : List Class} (h : Many ClassPhrase s.tokens cs) : (start file s).parse.1.classes = cs := by
  have hfaults : faultsAhead s.items = faultsIn (start file s).journal ++
      (start file s).cursor.pending := Cursor.faultsAhead_pull s.finish s.items
  rw [hs] at hfaults
  rw [← Cursor.upcoming_ofSource] at h
  have hpending := (List.append_eq_nil_iff.1 hfaults.symm).2
  exact classes_parse (s := start file s) (quiet_of_many hpending h).1

end Session

/-! ### The tokens of a text -/

theorem operators_ne_endOfInput : ∀ o ∈ operators, o.2 ≠ .endOfInput := by
  decide

theorem shape_ne_of_cut {cs : List Char} {l : Lexeme} {rest : List Char}
    (h : cut cs = some (l, rest)) : l.shape ≠ .operator .endOfInput := by
  cases cs with
  | nil => cases h
  | cons c cs =>
    obtain rfl : (cutFrom c cs).1 = l := by
      rw [show cutFrom c cs = (l, rest) from Option.some.inj h]
    unfold cutFrom
    split
    · simp [cutRun]
    split
    · simp [cutRun]
    split
    · simp [cutRun]
    split
    · unfold cutLiteral
      split <;> simp [cutRun]
    split
    · simp [cutRun]
    split
    · unfold cutComment
      split <;> simp
    · unfold cutOperator
      split
      · next chars kind hfind =>
        intro heq
        exact operators_ne_endOfInput _ (List.mem_of_find?_eq_some hfind) (by simpa using heq)
      · simp

theorem wordKind_ne (word : String) : wordKind word ≠ .endOfInput := by
  have hall : ∀ e ∈ reservedWords, e.2 ≠ .endOfInput := by decide
  unfold wordKind reservedKind?
  cases h : reservedWords.lookup word with
  | none => simp
  | some k =>
    obtain ⟨before, after, hsplit, -⟩ := List.lookup_eq_some_iff.1 h
    exact hall (word, k) (by simp [hsplit])

theorem kind_ne_of_item? {l : Lexeme} {p : Position} {t : Token}
    (hl : l.shape ≠ .operator .endOfInput) (h : l.item? p = some (.token t)) :
    t.kind ≠ .endOfInput := by
  unfold Lexeme.item? at h
  split at h <;> simp only [Option.some.injEq, Item.token.injEq, reduceCtorEq] at h
  · rw [← h]
    exact wordKind_ne _
  · rw [← h]
    simp
  · rw [← h]
    simp
  · next kind hshape =>
    rw [← h]
    rintro rfl
    exact hl hshape

/-- A text has no end token before its end. -/
theorem noEnd_items (r : Reader) : NoEnd r.items := by
  fun_induction Reader.items r with
  | case1 r h => exact fun t ht => by cases ht
  | case2 r l rest h ih =>
    intro t ht
    rcases List.mem_append.1 ht with hitem | hrest
    · exact kind_ne_of_item? (shape_ne_of_cut h) (by simpa using hitem)
    · exact ih t hrest

theorem tokensOf_eq_ok_iff {items : List Item} (h : NoEnd items) {ts : List Token} :
    tokensOf items = .ok ts ↔ faultsAhead items = [] ∧ tokensAhead items = ts := by
  induction items generalizing ts with
  | nil => simp [tokensOf, faultsAhead, tokensAhead]
  | cons item items ih =>
    have hitems : NoEnd items := fun t ht => h t (List.mem_cons_of_mem _ ht)
    cases item with
    | fault f => simp [tokensOf, faultsAhead]
    | token t =>
      have ht : t.kind ≠ .endOfInput := h t (List.mem_cons_self ..)
      simp only [tokensOf, faultsAhead, tokensAhead, if_neg ht]
      constructor
      · intro hok
        cases hrest : tokensOf items with
        | error f =>
          rw [hrest] at hok
          cases hok
        | ok us =>
          rw [hrest] at hok
          obtain ⟨hfaults, rfl⟩ := (ih hitems).1 hrest
          exact ⟨hfaults, Except.ok.inj hok⟩
      · rintro ⟨hfaults, rfl⟩
        rw [(ih hitems).2 ⟨hfaults, rfl⟩]
        rfl

/-- A program of the grammar is where the parser says it is. -/
theorem position_ofSource {s : Source} (hs : NoEnd s.items) (hfaults : faultsAhead s.items = []) :
    (Cursor.ofSource s).1.current.position = (s.tokens.head?.getD s.finish.token).position := by
  obtain ⟨items, finish⟩ := s
  cases items with
  | nil => rfl
  | cons item items =>
    cases item with
    | fault f => cases hfaults
    | token t =>
      have ht : t.kind ≠ .endOfInput := hs t (List.mem_cons_self ..)
      simp [Cursor.ofSource, Cursor.pull, Source.tokens, tokensAhead, ht]

/-- **The front end accepts exactly its grammar.** A text is parsed without
diagnostics if and only if all its lexemes are sound and its tokens are a
program of the grammar. Then the program found is the one that the grammar
gives, and there is no other. -/
theorem parse_accepts (text file : String) :
    let source := Source.ofText text file
    ((parse text file).diagnostics = [] ↔
      ∃ ts prog, tokensOf source.items = .ok ts ∧ ProgramPhrase source.finish.token ts prog) ∧
    ∀ ts prog, tokensOf source.items = .ok ts → ProgramPhrase source.finish.token ts prog →
      (parse text file).program = prog := by
  intro source
  have hend : NoEnd source.items := noEnd_items (Reader.ofText text file)
  have hparsed : (parse text file).diagnostics = (Session.start file source).parse.2.diagnostics :=
    rfl
  refine ⟨?_, fun ts prog hts hprog => ?_⟩
  · rw [hparsed, Session.diagnostics_eq_nil_iff]
    constructor
    · rintro ⟨hfaults, cs, hcs⟩
      exact ⟨source.tokens, ⟨cs, _⟩, (tokensOf_eq_ok_iff hend).2 ⟨hfaults, rfl⟩, hcs, rfl⟩
    · rintro ⟨ts, prog, hts, hprog⟩
      obtain ⟨hfaults, htokens⟩ := (tokensOf_eq_ok_iff hend).1 hts
      refine ⟨hfaults, prog.classes, ?_⟩
      rw [Source.tokens, htokens]
      exact hprog.classes
  · obtain ⟨hfaults, rfl⟩ := (tokensOf_eq_ok_iff hend).1 hts
    have hclasses : (parse text file).program.classes = prog.classes :=
      Session.classes_eq_of_many hfaults hprog.classes
    have hposition : (parse text file).program.position = prog.position := by
      rw [hprog.position]
      exact (Session.position_parse _).trans (position_ofSource hend hfaults)
    cases hp : (parse text file).program with
    | mk classes position =>
      rw [hp] at hclasses hposition
      cases hclasses
      cases hposition
      rfl

/-! ### The first fault -/

theorem head?_faultsIn (es : List Event) :
    (faultsIn es).head? = (firstReport es).map Prod.snd := by
  induction es with
  | nil => rfl
  | cons e es ih =>
    cases e with
    | consumed t => simpa [firstReport, Event.fault?, Function.comp_def] using ih
    | _ => simp [firstReport, Event.fault?, ih]

/-- The tokens at which a cursor will stand, one after another. -/
theorem current_after {i : Nat} {c : Cursor} {us : List Token} (hrest : c.rest = us.map .token)
    (hi : i ≤ c.left) : ((c.current :: us) ++ [c.finish.token])[i]? = some (c.after i).current := by
  induction i generalizing c us with
  | zero => rfl
  | succ i ih =>
    have hk : c.current.kind ≠ .endOfInput := by
      intro hk
      rw [Cursor.left_eq_zero_iff.2 hk] at hi
      omega
    have hleft : c.advance.1.left = c.left - 1 := by
      rw [Cursor.left, Cursor.left, Cursor.upcoming_advance, List.length_tail]
    have hadvance : c.advance.1.left ≥ i := by omega
    rw [Cursor.after]
    cases us with
    | nil =>
      -- only the end token is left
      have hcurrent : c.advance.1.current = c.finish.token := by
        simp [Cursor.advance, hk, hrest, Cursor.pull]
      have hzero : c.advance.1.left = 0 := by
        rw [Cursor.left_eq_zero_iff, hcurrent]
        exact c.finish.isEnd
      obtain rfl : i = 0 := by omega
      simp [Cursor.after, hcurrent]
    | cons u us =>
      have hcurrent : c.advance.1.current = u := by
        simp [Cursor.advance, hk, hrest, Cursor.pull]
      have hfinish : c.advance.1.finish = c.finish := by
        simp [Cursor.advance, hk]
      have htail : c.advance.1.rest = us.map .token := by
        simp [Cursor.advance, hk, hrest, Cursor.pull]
      have := ih htail hadvance
      rw [hcurrent, hfinish] at this
      simpa using this

/-- The tokens of a source without faults, as its cursor passes them. -/
theorem current_after_ofSource (us : List Token) (e : EndToken) {i : Nat}
    (hi : i ≤ (tokensAhead (us.map .token)).length) :
    (us ++ [e.token])[i]? = some ((Cursor.ofSource ⟨us.map .token, e⟩).1.after i).current := by
  cases us with
  | nil =>
    obtain rfl : i = 0 := by simpa [tokensAhead] using hi
    rfl
  | cons u us =>
    exact current_after (c := (Cursor.ofSource ⟨(u :: us).map .token, e⟩).1) rfl hi

/-- The first fault of a parse is the first that the parser of programs finds. -/
theorem firstReport_parse {s : Session} (hs : faultsIn s.journal = [])
    (hconsumed : consumedIn s.journal = []) :
    firstReport s.parse.2.journal = firstReport (classes s.table s.cursor).events := by
  obtain ⟨cs, hcs⟩ := (classes_ends s.table s.cursor).1
  simp only [Session.parse, run_program hcs, List.append_assoc, List.cons_append]
  rw [firstReport_append_of_none (firstReport_eq_none_iff.2 hs), hconsumed]
  simp only [firstReport, List.length_nil, Nat.add_zero, Prod.eta, Option.map_id_fun', id_eq]
  cases h : firstReport (classes s.table s.cursor).events with
  | some x => exact firstReport_append_of_some h _
  | none =>
    rw [firstReport_append_of_none h]
    rfl

/-- **The first fault stands at the earliest token possible.** If a sequence of
tokens is not parsed without diagnostics, let the first of these concern the
token with index `i`, the end token included: it is found with `i` tokens
consumed, or one more if it is a number, and stands at that token's position.
Then the tokens before it can be completed to a program. And no program starts
with the tokens up to and including it; if it is the end token, the tokens are
no program. -/
theorem parse_first_fault (file : String) (us : List Token) (e : EndToken) :
    let source : Source := ⟨us.map .token, e⟩
    let ended := (Session.start file source).parse.2
    ended.diagnostics ≠ [] →
    ∃ i f, ended.diagnostics.head? = some (.ofFault file f) ∧
      firstReport ended.journal = some (i + f.lag, f) ∧
      i ≤ source.tokens.length ∧
      (us ++ [e.token])[i]?.map Token.position = some f.position ∧
      (∃ x prog, ProgramPhrase e.token (source.tokens.take i ++ x) prog) ∧
      (i < source.tokens.length → ∀ w prog, ProgramPhrase e.token w prog →
        ¬ source.tokens.take (i + 1) <+: w) ∧
      (i = source.tokens.length → ∀ prog, ¬ ProgramPhrase e.token source.tokens prog) := by
  intro source ended hsome
  have hfaults : faultsIn (Session.start file source).journal ++
      (Session.start file source).cursor.pending = [] := by
    rw [← Cursor.faultsAhead_tokens us]
    exact (Cursor.faultsAhead_pull e _).symm
  obtain ⟨hjournal, hpending⟩ := List.append_eq_nil_iff.1 hfaults
  have hupcoming : (Session.start file source).cursor.upcoming = source.tokens :=
    Cursor.upcoming_ofSource source
  have hleft : (Session.start file source).cursor.left = source.tokens.length := by
    rw [Cursor.left, hupcoming]
  have hfirst : firstReport ended.journal =
      (classes .standard (Session.start file source).cursor).trouble? := by
    rw [trouble?_classes]
    exact firstReport_parse hjournal (Cursor.consumedIn_pull e _)
  have hhead : ended.diagnostics.head? =
      (firstReport ended.journal).map fun found => .ofFault file found.2 := by
    show ((faultsIn ended.journal).map _).head? = _
    rw [List.head?_map, head?_faultsIn, Option.map_map]
    rfl
  cases htrouble : firstReport ended.journal with
  | none =>
    rw [htrouble, Option.map_none, List.head?_eq_none_iff] at hhead
    exact absurd hhead hsome
  | some found =>
    obtain ⟨n, f⟩ := found
    rw [htrouble] at hhead hfirst
    obtain ⟨i, rfl, hi, hposition, ⟨x, cs, hx⟩, hno⟩ :=
      (readsAt_classes hpending).fault n f hfirst.symm
    rw [hupcoming] at hx hno
    rw [hleft] at hi
    have hstops : Stops (· == .endOfInput) ([] : List Token).head? := fun t ht => by cases ht
    refine ⟨i, f, hhead, rfl, hi, ?_, ⟨x, ⟨cs, _⟩, hx, rfl⟩, fun hlt w prog hw hstart => ?_,
      fun hlast prog hprog => ?_⟩
    · rw [current_after_ofSource us e hi, hposition]
      rfl
    · refine hno w prog.classes [] hw.classes hstops ?_
      have htake := List.prefix_iff_eq_take.1 hstart
      rw [List.length_take, Nat.min_eq_left hlt] at htake
      rw [List.append_nil, ← htake]
    · refine hno source.tokens prog.classes [] hprog.classes hstops ?_
      rw [List.append_nil]

/-- A number out of range is the first fault of the class around it: what is
before it can still become a program, and with it nothing can. -/
theorem parse_first_fault_number :
    let us : List Token := [⟨.classWord, "class", ⟨1, 1⟩⟩, ⟨.identifier, "A", ⟨1, 7⟩⟩,
      ⟨.openCurly, "\x7b", ⟨1, 9⟩⟩, ⟨.identifier, "int", ⟨1, 11⟩⟩, ⟨.identifier, "x", ⟨1, 15⟩⟩,
      ⟨.assignment, "=", ⟨1, 17⟩⟩, ⟨.number, "2147483648", ⟨1, 19⟩⟩, ⟨.semicolon, ";", ⟨1, 29⟩⟩,
      ⟨.closeCurly, "\x7d", ⟨1, 31⟩⟩]
    let e : EndToken := ⟨.atEnd ⟨1, 32⟩, rfl⟩
    (Session.start "a" ⟨us.map .token, e⟩).parse.2.diagnostics.map (·.fault) =
      [⟨.badNumber "2147483648", ⟨1, 19⟩⟩] ∧
    (∃ x prog, ProgramPhrase e.token (us.take 6 ++ x) prog) ∧
    ∀ w prog, ProgramPhrase e.token w prog → ¬ us.take 7 <+: w := by
  intro us e
  have hfaults : (Session.start "a" ⟨us.map .token, e⟩).parse.2.diagnostics.map (·.fault) =
      [⟨.badNumber "2147483648", ⟨1, 19⟩⟩] := by decide +kernel
  have hfirst : firstReport (Session.start "a" ⟨us.map .token, e⟩).parse.2.journal =
      some (7, ⟨.badNumber "2147483648", ⟨1, 19⟩⟩) := by decide +kernel
  obtain ⟨i, f, -, hfound, -, -, hviable, hno, -⟩ := parse_first_fault "a" us e (by
    intro h
    rw [h] at hfaults
    cases hfaults)
  -- the parser has consumed the number, so the token at fault is one back
  rw [hfirst] at hfound
  obtain ⟨hi, rfl⟩ := Prod.mk.inj (Option.some.inj hfound)
  obtain rfl : 6 = i := Nat.succ.inj hi
  exact ⟨hfaults, hviable, hno (by decide)⟩

end BantamJava
