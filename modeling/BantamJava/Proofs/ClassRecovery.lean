/-
# A faulty class does not disturb the next one

Two texts, the second of which starts with a `class`, are parsed one after the
other as if each stood alone, however faulty the first is: as long as every
brace that it opens is closed in it, the classes found are those of the first
and then those of the second, and so are the diagnostics. Only what is found
missing at the end of the first text is found missing at the `class` instead.

The first text alone and the two together run in lockstep until the `class`
(`World.followed`). From there on the second text alone and the two together
differ in the count of consumed tokens only (`World.shifted`).

Key definitions: `openAfter`, `Fault.movedTo`, `faultsEndingAt`,
`Session.diagnosticsEndingAt`, `World.followed`.
Key theorems: `World.classes_followed`, `parse_append_class`.
-/
import BantamJava.Proofs.Termination

namespace BantamJava

/-! ### Braces -/

/-- How many braces are open behind the tokens if `n` are open in front of them.
A closing brace that meets no open one closes nothing. -/
def openAfter : Nat → List Token → Nat
  | n, [] => n
  | n, t :: ts =>
    match t.kind with
    | .openCurly => openAfter (n + 1) ts
    | .closeCurly => openAfter (n - 1) ts
    | _ => openAfter n ts

theorem openAfter_mono {m n : Nat} (h : m ≤ n) (ts : List Token) :
    openAfter m ts ≤ openAfter n ts := by
  induction ts generalizing m n with
  | nil => exact h
  | cons t ts ih =>
    simp only [openAfter]
    split
    · exact ih (Nat.add_le_add_right h 1)
    · exact ih (Nat.sub_le_sub_right h 1)
    · exact ih h

/-- What is closed with more braces open is closed with fewer. -/
theorem openAfter_eq_zero_of_le {m n : Nat} (h : m ≤ n) {ts : List Token}
    (hn : openAfter n ts = 0) : openAfter m ts = 0 := by
  have := openAfter_mono h ts
  omega

theorem openAfter_tail {t : Token} {ts : List Token} (h : openAfter 0 (t :: ts) = 0) :
    openAfter 0 ts = 0 := by
  simp only [openAfter] at h
  split at h
  · exact openAfter_eq_zero_of_le (Nat.zero_le _) h
  · exact h
  · exact h

/-! ### Faults found at the end -/

/-- The fault, found at the token `t` instead. What is wrong with a single lexeme
is wrong where that stands, and does not move. -/
def Fault.movedTo (t : Token) (f : Fault) : Fault :=
  match f.tier with
  | .lexical => f
  | .syntactic => ⟨f.cause.respelled t.value, t.position⟩

/-- The faults of a journal in front of which `n` tokens are left to consume,
those found behind the last of these tokens moved to `t`. -/
def faultsEndingAt (t : Token) : Nat → List Event → List Fault
  | _, [] => []
  | n, .reported f :: es => (if n = 0 then f.movedTo t else f) :: faultsEndingAt t n es
  | n, .consumed _ :: es => faultsEndingAt t (n - 1) es
  | n, _ :: es => faultsEndingAt t n es

theorem faultsEndingAt_append (t : Token) (n : Nat) (es fs : List Event) :
    faultsEndingAt t n (es ++ fs) =
      faultsEndingAt t n es ++ faultsEndingAt t (n - (consumedIn es).length) fs := by
  induction es generalizing n with
  | nil => rfl
  | cons e es ih =>
    cases e <;>
      simp [faultsEndingAt, ih, Event.consumed?, Nat.sub_sub, Nat.add_comm]

theorem faultsEndingAt_of_pos (t : Token) {n : Nat} (hn : 0 < n) {es : List Event}
    (h : consumedIn es = []) : faultsEndingAt t n es = faultsIn es := by
  induction es with
  | nil => rfl
  | cons e es ih =>
    have hn' : n ≠ 0 := by omega
    cases e <;> simp_all [faultsEndingAt, Event.consumed?, Event.fault?]

namespace Session

/-- The diagnostics of a parse if the token `t` stands behind the source's last
one: those that the parser raises behind all tokens are raised at `t`. -/
def diagnosticsEndingAt (s : Session) (t : Token) : List Diagnostic :=
  let found := (Parser.program s.table s.cursor).events
  (faultsIn s.journal ++ faultsEndingAt t s.cursor.left found).map (.ofFault s.file)

end Session

/-! ### Two texts in a row -/

theorem length_tokensAhead_append_le (xs ys : List Item) :
    (tokensAhead xs).length ≤ (tokensAhead (xs ++ ys)).length := by
  induction xs with
  | nil => exact Nat.zero_le _
  | cons x xs ih =>
    cases x with
    | token t =>
      by_cases h : t.kind = .endOfInput
      · simp [tokensAhead, h]
      · simpa [tokensAhead, h] using ih
    | fault f => exact ih

section Followed

variable {cls : Token} {ys : List Item} {e e' : EndToken}

/-- Taking a token from the first text: the same one is taken if more follows,
or else the first text has ended and the `class` is taken. -/
theorem pull_append (cls : Token) (ys : List Item) (e e' : EndToken) {xs : List Item}
    (h : NoEnd xs) :
    (∃ t rest es, Cursor.pull e xs = (t, rest, es) ∧
      Cursor.pull e' (xs ++ .token cls :: ys) = (t, rest ++ .token cls :: ys, es) ∧
      t.kind ≠ .endOfInput ∧ NoEnd rest) ∨
    ∃ es, Cursor.pull e xs = (e.token, [], es) ∧
      Cursor.pull e' (xs ++ .token cls :: ys) = (cls, ys, es ++ [.delivered cls]) := by
  induction xs with
  | nil => exact .inr ⟨[], rfl, rfl⟩
  | cons x xs ih =>
    have hxs : NoEnd xs := fun t ht => h t (List.mem_cons_of_mem _ ht)
    cases x with
    | token t => exact .inl ⟨t, xs, _, rfl, rfl, h t List.mem_cons_self, hxs⟩
    | fault f =>
      rcases ih hxs with ⟨t, rest, es, h1, h2, ht, hrest⟩ | ⟨es, h1, h2⟩
      · exact .inl ⟨t, rest, .reported f :: es, by simp [Cursor.pull, h1],
          by simp [Cursor.pull, h2], ht, hrest⟩
      · exact .inr ⟨.reported f :: es, by simp [Cursor.pull, h1], by simp [Cursor.pull, h2]⟩

/-- The first run reads the first text alone, the second one the two in a row,
and they have got to the same point. -/
inductive Followed (cls : Token) (ys : List Item) (e e' : EndToken) : Cursor → Cursor → Prop where
  /-- Both are inside the first text, which closes its braces. -/
  | inside {t : Token} {rest : List Item} {k : Nat} (ht : t.kind ≠ .endOfInput)
      (hrest : NoEnd rest) (hclosed : openAfter 0 (t :: tokensAhead rest) = 0) :
      Followed cls ys e e' ⟨t, rest, e, k⟩ ⟨t, rest ++ .token cls :: ys, e', k⟩
  /-- Both have got to its end. -/
  | atEnd {k : Nat} : Followed cls ys e e' ⟨e.token, [], e, k⟩ ⟨cls, ys, e', k⟩

/-- After a token has been taken the two runs are at the same point again. -/
theorem Followed.of_pull (cls : Token) (ys : List Item) (e e' : EndToken) {xs : List Item}
    (h : NoEnd xs) (hclosed : openAfter 0 (tokensAhead xs) = 0) (k : Nat) :
    let taken := Cursor.pull e xs
    let taken' := Cursor.pull e' (xs ++ .token cls :: ys)
    Followed cls ys e e' ⟨taken.1, taken.2.1, e, k⟩ ⟨taken'.1, taken'.2.1, e', k⟩ ∧
      faultsIn taken'.2.2 = faultsIn taken.2.2 := by
  intro taken taken'
  rcases pull_append cls ys e e' h with ⟨t, rest, es, h1, h2, ht, hrest⟩ | ⟨es, h1, h2⟩
  · have hahead := Cursor.tokensAhead_pull e xs
    rw [h1] at hahead
    simp only [tokensAhead, if_neg ht] at hahead
    simp only [taken, taken', h1, h2]
    exact ⟨.inside ht hrest (by rw [hahead]; exact hclosed), trivial⟩
  · simp only [taken, taken', h1, h2]
    exact ⟨.atEnd, by simp [Event.fault?]⟩

theorem Followed.closed {c d : Cursor} (h : Followed cls ys e e' c d) :
    openAfter 0 c.upcoming = 0 := by
  cases h with
  | inside ht hrest hclosed =>
    rw [Cursor.upcoming_of_ne ht]
    exact hclosed
  | atEnd =>
    rw [Cursor.upcoming_eq_nil_iff.2 e.isEnd]
    rfl

/-- Both runs consume the current token of the first text. -/
theorem Followed.advance {c d : Cursor} (h : Followed cls ys e e' c d)
    (hk : c.current.kind ≠ .endOfInput) :
    Followed cls ys e e' c.advance.1 d.advance.1 ∧ faultsIn d.advance.2 = faultsIn c.advance.2 := by
  cases h with
  | inside ht hrest hclosed =>
    obtain ⟨hnear, hfaults⟩ := Followed.of_pull cls ys e e' hrest (openAfter_tail hclosed) _
    simp only [Cursor.advance, if_neg ht, faultsIn_append]
    exact ⟨hnear, congrArg (· ++ _) hfaults⟩
  | atEnd => exact absurd e.isEnd hk

theorem openAfter_upcoming_advance {c : Cursor} (h : c.current.kind ≠ .endOfInput) (n : Nat) :
    openAfter n c.upcoming =
      match c.current.kind with
      | .openCurly => openAfter (n + 1) c.advance.1.upcoming
      | .closeCurly => openAfter (n - 1) c.advance.1.upcoming
      | _ => openAfter n c.advance.1.upcoming := by
  rw [Cursor.upcoming_advance, Cursor.upcoming_of_ne h]
  rfl

/-- How the faults of the two runs match: at the end of the first text they are
moved to the `class`. The first run's own are found at its end token. -/
def Moved (cls : Token) (e : EndToken) (c : Cursor) (f g : Fault) : Prop :=
  if c.left = 0 then g = f.movedTo cls ∧ f.movedTo e.token = f else g = f

theorem Followed.moved_here {c d : Cursor} (h : Followed cls ys e e' c d) {cause : String → Cause}
    (hs : Spelling cause) :
    Moved cls e c ⟨cause c.current.value, c.current.position⟩
      ⟨cause d.current.value, d.current.position⟩ := by
  have hmoved : ∀ t t' : Token, Fault.movedTo t' ⟨cause t.value, t.position⟩ =
      ⟨cause t'.value, t'.position⟩ := by
    intro t t'
    obtain ⟨htier, hspell⟩ := hs t.value
    simp only [Fault.movedTo, Fault.tier, htier, hspell]
  unfold Moved
  cases h with
  | inside ht _ _ =>
    rw [if_neg fun h0 => ht (Cursor.left_eq_zero_iff.1 h0)]
  | atEnd =>
    rw [if_pos (Cursor.left_eq_zero_iff.2 e.isEnd)]
    exact ⟨(hmoved e.token cls).symm, hmoved e.token e.token⟩

theorem Moved.of_lexical {c : Cursor} {f : Fault} (h : f.tier = .lexical) : Moved cls e c f f := by
  have hmoved : ∀ t, f.movedTo t = f := by
    intro t
    simp only [Fault.movedTo, h]
  unfold Moved
  split
  · exact ⟨(hmoved cls).symm, hmoved e.token⟩
  · rfl

/-- How the journals of the two runs match: what the first one reports at its
end token the second one reports at the `class`. -/
def Retold (cls : Token) (e : EndToken) (c : Cursor) (es fs : List Event) : Prop :=
  faultsIn fs = faultsEndingAt cls c.left es ∧ faultsIn es = faultsEndingAt e.token c.left es

theorem Retold.append {c d : Cursor} {es fs es' fs' : List Event} (hr : c.Reaches es d)
    (h : Retold cls e c es fs) (h' : Retold cls e d es' fs') :
    Retold cls e c (es ++ es') (fs ++ fs') := by
  have hleft := hr.left_add
  have hsub : c.left - (consumedIn es).length = d.left := by omega
  unfold Retold
  rw [faultsEndingAt_append, faultsEndingAt_append, hsub, faultsIn_append, faultsIn_append,
    h.1, h'.1, ← h.2, ← h'.2]
  exact ⟨rfl, rfl⟩

theorem Retold.of_note {c : Cursor} {ev : Event} (hc : ev.consumed? = none)
    (hf : ev.fault? = none) : Retold cls e c [ev] [ev] := by
  cases ev with
  | consumed t => cases hc
  | reported f => cases hf
  | _ => exact ⟨rfl, rfl⟩

theorem Retold.of_moved {c : Cursor} {f g : Fault} (h : Moved cls e c f g) :
    Retold cls e c [.reported f] [.reported g] := by
  unfold Moved at h
  split at h
  · next h0 => simp [Retold, faultsEndingAt, Event.fault?, h0, h.1, h.2]
  · next h0 => simp [Retold, faultsEndingAt, Event.fault?, h0, h]

theorem Retold.of_advance {c d : Cursor} (h : Followed cls ys e e' c d)
    (hk : c.current.kind ≠ .endOfInput) : Retold cls e c c.advance.2 d.advance.2 := by
  have hpos : 0 < c.left := by
    have := mt Cursor.left_eq_zero_iff.1 hk
    omega
  have hsame : ∀ t, faultsEndingAt t c.left c.advance.2 = faultsIn c.advance.2 := by
    intro t
    simp only [Cursor.advance, if_neg hk, faultsEndingAt_append, faultsIn_append]
    rw [faultsEndingAt_of_pos t hpos (Cursor.consumedIn_pull _ _)]
    rfl
  unfold Retold
  rw [hsame, hsame]
  exact ⟨(h.advance hk).2, rfl⟩

theorem Followed.left_le {c d : Cursor} (h : Followed cls ys e e' c d) : c.left ≤ d.left := by
  cases h with
  | inside _ _ _ => exact length_tokensAhead_append_le (.token _ :: _) _
  | atEnd =>
    rw [Cursor.left_eq_zero_iff.2 e.isEnd]
    exact Nat.zero_le _

theorem Followed.consumed_eq {c d : Cursor} (h : Followed cls ys e e' c d) :
    d.consumed = c.consumed := by
  cases h with
  | inside _ _ _ => rfl
  | atEnd => rfl

theorem Followed.current_or (hcls : cls.kind = .classWord) {c d : Cursor}
    (h : Followed cls ys e e' c d) : d.current = c.current ∨
      (c.current.kind = .endOfInput ∧ d.current.kind = .classWord) := by
  cases h with
  | inside => exact .inl rfl
  | atEnd => exact .inr ⟨e.isEnd, hcls⟩

theorem openAfter_of_openCurly {c : Cursor} {n : Nat} (hk : c.current.kind = .openCurly)
    (h : openAfter n c.upcoming = 0) : openAfter (n + 1) c.advance.1.upcoming = 0 := by
  rw [openAfter_upcoming_advance (hk ▸ nofun), hk] at h
  exact h

theorem openAfter_of_closeCurly {c : Cursor} {n : Nat} (hk : c.current.kind = .closeCurly)
    (h : openAfter (n + 1) c.upcoming = 0) : openAfter n c.advance.1.upcoming = 0 := by
  rw [openAfter_upcoming_advance (hk ▸ nofun), hk] at h
  exact h

theorem openAfter_of_other {c : Cursor} {n : Nat} (hend : c.current.kind ≠ .endOfInput)
    (hopen : c.current.kind ≠ .openCurly) (hclose : c.current.kind ≠ .closeCurly)
    (h : openAfter n c.upcoming = 0) : openAfter n c.advance.1.upcoming = 0 := by
  rw [openAfter_upcoming_advance hend] at h
  split at h
  · next hk => exact absurd hk hopen
  · next hk => exact absurd hk hclose
  · exact h

theorem openAfter_of_end {c : Cursor} {n : Nat} (hk : c.current.kind = .endOfInput)
    (h : openAfter n c.upcoming = 0) : n = 0 := by
  rw [Cursor.upcoming_eq_nil_iff.2 hk] at h
  exact h

/-- The first run reads a text that closes its braces, the second one the same
text and then a `class` with more behind it. -/
def World.followed (cls : Token) (hcls : cls.kind = .classWord) (ys : List Item)
    (e e' : EndToken) : World where
  near := Followed cls ys e e'
  said := Retold cls e
  blames := Moved cls e
  closes c n := openAfter n c.upcoming = 0
  offset := 0
  said_nil _ := ⟨rfl, rfl⟩
  said_append := Retold.append
  said_note _ := Retold.of_note
  said_report _ := Retold.of_moved
  said_advance := Retold.of_advance
  near_advance h hk := (h.advance hk).1
  left_le := Followed.left_le
  consumed_eq := Followed.consumed_eq
  current_or := Followed.current_or hcls
  blames_here h hs := h.moved_here hs
  blames_number _ _ _ := .of_lexical rfl
  closes_zero h := h.closed
  closes_open _ := openAfter_of_openCurly
  closes_close _ := openAfter_of_closeCurly
  closes_other _ := openAfter_of_other
  closes_end _ hk _ := openAfter_of_end hk

end Followed

/-! ### The classes of both -/

section Classes

open BantamJava.Parser

variable {cls : Token} {ys : List Item} {e e' : EndToken} {table : StmtTable}

theorem classes_of_end {c : Cursor} (h : c.current.kind = .endOfInput) :
    classes table c = ⟨.ok [], c, []⟩ := by
  rw [classes_eq, collectRound, run_kind_bind, h]
  rfl

theorem classes_of_ne {c : Cursor} (h : c.current.kind ≠ .endOfInput) :
    classes table c = (do
      let found ← recovering (classDecl table) resumeClass
      let others ← classes table
      pure (found.toList ++ others) : Parser (List Class)) c := by
  have hgo : (c.current.kind == .endOfInput) = false := beq_eq_false_iff_ne.2 h
  exact (congrArg (fun p => p.run c) (classes_eq table)).trans (run_collectRound hgo)

/-- **The loop over the classes of two texts in a row** finds what it finds in
the first, and then what it finds from the `class` on. -/
theorem World.classes_followed (table : StmtTable)
    (htable : table .endOfInput = none ∧ table .classWord = none) (hcls : cls.kind = .classWord)
    {c d : Cursor} (h : Followed cls ys e e' c d) :
    let W := World.followed cls hcls ys e e'
    ∃ (k : Nat) (as bs : List Class) (es : List Event),
      (classes table c).outcome = .ok as ∧
      (classes table ⟨cls, ys, e', k⟩).outcome = .ok bs ∧
      (classes table d).outcome = .ok (as ++ bs) ∧
      (classes table d).events = es ++ (classes table ⟨cls, ys, e', k⟩).events ∧
      W.said c (classes table c).events es := by
  intro W
  generalize hn : c.left = n
  induction n using Nat.strongRecOn generalizing c d with
  | ind n ih =>
    by_cases hend : c.current.kind = .endOfInput
    · cases h with
      | inside ht => exact absurd hend ht
      | @atEnd k =>
        rw [classes_of_end hend]
        obtain ⟨⟨bs, hbs⟩, -⟩ := classes_ends table ⟨cls, ys, e', k⟩
        exact ⟨k, [], bs, [], rfl, hbs, hbs, rfl, W.said_nil _⟩
    · have htogether : d.current = c.current := W.together_of_ne h hend
      have hmatch := World.classTurn_lockstep (W := W) (n := c.left + 1) (.inr htable) c d h
        (Nat.lt_succ_self _) htogether
      obtain ⟨found, hfound⟩ := recovering_ok (p := classDecl table) resumeClass_ok c
      have hfound' := hmatch.outcome
      rw [hfound] at hfound'
      generalize hd : ((classDecl table).recovering resumeClass d).outcome = found' at hfound'
      cases hfound' with
      | ok =>
        obtain ⟨k, as, bs, es, has, hbs, hboth, hes, hsaid⟩ :=
          ih _ (hn ▸ left_classTurn_lt table hend) hmatch.near rfl
        rw [classes_of_ne hend, classes_of_ne (htogether ▸ hend), run_bind_ok _ hfound,
          run_bind_ok _ hd, run_bind_ok _ has, run_bind_ok _ hboth]
        refine ⟨k, found.toList ++ as, bs, _ ++ es, rfl, hbs, ?_, ?_,
          W.said_append ((recovering (classDecl table) resumeClass).reaches c) hmatch.said ?_⟩
        · simp
        · simp [hes]
        · simpa using hsaid

/-- From the `class` on, the count of tokens consumed before it makes no
difference. -/
theorem classes_countedFrom (table : StmtTable) (c : Cursor) (k : Nat) :
    (classes table (c.countedFrom k)).outcome = (classes table c).outcome ∧
      (classes table (c.countedFrom k)).events = (classes table c).events := by
  have hloop : (World.shifted k).Lockstep (c.left + 1) (classes table) (classes table) := by
    refine World.collect_lockstep (.inl (World.shifted_faithful k)) ?_
      (left_classTurn_lt_of_stop table)
    refine (World.classTurn_lockstep (.inl (World.shifted_faithful k))).weaken ?_
    exact fun c d h _ => World.shifted_faithful k c d h
  obtain ⟨-, hevents, houtcome⟩ :=
    (hloop c (c.countedFrom k) rfl (Nat.lt_succ_self _) trivial).eq_of_shifted
  exact ⟨houtcome, hevents⟩

end Classes

/-! ### Sessions -/

namespace Session

open BantamJava.Parser

theorem diagnosticsEndingAt_eq {s : Session} {as : List Class}
    (h : (classes s.table s.cursor).outcome = .ok as) (t : Token) :
    s.diagnosticsEndingAt t = (faultsIn s.journal ++
      faultsEndingAt t s.cursor.left (classes s.table s.cursor).events).map (.ofFault s.file) := by
  rw [diagnosticsEndingAt, run_program h]

end Session

open BantamJava.Parser in
/-- **A faulty class does not disturb the next one.** Let the items `xs` hold no
end token, and close every brace that they open. Followed by a `class` and more,
they are parsed to the classes of `xs` alone and then the classes of the rest
alone. The diagnostics are those of `xs` alone, except that what was raised at
its end token is raised at the `class`, and then those of the rest alone. -/
theorem parse_append_class (file : String) (xs ys : List Item) (cls : Token) (e e' : EndToken)
    (hcls : cls.kind = .classWord) (hxs : NoEnd xs) (hclosed : openAfter 0 (tokensAhead xs) = 0) :
    let first := Session.start file ⟨xs, e⟩
    let second := Session.start file ⟨.token cls :: ys, e'⟩
    let both := Session.start file ⟨xs ++ .token cls :: ys, e'⟩
    both.parse.1.classes = first.parse.1.classes ++ second.parse.1.classes ∧
    both.parse.2.diagnostics = first.diagnosticsEndingAt cls ++ second.parse.2.diagnostics ∧
    first.parse.2.diagnostics = first.diagnosticsEndingAt e.token := by
  intro first second both
  obtain ⟨hnear, hfaults⟩ := Followed.of_pull cls ys e e' hxs hclosed 0
  obtain ⟨k, as, bs, es, has, hbs, hboth, hes, hsaid⟩ :=
    World.classes_followed .standard ⟨rfl, rfl⟩ hcls hnear
  -- the rest alone starts at the same `class`, with no tokens counted yet
  have hcursor : second.cursor.countedFrom k = ⟨cls, ys, e', k⟩ := by
    simp [second, Session.start, Cursor.ofSource, Cursor.pull, Cursor.countedFrom]
  obtain ⟨houtcome, hevents⟩ := classes_countedFrom .standard second.cursor k
  rw [hcursor] at houtcome hevents
  have hfirst : (classes first.table first.cursor).outcome = .ok as := has
  have hsecond : (classes second.table second.cursor).outcome = .ok bs := houtcome.symm.trans hbs
  have hwhole : (classes both.table both.cursor).outcome = .ok (as ++ bs) := hboth
  have hfound : faultsIn (classes both.table both.cursor).events =
      faultsEndingAt cls first.cursor.left (classes first.table first.cursor).events ++
        faultsIn (classes second.table second.cursor).events := by
    rw [show (classes both.table both.cursor).events = _ from hes, faultsIn_append, hsaid.1,
      hevents]
    rfl
  have hjournal : faultsIn both.journal = faultsIn first.journal := hfaults
  have hquiet : faultsIn second.journal = [] := rfl
  refine ⟨?_, ?_, ?_⟩
  · rw [Session.classes_parse hwhole, Session.classes_parse hfirst, Session.classes_parse hsecond]
  · rw [Session.diagnostics_parse hwhole, Session.diagnostics_parse hsecond,
      Session.diagnosticsEndingAt_eq hfirst, hfound, hjournal, hquiet, List.nil_append,
      ← List.append_assoc, List.map_append]
    rfl
  · rw [Session.diagnostics_parse hfirst, Session.diagnosticsEndingAt_eq hfirst]
    exact congrArg (fun fs => (faultsIn first.journal ++ fs).map _) hsaid.2

/-- A class without a body is missed at the next `class`, behind the fault of a
lexeme that stays where it is. -/
theorem parse_append_class_unfinished :
    let xs : List Item := [.token ⟨.classWord, "class", ⟨1, 1⟩⟩, .fault ⟨.unrecognised "#", ⟨1, 7⟩⟩,
      .token ⟨.identifier, "A", ⟨1, 8⟩⟩]
    let cls : Token := ⟨.classWord, "class", ⟨2, 1⟩⟩
    let ys : List Item := [.token ⟨.identifier, "B", ⟨2, 7⟩⟩, .token ⟨.openCurly, "\x7b", ⟨2, 9⟩⟩,
      .token ⟨.closeCurly, "\x7d", ⟨2, 10⟩⟩]
    let e : EndToken := ⟨.atEnd ⟨1, 9⟩, rfl⟩
    let e' : EndToken := ⟨.atEnd ⟨2, 11⟩, rfl⟩
    NoEnd xs ∧ openAfter 0 (tokensAhead xs) = 0 ∧
    ((Session.start "a" ⟨xs ++ .token cls :: ys, e'⟩).parse.1.classes =
      (Session.start "a" ⟨xs, e⟩).parse.1.classes ++
        (Session.start "a" ⟨.token cls :: ys, e'⟩).parse.1.classes) ∧
    (Session.start "a" ⟨xs ++ .token cls :: ys, e'⟩).parse.2.diagnostics.map (·.fault) =
      [⟨.unrecognised "#", ⟨1, 7⟩⟩, ⟨.expected .openCurly "class", ⟨2, 1⟩⟩] := by
  intro xs cls ys e e'
  have hxs : NoEnd xs := by
    intro t ht
    simp only [xs, List.mem_cons, List.not_mem_nil, Item.token.injEq, reduceCtorEq, false_or,
      or_false] at ht
    rcases ht with rfl | rfl <;> decide
  have hclosed : openAfter 0 (tokensAhead xs) = 0 := rfl
  obtain ⟨hc, hd, -⟩ := parse_append_class "a" xs ys cls e e' rfl hxs hclosed
  refine ⟨hxs, hclosed, hc, ?_⟩
  rw [hd]
  decide +kernel
end BantamJava
