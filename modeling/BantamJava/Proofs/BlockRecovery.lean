/-
# Recovery stays inside its braces

A block whose braces are balanced is read from its opening to its closing brace,
however faulty the statements between them are. Parsing and recovery consume
braces in pairs: an expression has none, the part of recovery that skips to the
end of a statement stops in front of them, and a token that recovery consumes
unseen is no brace, since a statement that starts with a brace never fails in
front of it. So all that is consumed inside a block is balanced, and the loop
over its statements can stop at its own closing brace only.

Statements and recovery call each other, always behind a consumed token. The
invariant is carried through both by induction on the number of tokens left
(`NestedBelow`).

Key definitions: `Balanced`, `Cursor.Enclosed`, `Nests`, `NestedBelow`.
Key theorems: `Balanced.suffix`, `run_block_of_nests`, `nestedBelow`,
`block_recovers`.
-/
import BantamJava.Proofs.Trait.Grammar

namespace BantamJava

/-! ### Balanced braces -/

/-- The braces of the tokens are balanced: each one that is opened is closed behind
it, and none is closed that was not opened. -/
inductive Balanced : List Token → Prop where
  | nil : Balanced []
  | other {t : Token} {w : List Token} (ho : t.kind ≠ .openCurly) (hc : t.kind ≠ .closeCurly)
    (hw : Balanced w) : Balanced (t :: w)
  | braces {o c : Token} {v w : List Token} (ho : o.kind = .openCurly) (hv : Balanced v)
    (hc : c.kind = .closeCurly) (hw : Balanced w) : Balanced (o :: (v ++ c :: w))

namespace Balanced

variable {o c t : Token} {u v w k : List Token}

theorem append (hv : Balanced v) (hw : Balanced w) : Balanced (v ++ w) := by
  induction hv with
  | nil => exact hw
  | other ho hc _ ih => exact .other ho hc ih
  | braces ho hv hc _ _ ih =>
    rw [List.cons_append, List.append_assoc, List.cons_append]
    exact .braces ho hv hc ih

theorem of_unbraced (h : ∀ t ∈ w, t.kind ≠ .openCurly ∧ t.kind ≠ .closeCurly) : Balanced w := by
  induction w with
  | nil => exact .nil
  | cons t w ih =>
    obtain ⟨ho, hc⟩ := h t List.mem_cons_self
    exact .other ho hc (ih fun s hs => h s (List.mem_cons_of_mem _ hs))

theorem head_ne (h : Balanced (t :: w)) : t.kind ≠ .closeCurly := by
  cases h with
  | other _ hc _ => exact hc
  | braces ho _ _ _ => exact ho ▸ nofun

theorem tail (h : Balanced (t :: w)) (ho : t.kind ≠ .openCurly) : Balanced w := by
  cases h with
  | other _ _ hw => exact hw
  | braces ho' _ _ _ => exact absurd ho' ho

theorem opened (h : Balanced (o :: w)) (ho : o.kind = .openCurly) :
    ∃ v c u, w = v ++ c :: u ∧ Balanced v ∧ c.kind = .closeCurly ∧ Balanced u := by
  cases h with
  | other ho' _ _ => exact absurd ho ho'
  | @braces _ c v u _ hv hc hu => exact ⟨v, c, u, rfl, hv, hc, hu⟩

/-- In front of the closing brace behind balanced tokens, balanced tokens leave
balanced ones. -/
theorem suffix (hv : Balanced v) (hw : Balanced w) (hc : c.kind = .closeCurly)
    (h : v ++ u = w ++ c :: k) : ∃ w', w = v ++ w' ∧ Balanced w' ∧ u = w' ++ c :: k := by
  induction hv generalizing w u c k with
  | nil => exact ⟨w, rfl, hw, h⟩
  | @other t v ho hc' _ ih =>
    cases w with
    | nil =>
      obtain ⟨rfl, -⟩ := List.cons.inj h
      exact absurd hc hc'
    | cons s w =>
      obtain ⟨rfl, hvw⟩ := List.cons.inj h
      obtain ⟨w', rfl, hw', hu⟩ := ih (hw.tail ho) hc hvw
      exact ⟨w', rfl, hw', hu⟩
  | @braces o c' v v' ho _ hc' _ ihv ihv' =>
    cases w with
    | nil =>
      obtain ⟨rfl, -⟩ := List.cons.inj h
      rw [ho] at hc
      cases hc
    | cons s w =>
      obtain ⟨rfl, hrest⟩ := List.cons.inj h
      obtain ⟨x, d, y, rfl, hx, hd, hy⟩ := hw.opened ho
      -- the two closing braces are the same: no balanced word starts with one
      obtain ⟨x', rfl, hx', hu⟩ := ihv hx hd (u := c' :: (v' ++ u)) (k := y ++ c :: k)
        (by simpa using hrest)
      cases x' with
      | cons s x' =>
        obtain ⟨rfl, -⟩ := List.cons.inj hu
        exact absurd hc' hx'.head_ne
      | nil =>
        obtain ⟨rfl, hrest'⟩ := List.cons.inj hu
        obtain ⟨y', rfl, hy', hu'⟩ := ihv' hy hc hrest'
        exact ⟨y', by simp, hy', hu'⟩

end Balanced

/-- No token of the list is a `class`. -/
def Classless (w : List Token) : Prop := ∀ t ∈ w, t.kind ≠ .classWord

instance (w : List Token) : Decidable (Classless w) :=
  inferInstanceAs (Decidable (∀ t ∈ w, t.kind ≠ .classWord))

/-- What lies ahead, up to the closing brace of the innermost block, is balanced
and holds no `class`. -/
def Cursor.Enclosed (c : Cursor) : Prop :=
  ∃ w close k, c.upcoming = w ++ close :: k ∧ Balanced w ∧ Classless w ∧ close.kind = .closeCurly

theorem Cursor.Reaches.enclosed {c d : Cursor} {es : List Event} (h : c.Reaches es d)
    (hes : Balanced (consumedIn es)) (hc : c.Enclosed) : d.Enclosed := by
  obtain ⟨w, close, k, hup, hw, hclass, hclose⟩ := hc
  obtain ⟨w', rfl, hw', hd⟩ := hes.suffix hw hclose (h.tokens.symm.trans hup)
  exact ⟨w', close, k, hd, hw', fun t ht => hclass t (List.mem_append_right _ ht), hclose⟩

/-! ### Parsers that consume braces in pairs -/

open BantamJava.Parser

/-- In a block, the parser consumes balanced tokens. -/
def Nests {α : Type} (p : Parser α) (c : Cursor) : Prop :=
  c.Enclosed → Balanced (consumedIn (p c).events)

namespace Nests

variable {α β : Type} {c : Cursor} {p : Parser α} {f : α → Parser β}

theorem bind (hp : Nests p c) (hf : ∀ a, (p c).outcome = .ok a → Nests (f a) (p c).cursor) :
    Nests (p >>= f) c := by
  intro hc
  cases ha : (p c).outcome with
  | ok a =>
    rw [run_bind_ok f ha, consumedIn_append]
    exact (hp hc).append (hf a ha ((p.reaches c).enclosed (hp hc) hc))
  | error e =>
    rw [run_bind_error f ha]
    exact hp hc

theorem of_pure (a : α) : Nests (pure a) c := fun _ => .nil

theorem of_kind {f : Kind → Parser β} (h : Nests (f c.current.kind) c) :
    Nests (kind >>= f) c :=
  bind (p := kind) (fun _ => .nil) fun _ hk => Except.ok.inj hk ▸ h

theorem of_consumed {f : Nat → Parser β} (h : Nests (f c.consumed) c) :
    Nests (consumed >>= f) c :=
  bind (p := consumed) (fun _ => .nil) fun _ hn => Except.ok.inj hn ▸ h

/-- A fault that is caught and reported. -/
theorem of_attempt {f : Except Fault α → Parser β} {g : Fault → Parser β}
    (hf : ∀ e, f (.error e) = report e >>= fun _ => g e) (hp : Nests p c)
    (hok : ∀ a, Nests (f (.ok a)) (p c).cursor) (herror : ∀ e, Nests (g e) (p c).cursor) :
    Nests (attempt p >>= f) c := by
  refine bind (p := attempt p) hp fun r hr => ?_
  obtain rfl : (p c).outcome = r := Except.ok.inj hr
  cases (p c).outcome with
  | ok a => exact hok a
  | error e =>
    rw [hf e]
    exact bind (p := report e) (fun _ => .nil) fun _ _ => herror e

end Nests

/-- No brace. -/
def Unbraced (k : Kind) : Prop := k ≠ .openCurly ∧ k ≠ .closeCurly

instance (k : Kind) : Decidable (Unbraced k) := inferInstanceAs (Decidable (_ ∧ _))

theorem unbraced_allows : (Trait.within Unbraced).AllowsUnbraced := fun _ ho hc => ⟨ho, hc⟩

/-- What consumes no brace consumes balanced tokens. -/
theorem nests_of_unbraced {α : Type} {p : Parser α} {c : Cursor}
    (h : (Trait.within Unbraced).holds p c) : Nests p c :=
  fun _ => .of_unbraced h

theorem nests_advance {c : Cursor} (h : Unbraced c.current.kind) : Nests advance c :=
  nests_of_unbraced ((Trait.within Unbraced).holds_advance fun _ => h)

theorem nests_skip {c : Cursor} (h : Unbraced c.current.kind) : Nests skip c :=
  (nests_advance h).bind fun _ _ => .of_pure ()

theorem nests_expect {k : Kind} {c : Cursor} (h : Unbraced k) : Nests (expect k) c :=
  nests_of_unbraced (Trait.has_expect (T := Trait.within Unbraced) h c)

/-! ### Loops and recovery succeed -/

namespace Parser

theorem skipStmt_ok (c : Cursor) : (skipStmt c).outcome = .ok () := by
  generalize hn : c.left = n
  induction n using Nat.strongRecOn generalizing c with
  | ind n ih =>
    rw [(terminates .standard).ofSkipStmt.unfolds, skipStmtRound, run_kind_bind]
    split
    · rfl
    · next hk =>
      split
      · rfl
      · split
        · rfl
        · have hl := left_skip_lt hk
          rw [run_bind_ok (p := skip) (a := ()) _ rfl]
          exact ih _ (hn ▸ hl) _ rfl

theorem leaveStmt_ok (start : Nat) (c : Cursor) : (leaveStmt start c).outcome = .ok () := by
  obtain ⟨b, hb⟩ := forceStep_ok start c
  rw [leaveStmt, run_bind_ok _ hb]
  cases b with
  | true => rfl
  | false => exact skipStmt_ok _

theorem resumeStmt_ok (table : StmtTable) (start : Nat) (c : Cursor) :
    (resumeStmt table start c).outcome = .ok () := by
  generalize hn : c.left = n
  induction n using Nat.strongRecOn generalizing start c with
  | ind n ih =>
    rw [resumeStmt_eq, resumeRound, run_bind_ok _ (leaveStmt_ok start c)]
    generalize hd : (leaveStmt start c).cursor = d
    have hdc : d.left ≤ c.left := hd ▸ (leaveStmt start).left_le c
    rw [skipElse, run_kind_bind]
    split
    · next hk =>
      have hl := left_skip_lt (c := d) (by rw [hk]; decide)
      rw [run_bind_ok (p := note .skippingElse) (a := ()) _ rfl,
        run_bind_ok (p := skip) (a := ()) _ rfl, run_consumed_bind,
        run_bind_ok (p := attempt _) _ rfl]
      generalize he : (skip ((note .skippingElse) d).cursor).cursor = e
      have hed : e.left < d.left := he ▸ hl
      have hle := (stmt table).left_le e
      show ((_ : Parser Unit) (stmt table e).cursor).outcome = _
      cases (stmt table e).outcome with
      | ok a => rfl
      | error f =>
        rw [run_bind_ok (p := report f) (a := ()) _ rfl, run_kind_bind, run_consumed_bind]
        split
        · exact ih (stmt table e).cursor.left (by omega) _ _ rfl
        · rfl
    · rfl

/-- The loop over the statements of a block ends where the block does. -/
theorem stmts_end (table : StmtTable) (c : Cursor) :
    (∃ stmts, (stmtsWith (stmt table) c).outcome = .ok stmts) ∧
      endsBody (stmtsWith (stmt table) c).cursor.current.kind = true :=
  collect_ends endsBody (fun _ => left_stmtTurn_lt (stmt_consuming table))
    (recovering_ok (resumeStmt_ok table)) c

theorem run_expect_of_kind {k : Kind} {c : Cursor} (h : c.current.kind = k) :
    expect k c = ⟨.ok c.current, c.advance.1, c.advance.2⟩ := by
  rw [expect, run_expectElse, if_pos h]
  rfl

theorem run_closeBody {c : Cursor} (h : c.current.kind = .closeCurly) :
    closeBody c = ⟨.ok (), c.advance.1, c.advance.2⟩ := by
  rw [closeBody, run_bind_ok (p := attempt _) _ rfl]
  simp only [attempt, run_expect_of_kind h, run_pure, List.append_nil]

/-- A statement that starts with a brace consumes it. -/
theorem left_stmt_lt {c : Cursor} (h : c.current.kind = .openCurly) :
    (stmt .standard c).cursor.left < c.left := by
  have hexpect : (expect .openCurly c).cursor = c.advance.1 := by rw [run_expect_of_kind h]
  have hlt := Cursor.left_advance_lt (c := c) (h ▸ nofun)
  rw [stmt_eq, stmtWith, run_kind_bind, h]
  calc (blockStmt (stmt .standard) c).cursor.left
      ≤ (blockWith (stmt .standard) c).cursor.left := left_bind_le _ _ _
    _ ≤ (expect .openCurly c).cursor.left := left_bind_le _ _ _
    _ < c.left := by rwa [hexpect]

end Parser

/-! ### Inside a block -/

section Block

variable {c : Cursor} {w k : List Token} {o close : Token}

/-- The loop over the statements of a block consumes all that is in it. -/
theorem stmts_consume_of_nests (h : Nests (stmtsWith (stmt .standard)) c)
    (hup : c.upcoming = w ++ close :: k) (hw : Balanced w) (hclass : Classless w)
    (hclose : close.kind = .closeCurly) :
    consumedIn (stmtsWith (stmt .standard) c).events = w := by
  have hend := (stmts_end .standard c).2
  have hreach := (stmtsWith (stmt .standard)).reaches c
  obtain ⟨w', hw', hbal, hrest⟩ := Balanced.suffix (h ⟨w, close, k, hup, hw, hclass, hclose⟩) hw
    hclose (hreach.tokens.symm.trans hup)
  cases w' with
  | nil => rw [hw', List.append_nil]
  | cons t w' =>
    -- the loop has stopped at `t`, which neither closes the block nor starts a class
    obtain ⟨rfl, hne⟩ := Cursor.current_of_upcoming hrest
    have hnotClass := hclass _ (hw' ▸ List.mem_append_right _ List.mem_cons_self)
    have hnotClose := hbal.head_ne
    simp [endsBody, hne, hnotClass, hnotClose] at hend

/-- A block from brace to brace: the parser reaches the closing brace by way of
the loop over the statements, and consumes it. -/
theorem run_block_of_nests (h : Nests (stmtsWith (stmt .standard)) c.advance.1)
    (ho : o.kind = .openCurly) (hup : c.upcoming = o :: (w ++ close :: k)) (hw : Balanced w)
    (hclass : Classless w) (hclose : close.kind = .closeCurly) :
    let inside := stmtsWith (stmt .standard) c.advance.1
    ∃ stmts, inside.outcome = .ok stmts ∧ consumedIn inside.events = w ∧
      inside.cursor.upcoming = close :: k ∧
      block .standard c = ⟨.ok ⟨stmts, o.position⟩, inside.cursor.advance.1,
        c.advance.2 ++ (inside.events ++ inside.cursor.advance.2)⟩ := by
  intro inside
  obtain ⟨rfl, hne⟩ := Cursor.current_of_upcoming hup
  have hinside : c.advance.1.upcoming = w ++ close :: k := by
    rw [Cursor.upcoming_advance, hup, List.tail_cons]
  obtain ⟨stmts, hstmts⟩ := (stmts_end .standard c.advance.1).1
  have hconsumed : consumedIn inside.events = w :=
    stmts_consume_of_nests h hinside hw hclass hclose
  have hrest : inside.cursor.upcoming = close :: k := by
    have htokens := ((stmtsWith (stmt .standard)).reaches c.advance.1).tokens
    rw [hinside, show consumedIn (stmtsWith (stmt .standard) c.advance.1).events = w from
      hconsumed] at htokens
    exact (List.append_cancel_left htokens).symm
  obtain ⟨rfl, -⟩ := Cursor.current_of_upcoming hrest
  have hexpect := run_expect_of_kind ho
  have hcloseBody := run_closeBody hclose
  refine ⟨stmts, hstmts, hconsumed, hrest, ?_⟩
  rw [block, blockWith, run_bind_ok (p := expect .openCurly) (a := c.current) _ (by rw [hexpect]),
    hexpect, run_bind_ok _ hstmts, run_bind_ok (p := closeBody) (a := ()) _ (by rw [hcloseBody]),
    hcloseBody]
  simp [inside]

/-- A block consumes its two braces and all that is between them. -/
theorem block_consumes_of_nests (h : Nests (stmtsWith (stmt .standard)) c.advance.1)
    (ho : o.kind = .openCurly) (hup : c.upcoming = o :: (w ++ close :: k)) (hw : Balanced w)
    (hclass : Classless w) (hclose : close.kind = .closeCurly) :
    consumedIn (block .standard c).events = o :: (w ++ [close]) := by
  obtain ⟨stmts, -, hconsumed, hrest, hrun⟩ := run_block_of_nests h ho hup hw hclass hclose
  obtain ⟨rfl, hne⟩ := Cursor.current_of_upcoming hup
  obtain ⟨hcurrent, hne'⟩ := Cursor.current_of_upcoming hrest
  rw [hrun]
  simp [consumedIn_append, hconsumed, Cursor.consumedIn_advance hne,
    Cursor.consumedIn_advance hne', hcurrent]

end Block

/-- In a block with fewer than `n` tokens left, the parser consumes balanced
tokens. -/
def NestsBelow {α : Type} (n : Nat) (p : Parser α) : Prop := ∀ c : Cursor, c.left < n → Nests p c

namespace NestsBelow

variable {α β : Type} {n : Nat} {p : Parser α} {f : α → Parser β}

theorem bind (hp : NestsBelow n p) (hf : ∀ a, NestsBelow n (f a)) : NestsBelow n (p >>= f) :=
  fun c hc => (hp c hc).bind fun a _ => hf a _ (Nat.lt_of_le_of_lt (p.left_le c) hc)

/-- What follows a consumed token is needed one level below only. -/
theorem step {c : Cursor} (hc : c.left < n + 1) (hp : Nests p c) (hlt : p.ConsumesAt c)
    (hf : ∀ a, NestsBelow n (f a)) : Nests (p >>= f) c := by
  refine hp.bind fun a ha => hf a _ ?_
  have := hlt a ha
  omega

theorem of_unbraced (h : (Trait.within Unbraced).Has p) : NestsBelow n p :=
  fun c _ => nests_of_unbraced (h c)

theorem of_pure (a : α) : NestsBelow n (pure a) := fun _ _ => .of_pure a

end NestsBelow

/-- Where fewer than `n` tokens are left, statements, recovery after them and the
loop over them consume balanced tokens. Recovery that has to consume a token
relies on that being no brace. -/
structure NestedBelow (n : Nat) : Prop where
  ofStmt : NestsBelow n (stmt .standard)
  ofResume : ∀ (start : Nat) (c : Cursor), c.left < n →
    (c.consumed = start → Unbraced c.current.kind) → Nests (resumeStmt .standard start) c
  ofStmts : NestsBelow n (stmtsWith (stmt .standard))

namespace NestedBelow

variable {n : Nat} {c : Cursor}

/-! #### Statements -/

theorem conditionalStmt (h : NestedBelow n) (hc : c.left < n + 1)
    (hk : c.current.kind = .ifWord) : Nests (conditionalStmt (stmt .standard)) c := by
  have hcond := NestsBelow.of_unbraced (n := n) (Trait.condition_has unbraced_allows.exprs)
  refine NestsBelow.step hc (nests_advance (hk ▸ ⟨nofun, nofun⟩)) (consumesAt_advance (hk ▸ nofun))
    fun t => hcond.bind fun test => h.ofStmt.bind fun thenBranch d hd => .of_kind ?_
  split
  · next he =>
    refine (nests_skip (he ▸ ⟨nofun, nofun⟩)).bind fun _ _ => ?_
    refine (h.ofStmt.bind fun _ => .of_pure _) _ ?_
    exact Nat.lt_of_le_of_lt (skip.left_le d) hd
  · exact .of_pure _

theorem whileStmt (h : NestedBelow n) (hc : c.left < n + 1) (hk : c.current.kind = .whileWord) :
    Nests (whileStmt (stmt .standard)) c := by
  have hcond := NestsBelow.of_unbraced (n := n) (Trait.condition_has unbraced_allows.exprs)
  exact NestsBelow.step hc (nests_advance (hk ▸ ⟨nofun, nofun⟩)) (consumesAt_advance (hk ▸ nofun))
    fun t => hcond.bind fun test => h.ofStmt.bind fun body => .of_pure _

theorem forStmt (h : NestedBelow n) (hc : c.left < n + 1) (hk : c.current.kind = .forWord) :
    Nests (forStmt (stmt .standard)) c := by
  have hunless : ∀ k, NestsBelow n (exprUnless k) := fun k =>
    .of_unbraced (Trait.exprUnless_has unbraced_allows.exprs k)
  have hexpect : ∀ {k}, Unbraced k → NestsBelow n (expect k) := fun hk _ _ => nests_expect hk
  exact NestsBelow.step hc (nests_advance (hk ▸ ⟨nofun, nofun⟩)) (consumesAt_advance (hk ▸ nofun))
    fun t => (hexpect ⟨by decide, by decide⟩).bind fun _ => (hunless _).bind fun init =>
    (hexpect ⟨by decide, by decide⟩).bind fun _ => (hunless _).bind fun test =>
    (hexpect ⟨by decide, by decide⟩).bind fun _ => (hunless _).bind fun update =>
    (hexpect ⟨by decide, by decide⟩).bind fun _ => h.ofStmt.bind fun body => .of_pure _

/-- A block inside a block ends in front of the closing brace of the outer one. -/
theorem block (h : NestedBelow n) (hc : c.left < n + 1) (hk : c.current.kind = .openCurly) :
    Nests (block .standard) c := by
  rintro ⟨w, close, k, hup, hw, hclass, hclose⟩
  have hlt := Cursor.left_advance_lt (c := c) (hk ▸ nofun)
  cases w with
  | nil =>
    obtain ⟨rfl, -⟩ := Cursor.current_of_upcoming hup
    rw [hk] at hclose
    cases hclose
  | cons o w =>
    obtain ⟨rfl, -⟩ := Cursor.current_of_upcoming hup
    obtain ⟨v, d, u, rfl, hv, hd, hu⟩ := hw.opened hk
    have hinner : Classless v := fun t ht =>
      hclass t (List.mem_cons_of_mem _ (List.mem_append_left _ ht))
    rw [block_consumes_of_nests (k := u ++ close :: k) (h.ofStmts c.advance.1 (by omega)) hk
      (by simpa using hup) hv hinner hd]
    exact .braces hk hv hd .nil

theorem stmt_succ (h : NestedBelow n) : NestsBelow (n + 1) (stmt .standard) := by
  intro c hc
  rw [stmt_eq]
  refine .of_kind ?_
  show Nests (formWith _ ((StmtTable.standard c.current.kind).getD .expression)) c
  unfold StmtTable.standard
  split
  · next hk => exact h.conditionalStmt hc hk
  · next hk => exact (h.block hc hk).bind fun _ _ => .of_pure _
  · next hk => exact nests_of_unbraced (Trait.declarationStmt_has unbraced_allows c hk)
  · next hk => exact nests_of_unbraced (Trait.returnStmt_has unbraced_allows c hk)
  · next hk => exact h.forStmt hc hk
  · next hk => exact h.whileStmt hc hk
  · next hk => exact nests_of_unbraced (Trait.breakStmt_has unbraced_allows c hk)
  · exact nests_of_unbraced (Trait.expressionStmt_has unbraced_allows c)

/-! #### Recovery -/

/-- Where a statement has failed without consuming a token, there is no opening
brace. -/
theorem ne_openCurly_of_consumed {c : Cursor}
    (h : (stmt .standard c).cursor.consumed = c.consumed) : c.current.kind ≠ .openCurly := by
  intro hk
  have hlt := left_stmt_lt hk
  rw [((stmt .standard).reaches c).eq_of_consumed_eq h] at hlt
  omega

theorem leaveStmt {start : Nat} (h : c.consumed = start → Unbraced c.current.kind) :
    Nests (leaveStmt start) c := by
  refine Nests.bind (.of_consumed ?_) fun ended _ => ?_
  · split
    · next hstart => exact (nests_advance (h hstart)).bind fun t _ => .of_pure _
    · exact .of_pure _
  · split
    · exact .of_pure ()
    · exact nests_of_unbraced (Trait.skipStmt_has unbraced_allows _)

theorem resume_succ (h : NestedBelow n) (start : Nat) (c : Cursor) (hc : c.left < n + 1)
    (hstart : c.consumed = start → Unbraced c.current.kind) :
    Nests (resumeStmt .standard start) c := by
  rw [resumeStmt_eq]
  refine (leaveStmt hstart).bind fun _ _ => .of_kind ?_
  have hd := (Parser.leaveStmt start).left_le c
  generalize (Parser.leaveStmt start c).cursor = d at hd
  split
  · next hk =>
    refine Nests.bind (p := note .skippingElse) (fun _ => .nil) fun _ _ => ?_
    refine (nests_skip (c := d) (by rw [hk]; decide)).bind fun _ _ => .of_consumed ?_
    have hlt := left_skip_lt (c := d) (by rw [hk]; decide)
    generalize (skip d).cursor = e at hlt
    refine .of_attempt (fun _ => rfl) (h.ofStmt e (by omega)) (fun _ => .of_pure _) fun f => ?_
    refine .of_kind (.of_consumed ?_)
    split
    · next hagain =>
      have hle := (stmt .standard).left_le e
      refine h.ofResume _ _ (by omega) fun hsame => ?_
      -- nothing consumed since the `else`: the statement stands at no brace
      have hends : endsBody (stmt .standard e).cursor.current.kind = false :=
        hagain.resolve_left fun hne => hne hsame
      have hopen := ne_openCurly_of_consumed hsame
      rw [((stmt .standard).reaches e).eq_of_consumed_eq hsame] at hends ⊢
      exact ⟨hopen, fun hclose => by simp [hclose, endsBody] at hends⟩
    · exact .of_pure _
  · exact .of_pure _

/-! #### The loop -/

theorem stmts_succ (h : NestedBelow n) (hstmt : NestsBelow (n + 1) (stmt .standard))
    (hresume : ∀ (start : Nat) (c : Cursor), c.left < n + 1 →
      (c.consumed = start → Unbraced c.current.kind) → Nests (resumeStmt .standard start) c) :
    NestsBelow (n + 1) (stmtsWith (stmt .standard)) := by
  intro c hc
  rw [(terminates .standard).ofStmts.unfolds]
  refine .of_kind ?_
  cases hstop : endsBody c.current.kind with
  | true => exact .of_pure _
  | false =>
    simp only [Bool.false_eq_true, if_false]
    have hlt := left_stmtTurn_lt (stmt_consuming .standard) hstop
    refine Nests.bind (.of_consumed ?_) fun found _ => ?_
    · refine .of_attempt (fun _ => rfl) (hstmt c hc) (fun _ => .of_pure _) fun f => ?_
      refine Nests.bind (hresume _ _ ?_ fun hsame => ?_) fun _ _ => .of_pure _
      · exact Nat.lt_of_le_of_lt ((stmt .standard).left_le c) hc
      · have hopen := ne_openCurly_of_consumed hsame
        rw [((stmt .standard).reaches c).eq_of_consumed_eq hsame]
        exact ⟨hopen, fun hclose => by simp [hclose, endsBody] at hstop⟩
    · refine Nests.bind (h.ofStmts _ ?_) fun others _ => .of_pure _
      exact Nat.lt_of_lt_of_le hlt (Nat.le_of_lt_succ hc)

theorem succ (h : NestedBelow n) : NestedBelow (n + 1) where
  ofStmt := h.stmt_succ
  ofResume := h.resume_succ
  ofStmts := h.stmts_succ h.stmt_succ h.resume_succ

end NestedBelow

/-- **Parsing and recovery consume braces in pairs**, however many tokens are
left. -/
theorem nestedBelow (n : Nat) : NestedBelow n := by
  induction n with
  | zero =>
    exact ⟨fun c hc => absurd hc c.left.not_lt_zero, fun _ c hc => absurd hc c.left.not_lt_zero,
      fun c hc => absurd hc c.left.not_lt_zero⟩
  | succ n ih => exact ih.succ

theorem stmts_nest (c : Cursor) : Nests (stmtsWith (stmt .standard)) c :=
  (nestedBelow (c.left + 1)).ofStmts c (Nat.lt_succ_self _)

/-! ### Blocks -/

/-- **A block is read to its own closing brace.** Let a `{` be ahead, then
balanced tokens without a `class`, then a `}` and anything at all. Then the
parser of blocks succeeds, has consumed exactly the two braces and what is
between them, and is in front of what follows. -/
theorem block_recovers (c : Cursor) (o close : Token) (w k : List Token)
    (ho : o.kind = .openCurly) (hclose : close.kind = .closeCurly) (hw : Balanced w)
    (hclass : Classless w) (hup : c.upcoming = o :: (w ++ close :: k)) :
    let reply := block .standard c
    (∃ stmts, reply.outcome = .ok ⟨stmts, o.position⟩) ∧
      consumedIn reply.events = o :: (w ++ [close]) ∧
      reply.cursor = c.after (w.length + 2) ∧ reply.cursor.upcoming = k := by
  have hconsumed := block_consumes_of_nests (stmts_nest _) ho hup hw hclass hclose
  obtain ⟨stmts, -, -, -, hrun⟩ := run_block_of_nests (stmts_nest _) ho hup hw hclass hclose
  have hreach := (block .standard).reaches c
  refine ⟨⟨stmts, by rw [hrun]⟩, hconsumed, ?_, ?_⟩
  · rw [hreach.cursor, hconsumed]
    simp
  · have htokens := hreach.tokens
    rw [hup, hconsumed] at htokens
    simpa using htokens.symm

/-- An `if` without a condition, a faulty block, and an `else` at the end: in
`{ if ) { ] } else } .` the block ends in front of the dot. -/
theorem block_recovers_else_at_end :
    let token : Kind → Token := fun k => ⟨k, k.describe, ⟨1, 1⟩⟩
    let w := [Kind.ifWord, .closeParen, .openCurly, .closeBracket, .closeCurly, .elseWord].map token
    let c : Cursor := ⟨token .openCurly, (w ++ [token .closeCurly, token .dot]).map .token,
      ⟨.atEnd ⟨1, 1⟩, rfl⟩, 0⟩
    Balanced w ∧ Classless w ∧ (∃ stmts, (block .standard c).outcome = .ok ⟨stmts, ⟨1, 1⟩⟩) ∧
      (block .standard c).cursor.upcoming = [token .dot] := by
  intro token w c
  have hw : Balanced w :=
    .other (by decide) (by decide) (.other (by decide) (by decide)
      (.braces (v := [token .closeBracket]) rfl (.other (by decide) (by decide) .nil) rfl
        (.other (by decide) (by decide) .nil)))
  have hclass : Classless w := by decide
  obtain ⟨hok, -, -, hrest⟩ := block_recovers c (token .openCurly) (token .closeCurly) w
    [token .dot] rfl rfl hw hclass rfl
  exact ⟨hw, hclass, hok, hrest⟩

end BantamJava
