/-
# A faulty member does not disturb the others

Where the braces of a class body are balanced, each of its segments is parsed as if
it stood alone, however faulty the others are: the members found are those of the
segments, and so are the diagnostics. What is left behind the last segment costs one
diagnostic more.

The parser of members and recovery after it end at the same place, the end of the
segment: recovery counts braces from wherever the parser failed.

Key definitions: `ClassHead`.
Key theorems: `skipMember_passes`, `resumeMember_yields`, `recovering_yields`,
`memberTurn_yields`, `members_yield`, `classDecl_members_apart`.
-/
import BantamJava.Proofs.MemberSegment
import BantamJava.Proofs.Reading.Basic

namespace BantamJava

open BantamJava.Parser

/-! ### Recovery -/

section Skipping

variable {c : Cursor} {n : Nat}

theorem run_skipMember (n : Nat) (c : Cursor) :
    skipMember n c = skipMemberRound skipMember n c :=
  congrArg (fun p => p.run c) ((terminates .standard).ofSkipMember.unfolds n)

theorem skipMember_of_openCurly (h : c.current.kind = .openCurly) :
    skipMember n c = (skip >>= fun _ => skipMember (n + 1)) c := by
  rw [run_skipMember, skipMemberRound, run_kind_bind, h]

theorem skipMember_of_closeCurly (h : c.current.kind = .closeCurly) :
    skipMember (n + 2) c = (skip >>= fun _ => skipMember (n + 1)) c := by
  rw [run_skipMember, skipMemberRound, run_kind_bind, h]
  rfl

theorem skipMember_one_of_closeCurly (h : c.current.kind = .closeCurly) :
    skipMember 1 c = skip c := by
  rw [run_skipMember, skipMemberRound, run_kind_bind, h]
  exact congrArg (fun p => p.run c) (bind_pure_unit (x := skip))

theorem skipMember_zero_of_closeCurly (h : c.current.kind = .closeCurly) :
    skipMember 0 c = (pure () : Parser Unit) c := by
  rw [run_skipMember, skipMemberRound, run_kind_bind, h]
  rfl

theorem skipMember_zero_of_semicolon (h : c.current.kind = .semicolon) :
    skipMember 0 c = skip c := by
  rw [run_skipMember, skipMemberRound, run_kind_bind, h]
  exact congrArg (fun p => p.run c) (bind_pure_unit (x := skip))

/-- A token that neither ends the member nor counts as a brace. -/
theorem skipMember_of_other (hend : c.current.kind ≠ .endOfInput) (hk : Unbraced c.current.kind)
    (h : n = 0 → c.current.kind ≠ .semicolon ∧ c.current.kind ≠ .classWord) :
    skipMember n c = (skip >>= fun _ => skipMember n) c := by
  rw [run_skipMember, skipMemberRound, run_kind_bind]
  split
  · next he => exact absurd he hend
  · next he => rw [if_neg fun hn => (h hn).2 he]
  · next he => rw [if_pos fun hn => (h hn).1 he]
  · next he => exact absurd he hk.1
  · next he => exact absurd he hk.2
  · rfl

/-- Skipping never fails. -/
theorem skipMember_ok (depth : Nat) (c : Cursor) : (skipMember depth c).outcome = .ok () := by
  generalize hm : c.left = m
  induction m using Nat.strongRecOn generalizing depth c with
  | ind m ih =>
    by_cases hend : c.current.kind = .endOfInput
    · rw [run_skipMember, skipMemberRound, run_kind_bind, hend]
      rfl
    have hagain : ∀ depth, ((skip >>= fun _ => skipMember depth) c).outcome = .ok () := by
      intro depth
      rw [run_bind_ok (p := skip) (a := ()) _ rfl]
      exact ih _ (hm ▸ left_skip_lt hend) _ _ rfl
    by_cases hopen : c.current.kind = .openCurly
    · rw [skipMember_of_openCurly hopen]
      exact hagain _
    by_cases hclose : c.current.kind = .closeCurly
    · cases depth with
      | zero =>
        rw [skipMember_zero_of_closeCurly hclose]
        rfl
      | succ depth =>
        cases depth with
        | zero =>
          rw [skipMember_one_of_closeCurly hclose]
          rfl
        | succ depth =>
          rw [skipMember_of_closeCurly hclose]
          exact hagain _
    by_cases hstop : depth = 0 ∧ (c.current.kind = .semicolon ∨ c.current.kind = .classWord)
    · obtain ⟨rfl, hsemicolon | hclass⟩ := hstop
      · rw [skipMember_zero_of_semicolon hsemicolon]
        rfl
      · rw [run_skipMember, skipMemberRound, run_kind_bind, hclass]
        rfl
    · rw [skipMember_of_other hend ⟨hopen, hclose⟩
        fun hzero => not_or.1 fun hk => hstop ⟨hzero, hk⟩]
      exact hagain _

end Skipping

theorem Cursor.Ahead.current {c : Cursor} {t : Token} {x : List Token} (h : c.Ahead (t :: x)) :
    c.current = t ∧ c.current.kind ≠ .endOfInput :=
  current_of_upcoming h.upcoming

/-- With a brace open, recovery passes over balanced tokens. -/
theorem skipMember_passes {w : List Token} (hw : Balanced w) {n : Nat} {c : Cursor}
    {u x : List Token} (hc : c.Ahead (w ++ x))
    (h : ∀ d : Cursor, d.Ahead x → Yields (skipMember (n + 1)) d () u []) :
    Yields (skipMember (n + 1)) c () (w ++ u) [] := by
  induction hw generalizing n c u x with
  | nil => exact h c hc
  | @other t w ho hclose _ ih =>
    obtain ⟨rfl, hend⟩ := hc.current
    have hstep := (skip_yields hc).bind (f := fun _ => skipMember (n + 1)) (x := w ++ x) hc
      fun d hd => ih hd h
    exact hstep.congr (skipMember_of_other hend ⟨ho, hclose⟩ nofun)
  | @braces o close v w ho _ hclose _ ihv ihw =>
    obtain ⟨rfl, -⟩ := hc.current
    have hc' : c.Ahead ([c.current] ++ (v ++ (close :: (w ++ x)))) := by simpa using hc
    have hinner : ∀ d : Cursor, d.Ahead (close :: (w ++ x)) →
        Yields (skipMember (n + 2)) d () (close :: (w ++ u)) [] := by
      intro d hd
      obtain ⟨rfl, -⟩ := hd.current
      have hstep := (skip_yields hd).bind (f := fun _ => skipMember (n + 1)) (x := w ++ x) hd
        fun e he => ihw he h
      exact hstep.congr (skipMember_of_closeCurly hclose)
    have hstep := (skip_yields hc').bind (f := fun _ => skipMember (n + 2)) hc'
      fun d hd => ihv hd hinner
    simpa using hstep.congr (skipMember_of_openCurly ho)

/-- Behind the opening brace of a body, recovery passes over the closing one. -/
theorem skipMember_body {w k : List Token} {close : Token} {c : Cursor} (hw : Balanced w)
    (hclose : close.kind = .closeCurly) (hc : c.Ahead (w ++ close :: k)) :
    Yields (skipMember 1) c () (w ++ [close]) [] := by
  refine skipMember_passes hw hc fun d hd => ?_
  obtain ⟨rfl, -⟩ := hd.current
  exact (skip_yields hd).congr (skipMember_one_of_closeCurly hclose)

/-- From the opening brace of a body on, the same. -/
theorem skip_body_yields {w k : List Token} {o close : Token} {c : Cursor} (hw : Balanced w)
    (hclose : close.kind = .closeCurly) (hc : c.Ahead (o :: (w ++ [close]) ++ k)) :
    Yields (skip >>= fun _ => skipMember 1) c () (o :: (w ++ [close])) [] := by
  have hc' : c.Ahead ([o] ++ (w ++ close :: k)) := by simpa using hc
  exact (skip_yields hc').bind (f := fun _ => skipMember 1) hc'
    fun d hd => skipMember_body hw hclose hd

/-- Past a token of the member. -/
theorem Cursor.Facing.advance {c : Cursor} {t : Token} {v z k : List Token}
    (h : c.Facing (t :: v) z k) : (skip c).cursor.Facing v z k := by
  have hyields := skip_yields h.ahead
  have hplain : Plain (consumedIn (skip c).events) := by
    rw [hyields.consumed]
    exact .cons (h.plain t List.mem_cons_self) .nil
  obtain ⟨v', hv, hfacing⟩ := h.after_plain (skip.reaches c) hplain
  rw [hyields.consumed] at hv
  rw [(List.cons.inj hv).2]
  exact hfacing

/-- Recovery stops at the end of the member, or in front of the brace that closes
the class. -/
theorem skipMember_yields {c : Cursor} {v z k : List Token} (h : c.Facing v z k) :
    Yields (skipMember 0) c () (v ++ z) [] := by
  induction v generalizing c with
  | cons t v ih =>
    obtain ⟨rfl, hend⟩ := h.ahead.current
    have hstep := (skip_yields h.ahead).bind_at (f := fun _ => skipMember 0) (ih h.advance)
    refine hstep.congr (skipMember_of_other hend (h.plain _ List.mem_cons_self).2 fun _ => ?_)
    exact ⟨(h.plain _ List.mem_cons_self).1, h.classless _ List.mem_cons_self⟩
  | nil =>
    rcases h.cases with ⟨-, -, v', hv⟩ | ⟨hk, -, rfl⟩ | ⟨hk, -, w, close, rfl, hw, -, hclose⟩ |
      ⟨hk, -, rfl⟩
    · cases hv
    · exact (skip_yields h.ahead).congr (skipMember_zero_of_semicolon hk)
    · exact (skip_body_yields hw hclose h.ahead).congr (skipMember_of_openCurly hk)
    · exact (Yields.of_pure ()).congr (skipMember_zero_of_closeCurly hk)

section Resuming

variable {c : Cursor} {start : Nat}

theorem resumeMember_of_ne (h : c.consumed ≠ start) :
    resumeMember start c = skipMember 0 c := by
  rw [resumeMember, run_consumed_bind, if_neg h]

theorem resumeMember_of_semicolon (h : c.consumed = start) (hk : c.current.kind = .semicolon) :
    resumeMember start c = skip c := by
  rw [resumeMember, run_consumed_bind, if_pos h, run_kind_bind, hk]

theorem resumeMember_of_openCurly (h : c.consumed = start) (hk : c.current.kind = .openCurly) :
    resumeMember start c = (skip >>= fun _ => skipMember 1) c := by
  rw [resumeMember, run_consumed_bind, if_pos h, run_kind_bind, hk]

theorem resumeMember_of_other (h : c.consumed = start) (hsemi : c.current.kind ≠ .semicolon)
    (hopen : c.current.kind ≠ .openCurly) :
    resumeMember start c = (skip >>= fun _ => skipMember 0) c := by
  rw [resumeMember, run_consumed_bind, if_pos h, run_kind_bind]
  split
  · next hk => exact absurd hk hsemi
  · next hk => exact absurd hk hopen
  · rfl

theorem resumeMember_ok (start : Nat) (c : Cursor) : (resumeMember start c).outcome = .ok () := by
  have hskip : ∀ depth, ((skip >>= fun _ => skipMember depth) c).outcome = .ok () := by
    intro depth
    rw [run_bind_ok (p := skip) (a := ()) _ rfl]
    exact skipMember_ok _ _
  rw [resumeMember, run_consumed_bind]
  split
  · rw [run_kind_bind]
    split
    · rfl
    · exact hskip 1
    · exact hskip 0
  · exact skipMember_ok 0 c

end Resuming

/-- Recovery after a failed member leads to the end of the member. A token that it
has to consume first is one of the member. -/
theorem resumeMember_yields {c : Cursor} {v z k : List Token} {start : Nat} (h : c.Facing v z k)
    (hstart : c.consumed = start → v ++ z ≠ []) :
    Yields (resumeMember start) c () (v ++ z) [] := by
  by_cases hs : c.consumed = start
  · rcases h.cases with ⟨hsemi, hbrace, v', rfl⟩ | ⟨hk, rfl, rfl⟩ |
      ⟨hk, rfl, w, close, rfl, hw, -, hclose⟩ | ⟨-, rfl, rfl⟩
    · have hstep := (skip_yields h.ahead).bind_at (f := fun _ => skipMember 0)
        (skipMember_yields h.advance)
      exact hstep.congr (resumeMember_of_other hs hsemi hbrace.1)
    · exact (skip_yields h.ahead).congr (resumeMember_of_semicolon hs hk)
    · exact (skip_body_yields hw hclose h.ahead).congr (resumeMember_of_openCurly hs hk)
    · exact absurd rfl (hstart hs)
  · exact (skipMember_yields h).congr (resumeMember_of_ne hs)

/-! ### Turns of the loop -/

/-- A turn of a loop, with a parser that stops where the member does. If it fails and
recovery leads from there to the end of the member, so does the turn. -/
theorem recovering_yields {α : Type} {p : Parser α} {recover : Nat → Parser Unit} {c : Cursor}
    {v z k : List Token} (h : c.Facing v z k) (hfin : FinishesAt p c v z)
    (hresume : ∀ v', v = consumedIn (p c).events ++ v' → (p c).cursor.Facing v' z k →
      Yields (recover c.consumed) (p c).cursor () (v' ++ z) []) :
    Yields (recovering p recover) c (p c).outcome.toOption (v ++ z) (faultsIn (p c).journal) := by
  cases ho : (p c).outcome with
  | ok a =>
    obtain ⟨-, fs, hyields, -⟩ := hfin.done a ho
    have hrun : recovering p recover c = _ := run_recovering_ok ho
    refine ⟨by rw [hrun]; rfl, by rw [hrun, hyields.consumed], ?_⟩
    rw [hrun, Reply.journal, ho]
  | error e =>
    obtain ⟨⟨v', hv⟩, -⟩ := hfin.failed e ho
    have hplain : Plain (consumedIn (p c).events) := fun t ht =>
      h.plain t (hv ▸ List.mem_append_left _ ht)
    obtain ⟨v'', hv'', hfacing⟩ := h.after_plain (p.reaches c) hplain
    have hafter := (hresume v'' hv'' hfacing).map fun _ => (none : Option α)
    have hrun : recovering p recover c = _ := run_recovering_error ho
    refine ⟨?_, ?_, ?_⟩
    · rw [hrun, hafter.outcome]
      rfl
    · rw [hrun, consumedIn_append, consumedIn_cons, hafter.consumed, hv'', List.append_assoc]
      rfl
    · rw [hrun, Reply.journal, ho, faultsIn_append, faultsIn_cons, hafter.faults, faultsIn_append]
      rfl

/-- **A turn of the loop over the members** ends where the member does, gives it if
it did not fail, and reports what is wrong with it. -/
theorem memberTurn_yields {c : Cursor} {v z k : List Token} (h : c.Facing v z k)
    (hne : v ++ z ≠ []) :
    Yields (recovering (member .standard) resumeMember) c
      (member .standard c).outcome.toOption (v ++ z) (faultsIn (member .standard c).journal) := by
  refine recovering_yields h (member_finishes c v z k h) fun v' hv' hfacing => ?_
  refine resumeMember_yields hfacing fun hsame => ?_
  -- nothing consumed: the whole member is still ahead
  have hnone : consumedIn (member .standard c).events = [] := by
    have hcount := ((member .standard).reaches c).consumed_eq
    exact List.length_eq_zero_iff.1 (by omega)
  rw [hnone, List.nil_append] at hv'
  exact hv' ▸ hne

/-- The loop over the members stops in front of a closing brace. -/
theorem members_stop {c : Cursor} (h : c.current.kind = .closeCurly) :
    members .standard c = ⟨.ok [], c, []⟩ := by
  rw [(terminates .standard).ofMembers.unfolds, collectRound, run_kind_bind, h]
  rfl

theorem members_go_on {c : Cursor} (h : endsBody c.current.kind = false) :
    members .standard c = (do
      let found ← recovering (member .standard) resumeMember
      let others ← members .standard
      pure (found.toList ++ others) : Parser (List Member)) c := by
  rw [← run_collectRound h, ← (terminates .standard).ofMembers.unfolds]

/-- In front of a member the loop goes on. -/
theorem Cursor.Facing.goes_on {c : Cursor} {v z k : List Token} (h : c.Facing v z k)
    (hne : v ++ z ≠ []) : endsBody c.current.kind = false := by
  rcases h.cases with ⟨-, hbrace, v', rfl⟩ | ⟨hk, -, -⟩ | ⟨hk, -, -⟩ | ⟨-, rfl, rfl⟩
  · have hend := h.ahead.current.2
    have hclass := h.classless _ List.mem_cons_self
    simp [endsBody, hend, hclass, hbrace.2]
  · simp [endsBody, hk]
  · simp [endsBody, hk]
  · exact absurd rfl hne

theorem Reply.faultsIn_journal_congr {α : Type} {r s : Reply α} (houtcome : s.outcome = r.outcome)
    (hfaults : faultsIn s.events = faultsIn r.events) :
    faultsIn s.journal = faultsIn r.journal := by
  unfold journal
  rw [houtcome]
  cases r.outcome with
  | ok a => exact hfaults
  | error e => rw [faultsIn_append, faultsIn_append, hfaults]

theorem Cursor.Facing.ahead_turn {c : Cursor} {v z k : List Token} (h : c.Facing v z k)
    (hne : v ++ z ≠ []) : (recovering (member .standard) resumeMember c).cursor.Ahead k := by
  refine (memberTurn_yields h hne).ahead ?_
  rw [List.append_assoc]
  exact h.ahead

/-- A turn of the loop, and then the others. -/
theorem members_round {c : Cursor} {v z k w : List Token} {others : List Member}
    {fs : List Fault} (h : c.Facing v z k) (hne : v ++ z ≠ [])
    (hrest : Yields (members .standard) (recovering (member .standard) resumeMember c).cursor
      others w fs) :
    Yields (members .standard) c ((member .standard c).outcome.toOption.toList ++ others)
      (v ++ z ++ w) (faultsIn (member .standard c).journal ++ fs) :=
  ((memberTurn_yields h hne).bind_at (hrest.map _)).congr (members_go_on (h.goes_on hne))

/-- Tokens in front of the closing brace of the class that end no member are
dropped, for one fault. -/
theorem members_yield_rest {r k : List Token} {close : Token} {c : Cursor} (hr : Plain r)
    (hclass : Classless r) (hclose : close.kind = .closeCurly) (hc : c.Ahead (r ++ close :: k)) :
    ∃ last : List Fault, last.length = (if r = [] then 0 else 1) ∧
      Yields (members .standard) c [] r last := by
  have hstop : ∀ d : Cursor, d.Ahead (close :: k) → Yields (members .standard) d [] [] [] := by
    intro d hd
    obtain ⟨rfl, -⟩ := hd.current
    have hrun := members_stop hclose
    exact ⟨by rw [hrun], by rw [hrun]; rfl, by rw [hrun]; rfl⟩
  by_cases hnil : r = []
  · subst hnil
    exact ⟨[], rfl, hstop c hc⟩
  · have hfacing : c.Facing r [] (close :: k) :=
      ⟨hc, hr, by rwa [List.append_nil], .inr ⟨rfl, close, k, rfl, hclose⟩⟩
    have hne : r ++ [] ≠ [] := by rwa [List.append_nil]
    have hround := members_round hfacing hne (hstop _ (hfacing.ahead_turn hne))
    have hfin := member_finishes c r [] (close :: k) hfacing
    cases ho : (member .standard c).outcome with
    | ok a =>
      have hend := (hfin.done a ho).1.length_pos
      cases hend
    | error e =>
      have hone : faultsIn (member .standard c).journal = [e] := by
        rw [Reply.journal, ho, faultsIn_append, (hfin.failed e ho).2]
        rfl
      rw [ho, hone, List.append_nil, List.append_nil] at hround
      exact ⟨[e], by rw [if_neg hnil]; rfl, by simpa [Except.toOption] using hround⟩

/-- **The loop over the members** of a body that is cut into segments gives the
members of the segments, each as it is alone. -/
theorem members_yield {body r : List Token} {segments : List (List Token)}
    (hcut : MemberCut body segments r) (finish : EndToken) {c : Cursor} {close : Token}
    {k : List Token} (hclass : Classless body) (hclose : close.kind = .closeCurly)
    (hc : c.Ahead (body ++ close :: k)) :
    ∃ last : List Fault, last.length = (if r = [] then 0 else 1) ∧
      Yields (members .standard) c
        (segments.filterMap fun s => (memberAlone finish s).outcome.toOption) body
        (segments.flatMap (fun s => faultsIn (memberAlone finish s).journal) ++ last) := by
  induction hcut generalizing c with
  | rest hr => exact members_yield_rest hr hclass hclose hc
  | @segment v z body r segments hv hz _ ih =>
    have hfacing : c.Facing v z (body ++ close :: k) :=
      ⟨by simpa using hc, hv, fun t ht => hclass t (List.mem_append_left _ ht), .inl hz⟩
    have hpos := hz.length_pos
    have hne : v ++ z ≠ [] := by
      intro hnil
      rw [(List.append_eq_nil_iff.1 hnil).2] at hpos
      cases hpos
    obtain ⟨houtcome, hfaults⟩ := member_alone hfacing hz finish
    obtain ⟨last, hlast, hrest⟩ := ih (fun t ht => hclass t (List.mem_append_right _ ht))
      (hfacing.ahead_turn hne)
    have hround := members_round hfacing hne hrest
    rw [← houtcome, ← Reply.faultsIn_journal_congr houtcome hfaults, ← List.append_assoc] at hround
    refine ⟨last, hlast, ?_⟩
    rw [List.filterMap_cons, List.flatMap_cons]
    cases ho : (memberAlone finish (v ++ z)).outcome.toOption with
    | none => simpa [ho] using hround
    | some m => simpa [ho] using hround

/-! ### Classes -/

/-- How a class starts: the class has a name, and perhaps a parent. -/
inductive ClassHead : List Token → String → Option String → Prop where
  | plain {t n o : Token} : t.kind = .classWord → n.kind = .identifier → o.kind = .openCurly →
      ClassHead [t, n, o] n.value none
  | extending {t n x m o : Token} : t.kind = .classWord → n.kind = .identifier →
      x.kind = .extendsWord → m.kind = .identifier → o.kind = .openCurly →
      ClassHead [t, n, x, m, o] n.value (some m.value)

section Class

variable {c : Cursor} {x : List Token}

theorem extendsClause_yields_none {t : Token} (ht : t.kind ≠ .extendsWord)
    (hc : c.Ahead (t :: x)) : Yields extendsClause c none [] [] := by
  obtain ⟨rfl, -⟩ := hc.current
  refine (Yields.of_pure none).congr ?_
  rw [extendsClause, run_kind_bind, if_neg ht]

theorem extendsClause_yields_some {t n : Token} (ht : t.kind = .extendsWord)
    (hn : n.kind = .identifier) (hc : c.Ahead (t :: n :: x)) :
    Yields extendsClause c (some n.value) [t, n] [] := by
  obtain ⟨rfl, -⟩ := hc.current
  have hstep := (skip_yields hc).bind (f := fun _ => identifier >>= fun m => pure (some m)) hc
    fun d hd => (identifier_yields hn hd).map some
  refine hstep.congr ?_
  rw [extendsClause, run_kind_bind, if_pos ht]

theorem note_yields {e : Event} (hc : e.consumed? = none) (hf : e.fault? = none) :
    Yields (note e hc) c () [] [] :=
  ⟨rfl, by simp [note, hc], by simp [note, hf]⟩

/-- A class from its opening brace on. -/
theorem classBody_yields {body r k : List Token} {segments : List (List Token)} {o close : Token}
    (hcut : MemberCut body segments r) (finish : EndToken) (hclass : Classless body)
    (ho : o.kind = .openCurly) (hclose : close.kind = .closeCurly)
    (hc : c.Ahead (o :: (body ++ close :: k))) (name : String) (parent : Option String)
    (p : Position) :
    ∃ fs, (∃ last : List Fault, last.length = (if r = [] then 0 else 1) ∧
        fs = segments.flatMap (fun s => faultsIn (memberAlone finish s).journal) ++ last) ∧
      Yields (do
        note (.enteredClass name)
        let _ ← expect .openCurly
        let members ← members .standard
        closeBody
        pure ⟨name, parent, members, p⟩ : Parser Class) c
        ⟨name, parent, segments.filterMap fun s => (memberAlone finish s).outcome.toOption, p⟩
        (o :: (body ++ [close])) fs := by
  refine (note_yields rfl rfl).bind_exists (w := []) hc fun d hd => ?_
  refine (expectElse_yields ho hd).bind_exists (w := [o]) hd fun e he => ?_
  obtain ⟨last, hlast, hmembers⟩ := members_yield hcut finish hclass hclose he
  refine ⟨_, ⟨last, hlast, rfl⟩, ?_⟩
  have hstep := hmembers.bind (f := fun members => closeBody >>= fun _ =>
    pure (⟨name, parent, members, p⟩ : Class)) he fun g hg => (closeBody_yields hclose hg).map _
  rw [List.append_nil] at hstep
  exact hstep

/-- A class whose body is cut into segments. -/
theorem classDecl_yields {head body r k : List Token} {segments : List (List Token)}
    {close : Token} {name : String} {parent : Option String} (hhead : ClassHead head name parent)
    (hcut : MemberCut body segments r) (finish : EndToken) (hclass : Classless body)
    (hclose : close.kind = .closeCurly) (hc : c.Ahead (head ++ (body ++ close :: k))) :
    ∃ fs, (∃ last : List Fault, last.length = (if r = [] then 0 else 1) ∧
        fs = segments.flatMap (fun s => faultsIn (memberAlone finish s).journal) ++ last) ∧
      Yields (classDecl .standard) c
        ⟨name, parent, segments.filterMap fun s => (memberAlone finish s).outcome.toOption,
          c.current.position⟩ (head ++ (body ++ [close])) fs := by
  cases hhead with
  | @plain t n o ht hn ho =>
    obtain ⟨rfl, -⟩ := hc.current
    refine (expectElse_yields ht hc).bind_exists (w := [c.current]) hc fun d hd => ?_
    refine (identifier_yields hn hd).bind_exists (w := [n]) hd fun e he => ?_
    refine (extendsClause_yields_none (ho ▸ nofun) he).bind_exists (w := []) he fun g hg => ?_
    exact classBody_yields hcut finish hclass ho hclose hg _ _ _
  | @extending t n x m o ht hn hx hm ho =>
    obtain ⟨rfl, -⟩ := hc.current
    refine (expectElse_yields ht hc).bind_exists (w := [c.current]) hc fun d hd => ?_
    refine (identifier_yields hn hd).bind_exists (w := [n]) hd fun e he => ?_
    refine (extendsClause_yields_some hx hm he).bind_exists (w := [x, m]) he fun g hg => ?_
    exact classBody_yields hcut finish hclass ho hclose hg _ _ _

end Class

/-- **A faulty member does not disturb the others.** Let the head of a class be
ahead, then a body with balanced braces and without a `class`, then a closing brace
and anything at all, with no faults of the source between them. Then the body can
be cut into segments, and however it is cut, the class is parsed: it has the members
that the parser of members finds in each segment alone, and the parser is in front
of what follows the closing brace. The faults that the parser reports are those of
each segment alone, the one with which it fails included, and one more if anything
is left between the last segment and the closing brace. -/
theorem classDecl_members_apart (c : Cursor) (head body k : List Token) (close : Token)
    (name : String) (parent : Option String) (finish : EndToken)
    (hhead : ClassHead head name parent) (hbody : Balanced body) (hclass : Classless body)
    (hclose : close.kind = .closeCurly) (hup : c.upcoming = head ++ (body ++ close :: k))
    (hquiet : c.pending = []) :
    (∃ segments r, MemberCut body segments r) ∧
    ∀ segments r, MemberCut body segments r →
      let reply := classDecl .standard c
      reply.outcome = .ok ⟨name, parent,
        segments.filterMap fun s => (memberAlone finish s).outcome.toOption,
        c.current.position⟩ ∧
      consumedIn reply.events = head ++ (body ++ [close]) ∧
      reply.cursor = c.after (head.length + body.length + 1) ∧ reply.cursor.upcoming = k ∧
      ∃ last : List Fault, last.length = (if r = [] then 0 else 1) ∧
        faultsIn reply.events =
          segments.flatMap (fun s => faultsIn (memberAlone finish s).journal) ++ last := by
  refine ⟨hbody.memberCut, fun segments r hcut => ?_⟩
  have hc : c.Ahead (head ++ (body ++ close :: k)) := ⟨hup, hquiet⟩
  obtain ⟨fs, ⟨last, hlast, hfs⟩, hyields⟩ := classDecl_yields hhead hcut finish hclass hclose hc
  have hreach := (classDecl .standard).reaches c
  have hrest : (classDecl .standard c).cursor.Ahead k := hyields.ahead (by simpa using hc)
  refine ⟨hyields.outcome, hyields.consumed, ?_, hrest.upcoming, last, hlast,
    hyields.faults.trans hfs⟩
  rw [hreach.cursor, hyields.consumed]
  simp only [List.length_append, List.length_singleton, Nat.add_assoc]

/-- A field without its value, a method with a faulty body, and a stray name: the
class `class A { int x = ; int f() { ( } y }` has the method, and three faults. -/
theorem classDecl_members_apart_one_of_three :
    let token : Kind → String → Token := fun k s => ⟨k, s, ⟨1, 1⟩⟩
    let name := token .identifier
    let sign : Kind → Token := fun k => token k k.describe
    let head := [sign .classWord, name "A", sign .openCurly]
    let field := [name "int", name "x", sign .assignment] ++ [sign .semicolon]
    let method := [name "int", name "f", sign .openParen, sign .closeParen] ++
      sign .openCurly :: ([sign .openParen] ++ [sign .closeCurly])
    let body := field ++ (method ++ [name "y"])
    let finish : EndToken := ⟨.atEnd ⟨1, 1⟩, rfl⟩
    let c := (Cursor.ofSource ⟨(head ++ (body ++ [sign .closeCurly])).map .token, finish⟩).1
    MemberCut body [field, method] [name "y"] ∧
      ∃ a, (classDecl .standard c).outcome = .ok a ∧ a.members.length = 1 ∧
        (faultsIn (classDecl .standard c).events).length = 3 := by
  intro token name sign head field method body finish c
  have hcut : MemberCut body [field, method] [name "y"] :=
    .segment (by decide) (.semicolon rfl)
      (.segment (by decide) (.body rfl (.other (by decide) (by decide) .nil) rfl)
        (.rest (by decide)))
  have hclass : Classless body := by decide
  obtain ⟨-, h⟩ := classDecl_members_apart c head body [] (sign .closeCurly) "A" none finish
    (.plain rfl rfl rfl) hcut.balanced hclass rfl rfl rfl
  obtain ⟨hok, -, -, -, last, hlast, hfaults⟩ := h _ _ hcut
  refine ⟨hcut, _, hok, by decide +kernel, ?_⟩
  rw [hfaults, List.length_append, hlast]
  decide +kernel

end BantamJava
