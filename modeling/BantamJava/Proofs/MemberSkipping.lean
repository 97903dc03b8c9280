/-
# Where recovery after a member stops

Recovery after a failed member skips tokens and counts the braces that are open. It stops at
the first point at which the member can be said to be over: behind a `;` outside the skipped
braces, behind the brace that closes the first skipped one, in front of a `}` or a `class`
outside them, or at the end of the input. This holds for all tokens that may lie ahead, also
where braces are never closed: then recovery runs to the end, over a `class` as well.

While recovery runs, the tokens skipped so far and the count fit each other (`Underway`):
before the first brace there is nothing that could have ended the member, and behind it there
are as many braces open as counted (`Opened`). Each step keeps this, and as long as it holds
no earlier point was one to stop at (`Underway.not_stop`). If a token has to be skipped for the
sake of progress it is one that recovery would have skipped anyway
(`resumeMember_eq_skipMember`).

Key definitions: `bracesOpened`, `bracesClosed`, `MemberStop`, `Opened`, `Underway`,
`StopsFirst`, `Recovers`.
Key theorems: `Underway.not_stop`, `skipMember_recovers`, `resumeMember_eq_skipMember`,
`resumeMember_stops_first`.
-/
import BantamJava.Proofs.MemberRecovery

namespace BantamJava

open BantamJava.Parser

/-! ### Counting braces -/

/-- The number of `{` among the tokens. -/
def bracesOpened (w : List Token) : Nat := w.countP fun t => t.kind == .openCurly

/-- The number of `}` among the tokens. -/
def bracesClosed (w : List Token) : Nat := w.countP fun t => t.kind == .closeCurly

section Counts

variable {t : Token} {v w : List Token}

@[simp] theorem bracesOpened_nil : bracesOpened [] = 0 := rfl

@[simp] theorem bracesClosed_nil : bracesClosed [] = 0 := rfl

@[simp] theorem bracesOpened_append :
    bracesOpened (v ++ w) = bracesOpened v + bracesOpened w := List.countP_append

@[simp] theorem bracesClosed_append :
    bracesClosed (v ++ w) = bracesClosed v + bracesClosed w := List.countP_append

theorem bracesOpened_cons :
    bracesOpened (t :: w) = bracesOpened w + if t.kind = .openCurly then 1 else 0 := by
  simp [bracesOpened, List.countP_cons]

theorem bracesClosed_cons :
    bracesClosed (t :: w) = bracesClosed w + if t.kind = .closeCurly then 1 else 0 := by
  simp [bracesClosed, List.countP_cons]

theorem bracesOpened_eq_zero (h : ∀ t ∈ w, t.kind ≠ .openCurly) : bracesOpened w = 0 :=
  List.countP_eq_zero.2 fun t ht => by simpa using h t ht

theorem Balanced.counts (h : Balanced w) : bracesOpened w = bracesClosed w := by
  induction h with
  | nil => rfl
  | other ho hc _ ih => simp [bracesOpened_cons, bracesClosed_cons, ho, hc, ih]
  | braces ho _ hc _ ihv ihw =>
    simp only [bracesOpened_cons, bracesClosed_cons, bracesOpened_append, bracesClosed_append, ho,
      hc, ihv, ihw, reduceCtorEq, if_true, if_false]
    omega

end Counts

/-! ### Where to stop -/

/-- The tokens `w` have been skipped and `t` is the current one, and here the member is over. -/
inductive MemberStop : List Token → Token → Prop where
  /-- The last token was a `;` outside the braces. -/
  | semicolon {w : List Token} {s t : Token} (hw : Balanced w) (hs : s.kind = .semicolon) :
      MemberStop (w ++ [s]) t
  /-- The last token was the brace that closes the first one. -/
  | body {u v : List Token} {o close t : Token} (hu : ∀ s ∈ u, s.kind ≠ .openCurly)
      (ho : o.kind = .openCurly) (hv : Balanced v) (hclose : close.kind = .closeCurly) :
      MemberStop (u ++ o :: (v ++ [close])) t
  /-- The current token is a `}` or a `class` outside the braces. -/
  | front {w : List Token} {t : Token} (hw : Balanced w)
      (ht : t.kind = .closeCurly ∨ t.kind = .classWord) : MemberStop w t
  /-- The input has ended. -/
  | finish {w : List Token} {t : Token} (ht : t.kind = .endOfInput) : MemberStop w t

/-- Before the end of the input, no brace is open where a member is over. -/
theorem MemberStop.opened_le {w : List Token} {t : Token} (h : MemberStop w t)
    (ht : t.kind ≠ .endOfInput) : bracesOpened w ≤ bracesClosed w := by
  cases h with
  | semicolon hw hs =>
    simp [bracesOpened_cons, hs, hw.counts]
  | body hu ho hv hclose =>
    simp only [bracesOpened_append, bracesClosed_append, bracesOpened_cons, bracesClosed_cons,
      bracesOpened_eq_zero hu, hv.counts, ho, hclose, reduceCtorEq, if_true, if_false,
      bracesOpened_nil, bracesClosed_nil]
    omega
  | front hw _ => exact Nat.le_of_eq hw.counts
  | finish hend => exact absurd hend ht

/-! ### Underway -/

/-- So many braces are open behind the tokens. -/
inductive Opened : Nat → List Token → Prop where
  | flat {w : List Token} (hw : Balanced w) : Opened 0 w
  | brace {n : Nat} {v w : List Token} {o : Token} (hv : Balanced v) (ho : o.kind = .openCurly)
      (hw : Opened n w) : Opened (n + 1) (v ++ o :: w)

namespace Opened

variable {n : Nat} {w : List Token} {t : Token}

theorem other (h : Opened n w) (ht : Unbraced t.kind) : Opened n (w ++ [t]) := by
  induction h with
  | flat hw => exact .flat (hw.append (.other ht.1 ht.2 .nil))
  | brace hv ho _ ih => simpa using Opened.brace hv ho ih

theorem openCurly (h : Opened n w) (ht : t.kind = .openCurly) : Opened (n + 1) (w ++ [t]) := by
  induction h with
  | flat hw => exact .brace hw ht (.flat .nil)
  | brace hv ho _ ih => simpa using Opened.brace hv ho ih

theorem closeCurly (h : Opened (n + 1) w) (ht : t.kind = .closeCurly) : Opened n (w ++ [t]) := by
  generalize hm : n + 1 = m at h
  induction h generalizing n with
  | flat _ => cases hm
  | @brace m v w o hv ho hw ih =>
    obtain rfl : n = m := Nat.succ.inj hm
    cases n with
    | zero =>
      cases hw with
      | flat hw => exact .flat (by simpa using hv.append (.braces ho hw ht .nil))
    | succ n => simpa using Opened.brace hv ho (ih rfl)

theorem counts (h : Opened n w) : bracesOpened w = bracesClosed w + n := by
  induction h with
  | flat hw => exact hw.counts
  | brace hv ho _ ih =>
    simp only [bracesOpened_append, bracesClosed_append, bracesOpened_cons, bracesClosed_cons,
      hv.counts, ho, ih, reduceCtorEq, if_true, if_false]
    omega

end Opened

/-- The tokens `w` have been skipped, with `n` braces open behind them, and nothing among
them has ended the member. -/
inductive Underway : List Token → Nat → Prop where
  | plain {w : List Token} (hw : Plain w) : Underway w 0
  | inside {n : Nat} {u v : List Token} {o : Token} (hu : Plain u) (ho : o.kind = .openCurly)
      (hv : Opened n v) : Underway (u ++ o :: v) (n + 1)

theorem Plain.append {v w : List Token} (hv : Plain v) (hw : Plain w) : Plain (v ++ w) :=
  fun t ht => (List.mem_append.1 ht).elim (hv t) (hw t)

theorem Plain.balanced {w : List Token} (h : Plain w) : Balanced w :=
  .of_unbraced fun t ht => (h t ht).2

namespace Underway

variable {n : Nat} {w : List Token} {t : Token}

theorem other (h : Underway w n) (ht : Unbraced t.kind) (hzero : n = 0 → t.kind ≠ .semicolon) :
    Underway (w ++ [t]) n := by
  cases h with
  | plain hw => exact .plain (hw.append (.cons ⟨hzero rfl, ht⟩ .nil))
  | inside hu ho hv => simpa using inside hu ho (hv.other ht)

theorem openCurly (h : Underway w n) (ht : t.kind = .openCurly) : Underway (w ++ [t]) (n + 1) := by
  cases h with
  | plain hw => exact .inside hw ht (.flat .nil)
  | inside hu ho hv => simpa using inside hu ho (hv.openCurly ht)

theorem closeCurly (h : Underway w (n + 2)) (ht : t.kind = .closeCurly) :
    Underway (w ++ [t]) (n + 1) := by
  cases h with
  | inside hu ho hv => simpa using inside hu ho (hv.closeCurly ht)

theorem counts (h : Underway w n) : bracesOpened w = bracesClosed w + n := by
  cases h with
  | plain hw => exact hw.balanced.counts
  | inside hu ho hv => exact (Opened.brace hu.balanced ho hv).counts

/-- The brace that closes the first one. -/
theorem stop_of_closeCurly (h : Underway w 1) (ht : t.kind = .closeCurly) (next : Token) :
    MemberStop (w ++ [t]) next := by
  cases h with
  | @inside _ u v o hu ho hv =>
    cases hv with
    | flat hv =>
      have hstop : MemberStop (u ++ o :: (v ++ [t])) next :=
        .body (fun s hs => (hu s hs).2.1) ho hv ht
      simpa using hstop

theorem balanced (h : Underway w 0) : Balanced w := by
  cases h with
  | plain hw => exact hw.balanced

/-- **Recovery has not passed a point to stop at**, unless it should stop in front of the
current token. -/
theorem not_stop (h : Underway w n) (hend : t.kind ≠ .endOfInput)
    (hzero : n = 0 → t.kind ≠ .closeCurly ∧ t.kind ≠ .classWord) : ¬ MemberStop w t := by
  intro hstop
  cases n with
  | succ n =>
    have hcounts := h.counts
    have hle := hstop.opened_le hend
    omega
  | zero =>
    -- nothing skipped so far has ended the member or opened a brace
    obtain ⟨hclose, hclass⟩ := hzero rfl
    cases h with
    | plain hplain =>
      cases hstop with
      | semicolon _ hs => exact (hplain _ (by simp)).1 hs
      | body _ ho _ _ => exact (hplain _ (by simp)).2.1 ho
      | front _ ht => exact ht.elim hclose hclass
      | finish ht => exact hend ht

end Underway

/-! ### Runs -/

/-- Behind the tokens `w`, going on over `skipped` to the token `next` leads to the first
point to stop at, and on the way no brace is closed that was not opened. -/
structure StopsFirst (w skipped : List Token) (next : Token) : Prop where
  stop : MemberStop (w ++ skipped) next
  first : ∀ v s, v ++ [s] <+: skipped → ¬ MemberStop (w ++ v) s
  nested : ∀ v, v <+: skipped → bracesClosed (w ++ v) ≤ bracesOpened (w ++ v)

namespace StopsFirst

variable {w skipped : List Token} {t next : Token}

theorem here (hcounts : bracesClosed w ≤ bracesOpened w) (h : MemberStop w next) :
    StopsFirst w [] next where
  stop := by simpa using h
  first v s hv := by simp at hv
  nested v hv := by simpa [List.prefix_nil.1 hv] using hcounts

/-- Recovery has to go on, and does so over one token. -/
theorem step (hcounts : bracesClosed w ≤ bracesOpened w) (hgo : ¬ MemberStop w t)
    (h : StopsFirst (w ++ [t]) skipped next) : StopsFirst w (t :: skipped) next where
  stop := by simpa using h.stop
  first v s hv := by
    cases v with
    | nil =>
      obtain ⟨rfl, -⟩ := List.cons_prefix_cons.1 hv
      simpa using hgo
    | cons u v =>
      obtain ⟨rfl, hrest⟩ := List.cons_prefix_cons.1 hv
      simpa using h.first v s hrest
  nested v hv := by
    cases v with
    | nil => simpa using hcounts
    | cons u v =>
      obtain ⟨rfl, hrest⟩ := List.cons_prefix_cons.1 hv
      simpa using h.nested v hrest

end StopsFirst

/-- From the cursor on, with the tokens `w` skipped already, the parser leads to the first
point to stop at. -/
def Recovers (p : Parser Unit) (w : List Token) (c : Cursor) : Prop :=
  StopsFirst w (consumedIn (p c).events) (p c).cursor.current

namespace Recovers

variable {p q : Parser Unit} {c : Cursor} {n : Nat} {w : List Token}

theorem congr (h : Recovers q w c) (hrun : p c = q c) : Recovers p w c := by
  unfold Recovers
  rw [hrun]
  exact h

theorem stay (hcounts : bracesClosed w ≤ bracesOpened w) (hstop : MemberStop w c.current) :
    Recovers (pure ()) w c :=
  .here hcounts hstop

/-- Recovery goes on behind the current token. -/
theorem go_on {f : Unit → Parser Unit} (h : Underway w n)
    (hend : c.current.kind ≠ .endOfInput)
    (hzero : n = 0 → c.current.kind ≠ .closeCurly ∧ c.current.kind ≠ .classWord)
    (hf : Recovers (f ()) (w ++ [c.current]) c.advance.1) : Recovers (skip >>= f) w c := by
  have hrun := run_bind_ok f (congrArg Reply.outcome (run_skip c))
  rw [run_skip] at hrun
  unfold Recovers
  rw [hrun, consumedIn_append, Cursor.consumedIn_advance hend]
  exact .step (h.counts ▸ Nat.le_add_right _ _) (h.not_stop hend hzero) hf

/-- The current token is the last one. -/
theorem last (h : Underway w n) (hend : c.current.kind ≠ .endOfInput)
    (hzero : n = 0 → c.current.kind ≠ .closeCurly ∧ c.current.kind ≠ .classWord)
    (hcounts : bracesClosed (w ++ [c.current]) ≤ bracesOpened (w ++ [c.current]))
    (hstop : ∀ next, MemberStop (w ++ [c.current]) next) : Recovers skip w c := by
  have hlast := go_on (f := fun _ => pure ()) h hend hzero (.stay hcounts (hstop _))
  exact hlast.congr (congrArg (fun p => p.run c) (bind_pure_unit (x := skip)).symm)

end Recovers

section Skipping

variable {c : Cursor} {n : Nat} {w : List Token}

theorem skipMember_of_endOfInput (h : c.current.kind = .endOfInput) :
    skipMember n c = (pure () : Parser Unit) c := by
  rw [run_skipMember, skipMemberRound, run_kind_bind, h]

theorem skipMember_zero_of_classWord (h : c.current.kind = .classWord) :
    skipMember 0 c = (pure () : Parser Unit) c := by
  rw [run_skipMember, skipMemberRound, run_kind_bind, h]
  rfl

/-- At a closing brace. -/
theorem skipMember_recovers_closeCurly (h : Underway w n) (hclose : c.current.kind = .closeCurly)
    (ih : ∀ m, Underway (w ++ [c.current]) m →
      Recovers (skipMember m) (w ++ [c.current]) c.advance.1) : Recovers (skipMember n) w c := by
  have hend : c.current.kind ≠ .endOfInput := hclose ▸ nofun
  match n with
  | 0 =>
    have hfront := Recovers.stay (c := c) (Nat.le_of_eq h.counts.symm)
      (.front h.balanced (.inl hclose))
    exact hfront.congr (skipMember_zero_of_closeCurly hclose)
  | 1 =>
    have hcounts : bracesClosed (w ++ [c.current]) ≤ bracesOpened (w ++ [c.current]) := by
      simp [bracesOpened_cons, bracesClosed_cons, hclose, h.counts]
    have hlast := Recovers.last h hend nofun hcounts (h.stop_of_closeCurly hclose)
    exact hlast.congr (skipMember_one_of_closeCurly hclose)
  | m + 2 =>
    have hgo := Recovers.go_on (f := fun _ => skipMember (m + 1)) h hend nofun
      (ih _ (h.closeCurly hclose))
    exact hgo.congr (skipMember_of_closeCurly hclose)

/-- **Recovery stops at the first point to stop at.** -/
theorem skipMember_recovers (n : Nat) (w : List Token) (c : Cursor) (h : Underway w n) :
    Recovers (skipMember n) w c := by
  generalize hm : c.left = m
  induction m using Nat.strongRecOn generalizing n w c with
  | ind m ih =>
    have hcounts : bracesClosed w ≤ bracesOpened w := h.counts ▸ Nat.le_add_right _ _
    by_cases hend : c.current.kind = .endOfInput
    · exact (Recovers.stay hcounts (.finish hend)).congr (skipMember_of_endOfInput hend)
    have hagain : ∀ k, Underway (w ++ [c.current]) k →
        Recovers (skipMember k) (w ++ [c.current]) c.advance.1 := fun k hk =>
      ih _ (hm ▸ Cursor.left_advance_lt hend) k _ _ hk rfl
    by_cases hclose : c.current.kind = .closeCurly
    · exact skipMember_recovers_closeCurly h hclose hagain
    by_cases hopen : c.current.kind = .openCurly
    · have hgo := Recovers.go_on (f := fun _ => skipMember (n + 1)) h hend
        (fun _ => ⟨hclose, hopen ▸ nofun⟩) (hagain _ (h.openCurly hopen))
      exact hgo.congr (skipMember_of_openCurly hopen)
    by_cases hstop : n = 0 ∧ (c.current.kind = .semicolon ∨ c.current.kind = .classWord)
    · obtain ⟨rfl, hsemicolon | hclass⟩ := hstop
      · have hlast := Recovers.last h hend (fun _ => ⟨hclose, hsemicolon ▸ nofun⟩)
          (by simpa [bracesOpened_cons, bracesClosed_cons, hsemicolon] using hcounts)
          (fun _ => .semicolon h.balanced hsemicolon)
        exact hlast.congr (skipMember_zero_of_semicolon hsemicolon)
      · have hfront := Recovers.stay (c := c) hcounts (.front h.balanced (.inr hclass))
        exact hfront.congr (skipMember_zero_of_classWord hclass)
    · have hneither : n = 0 → c.current.kind ≠ .semicolon ∧ c.current.kind ≠ .classWord :=
        fun hzero => not_or.1 fun hk => hstop ⟨hzero, hk⟩
      have hgo := Recovers.go_on (f := fun _ => skipMember n) h hend
        (fun hzero => ⟨hclose, (hneither hzero).2⟩)
        (hagain _ (h.other ⟨hopen, hclose⟩ fun hzero => (hneither hzero).1))
      exact hgo.congr (skipMember_of_other hend ⟨hopen, hclose⟩ hneither)

theorem endsBody_eq_false_iff {k : Kind} :
    endsBody k = false ↔ k ≠ .closeCurly ∧ k ≠ .endOfInput ∧ k ≠ .classWord := by
  simp [endsBody]

/-- A token that is skipped for the sake of progress is one to skip anyway. -/
theorem resumeMember_eq_skipMember {start : Nat}
    (h : c.consumed = start → endsBody c.current.kind = false) :
    resumeMember start c = skipMember 0 c := by
  by_cases hs : c.consumed = start
  · obtain ⟨hclose, hend, hclass⟩ := endsBody_eq_false_iff.1 (h hs)
    by_cases hsemicolon : c.current.kind = .semicolon
    · rw [resumeMember_of_semicolon hs hsemicolon, skipMember_zero_of_semicolon hsemicolon]
    by_cases hopen : c.current.kind = .openCurly
    · rw [resumeMember_of_openCurly hs hopen, skipMember_of_openCurly hopen]
    · rw [resumeMember_of_other hs hsemicolon hopen,
        skipMember_of_other hend ⟨hopen, hclose⟩ fun _ => ⟨hsemicolon, hclass⟩]
  · exact resumeMember_of_ne hs

end Skipping

/-- **Recovery after a member stops exactly where its count of braces says**, whatever lies
ahead. If no token was consumed by the member, the current one must not end the class body,
as in the loop over the members. The tokens skipped close no brace that they did not open, and
leave none open unless the input has ended. Recovery stops at a point at which the member is
over, and there was none before it; and it makes progress if the member did not. -/
theorem resumeMember_stops_first (c : Cursor) (start : Nat)
    (h : c.consumed = start → endsBody c.current.kind = false) :
    let reply := resumeMember start c
    let skipped := consumedIn reply.events
    reply.outcome = .ok () ∧ c.upcoming = skipped ++ reply.cursor.upcoming ∧
      (∀ v, v <+: skipped → bracesClosed v ≤ bracesOpened v) ∧
      (reply.cursor.current.kind ≠ .endOfInput → bracesOpened skipped = bracesClosed skipped) ∧
      MemberStop skipped reply.cursor.current ∧
      (∀ v s, v ++ [s] <+: skipped → ¬ MemberStop v s) ∧
      (c.consumed = start → skipped ≠ []) := by
  intro reply skipped
  have hrecovers : StopsFirst [] skipped reply.cursor.current := by
    have hskip := skipMember_recovers 0 [] c (.plain .nil)
    exact hskip.congr (resumeMember_eq_skipMember h)
  obtain ⟨hstop, hfirst, hnested⟩ := hrecovers
  refine ⟨resumeMember_ok start c, ((resumeMember start).reaches c).tokens, hnested, ?_, hstop,
    hfirst, ?_⟩
  · intro hend
    exact Nat.le_antisymm (hstop.opened_le hend) (hnested skipped (List.prefix_refl _))
  · intro hs hnil
    obtain ⟨hclose, hend, hclass⟩ := endsBody_eq_false_iff.1 (h hs)
    have hcursor : reply.cursor = c := by
      have hafter : reply.cursor = c.after skipped.length :=
        ((resumeMember start).reaches c).cursor
      rw [hafter, hnil]
      rfl
    have hgo : ¬ MemberStop [] c.current :=
      (Underway.plain .nil).not_stop hend fun _ => ⟨hclose, hclass⟩
    rw [hnil, hcursor] at hstop
    exact hgo hstop

/-- A `class` inside braces and then their end; and a brace that is never closed. -/
theorem resumeMember_stops_first_at_braces :
    let c := (Cursor.ofSource (.ofText "x \x7b class ; \x7d y ;" "A.btm")).1
    let d := (Cursor.ofSource (.ofText "\x7b x ; class B \x7b \x7d" "A.btm")).1
    let stops (c : Cursor) := MemberStop (consumedIn (resumeMember 0 c).events)
      (resumeMember 0 c).cursor.current
    (stops c ∧ (resumeMember 0 c).cursor.consumed = 5) ∧
      stops d ∧ (resumeMember 0 d).cursor.current.kind = .endOfInput := by
  intro c d stops
  have hc := resumeMember_stops_first c 0 (by decide +kernel)
  have hd := resumeMember_stops_first d 0 (by decide +kernel)
  exact ⟨⟨hc.2.2.2.2.1, by decide +kernel⟩, hd.2.2.2.2.1, by decide +kernel⟩

end BantamJava
