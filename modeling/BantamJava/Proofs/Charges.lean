/-
# No avalanche of diagnostics

Every diagnostic that a parse raises can be charged to a token of its own: the first token of
the statement, member or class that was dropped, the `{` whose `}` is missing, or the `else`
whose statement failed while it was skipped. So there are never more diagnostics than tokens.

Failures nest, and the same token must not be charged twice. What carries the argument is
that a statement, member or class that fails charges nothing to its first token. A block that
has its `{` does not fail, and every other statement charges what is inside it to later
tokens. So the first token is free for the statement itself when it is dropped. Recovery
begins behind what was consumed; and if that was nothing, it consumes the first token unseen
and charges none of its own to it.

Key definitions: `Ran`, `Charge`, `Spread`, `Charged`, `Accounts`, `FirstFree`.
Key theorems: `turn_charged`, `stmt_firstFree`, `classes_accounts`, `parse_charges_tokens`.
-/
import Mathlib.Data.List.Perm.Subperm
import BantamJava.Proofs.FailedIfRecovery

namespace BantamJava

open BantamJava.Parser

/-! ### Charges -/

/-- In the journal `es` of a run from `c`, the parser was run at token `i`. -/
def Ran {α : Type} (c : Cursor) (es : List Event) (p : Parser α) (i : Nat) : Prop :=
  ∃ pre post, es = pre ++ ((p (c.after i)).events ++ post) ∧ (consumedIn pre).length = i

/-- The fault `f`, reported in the journal `es` of a run from `c`, is due to token `i`. -/
inductive Charge (c : Cursor) (es : List Event) (i : Nat) (f : Fault) : Prop where
  | droppedStmt (hrun : Ran c es (recovering (stmt .standard) (resumeStmt .standard)) i)
      (hf : (stmt .standard (c.after i)).outcome = .error f)
  | droppedMember (hrun : Ran c es (recovering (member .standard) resumeMember) i)
      (hf : (member .standard (c.after i)).outcome = .error f)
  | droppedClass (hrun : Ran c es (recovering (classDecl .standard) resumeClass) i)
      (hf : (classDecl .standard (c.after i)).outcome = .error f)
  | openBlock (hk : (c.after i).current.kind = .openCurly)
      (hrun : Ran c es (stmtsWith (stmt .standard)) (i + 1))
      (hf : ((stmtsWith (stmt .standard) >>= fun _ => expect .closeCurly)
        (c.after (i + 1))).outcome = .error f)
  | openClass (hk : (c.after i).current.kind = .openCurly)
      (hrun : Ran c es (members .standard) (i + 1))
      (hf : ((members .standard >>= fun _ => expect .closeCurly)
        (c.after (i + 1))).outcome = .error f)
  | failedElse (hk : (c.after i).current.kind = .elseWord)
      (hrun : Ran c es (skipElse (stmt .standard) (resumeStmt .standard)) i)
      (hf : (stmt .standard (c.after (i + 1))).outcome = .error f)

section Within

variable {α : Type} {c d : Cursor} {pre es post : List Event} {p : Parser α} {i : Nat} {f : Fault}

theorem Ran.self (p : Parser α) (c : Cursor) : Ran c (p c).events p 0 :=
  ⟨[], [], by simp [Cursor.after], rfl⟩

/-- What was run in a part of the journal was run in the whole. -/
theorem Ran.within (hd : d = c.after (consumedIn pre).length) (h : Ran d es p i) :
    Ran c (pre ++ (es ++ post)) p ((consumedIn pre).length + i) := by
  obtain ⟨pre', post', rfl, rfl⟩ := h
  refine ⟨pre ++ pre', post' ++ post, ?_, by simp⟩
  rw [Cursor.after_add, ← hd]
  simp only [List.append_assoc]

theorem Charge.within (hd : d = c.after (consumedIn pre).length) (h : Charge d es i f) :
    Charge c (pre ++ (es ++ post)) ((consumedIn pre).length + i) f := by
  have hafter : ∀ j, c.after ((consumedIn pre).length + j) = d.after j := by
    intro j
    rw [Cursor.after_add, hd]
  cases h with
  | droppedStmt hrun hf => exact .droppedStmt (hrun.within hd) (by rwa [hafter])
  | droppedMember hrun hf => exact .droppedMember (hrun.within hd) (by rwa [hafter])
  | droppedClass hrun hf => exact .droppedClass (hrun.within hd) (by rwa [hafter])
  | openBlock hk hrun hf =>
    exact .openBlock (by rwa [hafter]) (hrun.within hd) (by rwa [Nat.add_assoc, hafter])
  | openClass hk hrun hf =>
    exact .openClass (by rwa [hafter]) (hrun.within hd) (by rwa [Nat.add_assoc, hafter])
  | failedElse hk hrun hf =>
    exact .failedElse (by rwa [hafter]) (hrun.within hd) (by rwa [Nat.add_assoc, hafter])

end Within

/-! ### Different tokens -/

/-- The faults are charged to different tokens from `lo` on and before `hi`, each as `C`
allows. -/
def Spread (C : Nat → Fault → Prop) (lo hi : Nat) (fs : List Fault) : Prop :=
  ∃ charges : List (Nat × Fault), charges.map (·.2) = fs ∧ (charges.map (·.1)).Nodup ∧
    ∀ x ∈ charges, C x.1 x.2 ∧ lo ≤ x.1 ∧ x.1 < hi

namespace Spread

variable {C D : Nat → Fault → Prop} {lo mid lo' hi : Nat} {fs gs : List Fault} {f : Fault}

theorem nil : Spread C lo hi [] := ⟨[], rfl, .nil, nofun⟩

theorem weaken (h : Spread C lo hi fs) (hCD : ∀ i g, C i g → D i g) (hlo : lo' ≤ lo) :
    Spread D lo' hi fs := by
  obtain ⟨charges, hfs, hnodup, hall⟩ := h
  refine ⟨charges, hfs, hnodup, fun x hx => ?_⟩
  obtain ⟨hC, hge, hlt⟩ := hall x hx
  exact ⟨hCD _ _ hC, Nat.le_trans hlo hge, hlt⟩

theorem shift {n : Nat} (h : Spread (fun i => C (n + i)) lo hi fs) :
    Spread C (n + lo) (n + hi) fs := by
  obtain ⟨charges, rfl, hnodup, hall⟩ := h
  refine ⟨charges.map fun x => (n + x.1, x.2), by simp [Function.comp_def], ?_, ?_⟩
  · rw [List.map_map]
    have hpairs := List.pairwise_map.1 hnodup
    exact List.pairwise_map.2 (hpairs.imp fun hne heq => hne (Nat.add_left_cancel heq))
  · intro x hx
    obtain ⟨y, hy, rfl⟩ := List.mem_map.1 hx
    obtain ⟨hC, hge, hlt⟩ := hall y hy
    exact ⟨hC, Nat.add_le_add_left hge n, Nat.add_lt_add_left hlt n⟩

theorem append (h : Spread C lo mid fs) (h' : Spread C lo' hi gs) (hmid : mid ≤ lo')
    (hlo : lo ≤ lo') (hhi : mid ≤ hi) : Spread C lo hi (fs ++ gs) := by
  obtain ⟨charges, rfl, hnodup, hall⟩ := h
  obtain ⟨charges', rfl, hnodup', hall'⟩ := h'
  refine ⟨charges ++ charges', List.map_append, ?_, fun x hx => ?_⟩
  · rw [List.map_append, List.nodup_append]
    refine ⟨hnodup, hnodup', fun i hi j hj => ?_⟩
    obtain ⟨x, hx, rfl⟩ := List.mem_map.1 hi
    obtain ⟨y, hy, rfl⟩ := List.mem_map.1 hj
    have hx' := (hall x hx).2.2
    have hy' := (hall' y hy).2.1
    omega
  · rcases List.mem_append.1 hx with hx | hx
    · obtain ⟨hC, hge, hlt⟩ := hall x hx
      exact ⟨hC, hge, Nat.lt_of_lt_of_le hlt hhi⟩
    · obtain ⟨hC, hge, hlt⟩ := hall' x hx
      exact ⟨hC, Nat.le_trans hlo hge, hlt⟩

/-- A fault among others is charged to a token before theirs. -/
theorem insert (h : Spread C (lo + 1) hi (fs ++ gs)) (hf : C lo f) (hhi : lo < hi) :
    Spread C lo hi (fs ++ f :: gs) := by
  obtain ⟨charges, hmap, hnodup, hall⟩ := h
  obtain ⟨before, behind, rfl, rfl, rfl⟩ := List.map_eq_append_iff.1 hmap
  refine ⟨before ++ (lo, f) :: behind, by simp, ?_, fun x hx => ?_⟩
  · rw [List.map_append, List.map_cons, List.perm_middle.nodup_iff, List.nodup_cons,
      ← List.map_append]
    refine ⟨fun hmem => ?_, hnodup⟩
    obtain ⟨x, hx, heq⟩ := List.mem_map.1 hmem
    have hge := (hall x hx).2.1
    omega
  · rcases List.mem_cons.1 (List.perm_middle.mem_iff.1 hx) with rfl | hx
    · exact ⟨hf, Nat.le_refl _, hhi⟩
    · obtain ⟨hC, hge, hlt⟩ := hall x hx
      exact ⟨hC, Nat.le_of_succ_le hge, hlt⟩

/-- There are no more faults than tokens. -/
theorem length_le (h : Spread C lo hi fs) : fs.length ≤ hi := by
  obtain ⟨charges, rfl, hnodup, hall⟩ := h
  have hsubset : charges.map (·.1) ⊆ List.range hi := by
    intro i hi
    obtain ⟨x, hx, rfl⟩ := List.mem_map.1 hi
    exact List.mem_range.2 (hall x hx).2.2
  have hle := (List.subperm_of_subset hnodup hsubset).length_le
  simpa using hle

end Spread

/-! ### Journals -/

/-- The faults that the journal of a run from `c` reports are charged to different tokens of
those that it consumes, from token `lo` on. -/
def Charged (c : Cursor) (lo : Nat) (es : List Event) : Prop :=
  Spread (Charge c es) lo (consumedIn es).length (faultsIn es)

namespace Charged

variable {c d : Cursor} {lo lo' : Nat} {es es' : List Event} {f : Fault}

theorem of_quiet (h : faultsIn es = []) : Charged c lo es := by
  rw [Charged, h]
  exact .nil

theorem mono (h : Charged c lo es) (hlo : lo' ≤ lo) : Charged c lo' es :=
  h.weaken (fun _ _ hC => hC) hlo

theorem first (h : Charged c lo es) :
    Spread (Charge c (es ++ es')) lo (consumedIn es).length (faultsIn es) := by
  refine h.weaken (fun i g hC => ?_) (Nat.le_refl lo)
  have hin : Charge c ([] ++ (es ++ es')) ((consumedIn []).length + i) g := .within rfl hC
  rwa [List.nil_append, consumedIn_nil, List.length_nil, Nat.zero_add] at hin

theorem second (es : List Event) (h : Charged d lo es') (hd : d = c.after (consumedIn es).length) :
    Spread (Charge c (es ++ es')) ((consumedIn es).length + lo)
      ((consumedIn es).length + (consumedIn es').length) (faultsIn es') := by
  refine Spread.shift (h.weaken (fun i g hC => ?_) (Nat.le_refl lo))
  have hin : Charge c (es ++ (es' ++ [])) ((consumedIn es).length + i) g := .within hd hC
  rwa [List.append_nil] at hin

/-- **One journal behind another.** -/
theorem append (h : Charged c lo es) (hd : d = c.after (consumedIn es).length)
    (h' : Charged d (lo - (consumedIn es).length) es') : Charged c lo (es ++ es') := by
  have hboth := h.first.append (h'.second es hd) (by omega) (by omega) (by omega)
  rwa [← faultsIn_append, ← List.length_append, ← consumedIn_append] at hboth

/-- **A fault between two journals**, charged to the first token of all. -/
theorem around (h : Charged c 1 es) (hd : d = c.after (consumedIn es).length)
    (h' : Charged d (1 - (consumedIn es).length) es')
    (hf : Charge c (es ++ .reported f :: es') 0 f)
    (hpos : 0 < (consumedIn (es ++ .reported f :: es')).length) :
    Charged c 0 (es ++ .reported f :: es') := by
  have hsame : consumedIn (es ++ [.reported f]) = consumedIn es := by simp [Event.consumed?]
  have hbehind := h'.second (es ++ [.reported f]) (by rwa [hsame])
  rw [hsame, List.append_assoc, List.singleton_append] at hbehind
  have hboth := h.first.append hbehind (by omega) (by omega) (by omega)
  have hlength : (consumedIn (es ++ .reported f :: es')).length =
      (consumedIn es).length + (consumedIn es').length := by simp [Event.consumed?]
  have hfaults : faultsIn (es ++ .reported f :: es') = faultsIn es ++ f :: faultsIn es' := by
    simp [Event.fault?]
  rw [Charged, hfaults, hlength]
  exact hboth.insert hf (hlength ▸ hpos)

end Charged

/-! ### Parsers that account for what they report -/

section Accounts

variable {α β : Type} {n lo : Nat} {c : Cursor} {p : Parser α} {f : α → Parser β}

/-- In sequence. -/
theorem charged_bind (hp : Charged c lo (p c).events)
    (hf : ∀ a, (p c).outcome = .ok a → Charged (p c).cursor
      (lo - (consumedIn (p c).events).length) (f a (p c).cursor).events) :
    Charged c lo ((p >>= f) c).events := by
  cases ha : (p c).outcome with
  | error e =>
    rw [run_bind_error f ha]
    exact hp
  | ok a =>
    rw [run_bind_ok f ha]
    exact hp.append (p.reaches c).cursor (hf a ha)

/-- A parser that reports nothing of its own has nothing to charge. -/
theorem charged_of_quiet (h : Trait.quiet.holds p c) (hc : c.pending = []) :
    Charged c lo (p c).events := by
  have hquiet : faultsIn (p c).events ++ (p c).cursor.pending = c.pending := h
  rw [hc] at hquiet
  exact .of_quiet (List.append_eq_nil_iff.1 hquiet).1

/-- With no faulty lexeme ahead and fewer than `n` tokens left, what the parser reports is
charged to different tokens of those it consumes. -/
def Accounts (n : Nat) (p : Parser α) : Prop :=
  ∀ c : Cursor, c.pending = [] → c.left < n → Charged c 0 (p c).events

theorem accounts_of_quiet (h : Trait.quiet.Has p) : Accounts n p :=
  fun c hc _ => charged_of_quiet (h c) hc

theorem Accounts.bind (hp : Accounts n p) (hf : ∀ a, Accounts n (f a)) : Accounts n (p >>= f) := by
  intro c hc hn
  refine charged_bind (hp c hc hn) fun a _ => ?_
  rw [Nat.zero_sub]
  exact hf a _ ((p.reaches c).pending_eq_nil hc) (Nat.lt_of_le_of_lt (p.left_le c) hn)

theorem accounts_pure (a : α) : Accounts n (pure a : Parser α) :=
  accounts_of_quiet (Trait.has_pure a)

theorem accounts_kind {g : Kind → Parser β} (h : ∀ k, Accounts n (g k)) : Accounts n (kind >>= g) :=
  .bind (accounts_of_quiet Trait.quiet.holds_kind) h

/-- Behind a parser that reports nothing and consumes a token, the first token is free. -/
theorem charged_behind (hp : Trait.quiet.holds p c) (hconsumes : p.ConsumesAt c)
    (hf : ∀ a, Accounts c.left (f a)) (hc : c.pending = []) : Charged c 1 ((p >>= f) c).events := by
  refine charged_bind (charged_of_quiet hp hc) fun a ha => ?_
  have hlt := hconsumes a ha
  have hadd := (p.reaches c).left_add
  have hnone : 1 - (consumedIn (p c).events).length = 0 := by omega
  rw [hnone]
  exact hf a _ ((p.reaches c).pending_eq_nil hc) hlt

/-- Behind a token that is taken, the first token is free. -/
theorem charged_advance (hp : Accounts c.left p) (hne : c.current.kind ≠ .endOfInput)
    (hc : c.pending = []) : Charged c 1 (c.advance.2 ++ (p c.advance.1).events) := by
  have hone : consumedIn c.advance.2 = [c.current] := Cursor.consumedIn_advance hne
  refine Charged.append (.of_quiet (Cursor.faultsIn_advance_of_quiet hc)) (by rw [hone]) ?_
  rw [hone]
  exact hp _ ((Cursor.reaches_advance c).pending_eq_nil hc) (Cursor.left_advance_lt hne)

/-! ### Turns and loops -/

/-- What the parser reports is charged to different tokens, and if it fails, its first token
is free. -/
structure FirstFree (p : Parser α) (c : Cursor) : Prop where
  charged : Charged c 0 (p c).events
  failed : ∀ f, (p c).outcome = .error f → Charged c 1 (p c).events

theorem FirstFree.congr {q : Parser α} (h : FirstFree q c) (hpq : p c = q c) : FirstFree p c :=
  ⟨hpq ▸ h.charged, fun f hf => hpq ▸ h.failed f (hpq ▸ hf)⟩

theorem firstFree_of_one (h : Charged c 1 (p c).events) : FirstFree p c :=
  ⟨h.mono (Nat.zero_le 1), fun _ _ => h⟩

/-- **A turn of a loop.** If it fails, that is charged to its first token; recovery takes that
token without charging it, if it was not consumed. -/
theorem turn_charged {recover : Nat → Parser Unit} (hp : FirstFree p c)
    (hrecover : Charged (p c).cursor (1 - (consumedIn (p c).events).length)
      (recover c.consumed (p c).cursor).events)
    (hlt : (recovering p recover c).cursor.left < c.left)
    (hcharge : ∀ f, (p c).outcome = .error f → Charge c (recovering p recover c).events 0 f) :
    Charged c 0 (recovering p recover c).events := by
  cases ho : (p c).outcome with
  | ok a =>
    rw [run_recovering_ok ho]
    exact hp.charged
  | error f =>
    have hadd := ((recovering p recover).reaches c).left_add
    have hpos : 0 < (consumedIn (recovering p recover c).events).length := by omega
    have hafter : Charged (p c).cursor (1 - (consumedIn (p c).events).length)
        ((recover c.consumed >>= fun _ => (pure none : Parser (Option α))) (p c).cursor).events :=
      charged_bind hrecover fun _ _ => .of_quiet rfl
    have hf := hcharge f ho
    rw [run_recovering_error ho] at hf hpos ⊢
    exact (hp.failed f ho).around (p.reaches c).cursor hafter hf hpos

/-- A loop, turn by turn. -/
theorem collect_accounts {stop : Kind → Bool} {turn : Parser (Option α)}
    (hlt : ∀ c : Cursor, stop c.current.kind = false → (turn c).cursor.left < c.left)
    (hturn : ∀ c : Cursor, c.pending = [] → c.left < n → stop c.current.kind = false →
      Charged c 0 (turn c).events) : Accounts n (collect stop turn) := by
  intro c hc hn
  generalize hm : c.left = m
  induction m using Nat.strongRecOn generalizing c with
  | ind m ih =>
    rw [collect_eq hlt]
    cases hs : stop c.current.kind with
    | true =>
      rw [collectRound, run_kind_bind, hs]
      exact .of_quiet rfl
    | false =>
      have hl := hlt c hs
      rw [run_collectRound hs]
      refine charged_bind (hturn c hc hn hs) fun found _ => ?_
      have hrest := ih _ (hm ▸ hl) (turn c).cursor ((turn.reaches c).pending_eq_nil hc)
        (Nat.lt_trans hl hn) rfl
      rw [Nat.zero_sub]
      exact charged_bind hrest fun _ _ => .of_quiet rfl

/-! ### Braces -/

theorem run_expect_of_ne {k : Kind} (h : c.current.kind ≠ k) :
    expect k c = ⟨.error ⟨.expected k c.current.value, c.current.position⟩, c, []⟩ := by
  rw [expect, run_expectElse, if_neg h]
  rfl

theorem run_closeBody_of_ne (h : c.current.kind ≠ .closeCurly) :
    closeBody c =
      ⟨.ok (), c, [.reported ⟨.expected .closeCurly c.current.value, c.current.position⟩]⟩ := by
  rw [closeBody, run_bind_ok (p := attempt _) _ rfl]
  simp only [attempt, run_expect_of_ne h]
  rfl

theorem closeBody_ok (c : Cursor) : (closeBody c).outcome = .ok () := by
  by_cases hk : c.current.kind = .closeCurly
  · rw [run_closeBody hk]
  · rw [run_closeBody_of_ne hk]

/-- Once the opening brace is there, nothing fails. -/
theorem run_braced {q : Parser α} {g : Token → α → β} {a : α} (hk : c.current.kind = .openCurly)
    (ha : (q c.advance.1).outcome = .ok a) :
    (expect .openCurly >>= fun t => q >>= fun a => closeBody >>= fun _ => pure (g t a)) c =
      ⟨.ok (g c.current a), (closeBody (q c.advance.1).cursor).cursor,
        c.advance.2 ++ (q c.advance.1).events ++ (closeBody (q c.advance.1).cursor).events⟩ := by
  have hopen : (expect .openCurly c).outcome = .ok c.current := by rw [run_expect_of_kind hk]
  rw [run_bind_ok _ hopen, run_expect_of_kind hk, run_bind_ok _ ha, run_bind_ok _ (closeBody_ok _),
    run_pure, List.append_nil, List.append_assoc]

/-- **What stands between braces.** If the closing brace is missing, that is charged to the
opening one. -/
theorem braced_firstFree {q : Parser α} {g : Token → α → β} (hq : Accounts c.left q)
    (hok : ∀ d, ∃ a, (q d).outcome = .ok a) (hc : c.pending = [])
    (hcharge : ∀ es f, c.current.kind = .openCurly → Ran c es q 1 →
      ((q >>= fun _ => expect .closeCurly) c.advance.1).outcome = .error f → Charge c es 0 f) :
    FirstFree (expect .openCurly >>= fun t => q >>= fun a => closeBody >>= fun _ => pure (g t a))
      c := by
  by_cases hk : c.current.kind = .openCurly
  · obtain ⟨a, ha⟩ := hok c.advance.1
    have hrun := run_braced (g := g) hk ha
    have hne : c.current.kind ≠ .endOfInput := hk ▸ nofun
    have hone : consumedIn c.advance.2 = [c.current] := Cursor.consumedIn_advance hne
    have hinside := charged_advance hq hne hc
    have hreach := (Cursor.reaches_advance c).trans (q.reaches c.advance.1)
    generalize he : (q c.advance.1).cursor = e at hrun hreach
    refine ⟨?_, fun f hf => ?_⟩
    · rw [hrun]
      by_cases hclose : e.current.kind = .closeCurly
      · refine (hinside.mono (Nat.zero_le 1)).append hreach.cursor (.of_quiet ?_)
        rw [run_closeBody hclose]
        exact Cursor.faultsIn_advance_of_quiet (hreach.pending_eq_nil hc)
      · have hmissing : ((q >>= fun _ => expect .closeCurly) c.advance.1).outcome =
            .error ⟨.expected .closeCurly e.current.value, e.current.position⟩ := by
          rw [run_bind_ok _ ha, he, run_expect_of_ne hclose]
        have hran : ∀ post, Ran c (c.advance.2 ++ (q c.advance.1).events ++ post) q 1 :=
          fun post => ⟨c.advance.2, post, List.append_assoc _ _ _, by rw [hone]; rfl⟩
        rw [run_closeBody_of_ne hclose]
        refine hinside.around hreach.cursor (.of_quiet rfl) (hcharge _ _ hk (hran _) hmissing) ?_
        simp [hone]
    · rw [hrun] at hf
      cases hf
  · have hfails := congrArg Reply.outcome (run_expect_of_ne hk)
    refine firstFree_of_one ?_
    rw [run_bind_error _ hfails, run_expect_of_ne hk]
    exact .of_quiet rfl

end Accounts

/-! ### Statements -/

section Statements

variable {c : Cursor} {n : Nat}

theorem skipElse_of_error {sub : Parser Stmt} {f : Fault} (again : Nat → Parser Unit)
    (h : c.current.kind = .elseWord) (hf : (sub c.advance.1).outcome = .error f) :
    ∃ q : Parser Unit, (q = again c.advance.1.consumed ∨ q = pure ()) ∧
      (skipElse sub again c).events =
        [.skippingElse] ++ (c.advance.2 ++ (sub c.advance.1).events) ++
          .reported f :: (q (sub c.advance.1).cursor).events := by
  simp only [run_skipElse h, hf]
  rw [run_bind_ok (p := report f) (a := ()) _ rfl, run_kind_bind, run_consumed_bind]
  split
  · exact ⟨_, .inl rfl, by simp [report, note]⟩
  · exact ⟨_, .inr rfl, by simp [report, note]⟩

/-- **The `else` of a statement that was dropped.** If its statement fails too, that is
charged to the `else`. -/
theorem skipElse_charged (hs : Accounts c.left (stmt .standard))
    (hr : ∀ start, Accounts c.left (resumeStmt .standard start)) (hc : c.pending = []) :
    Charged c 0 (skipElse (stmt .standard) (resumeStmt .standard) c).events := by
  by_cases hk : c.current.kind = .elseWord
  · have hne : c.current.kind ≠ .endOfInput := hk ▸ nofun
    have hone : consumedIn c.advance.2 = [c.current] := Cursor.consumedIn_advance hne
    have hnoted : Charged c 1
        ([.skippingElse] ++ (c.advance.2 ++ (stmt .standard c.advance.1).events)) :=
      Charged.append (.of_quiet rfl) rfl (charged_advance hs hne hc)
    cases ho : (stmt .standard c.advance.1).outcome with
    | ok st =>
      rw [skipElse_of_ok hk ho]
      exact hnoted.mono (Nat.zero_le 1)
    | error f =>
      obtain ⟨q, hq, hevents⟩ := skipElse_of_error (resumeStmt .standard) hk ho
      have hnote : c.Reaches [.skippingElse] c := .refl c rfl
      have hreach := hnote.trans
        ((Cursor.reaches_advance c).trans ((stmt .standard).reaches c.advance.1))
      have hrest : Charged (stmt .standard c.advance.1).cursor 0
          (q (stmt .standard c.advance.1).cursor).events := by
        rcases hq with rfl | rfl
        · exact hr _ _ (hreach.pending_eq_nil hc)
            (Nat.lt_of_le_of_lt ((stmt .standard).left_le _) (Cursor.left_advance_lt hne))
        · exact .of_quiet rfl
      have hcharge : Charge c (skipElse (stmt .standard) (resumeStmt .standard) c).events 0 f :=
        .failedElse hk (.self _ c) ho
      rw [hevents] at hcharge ⊢
      refine hnoted.around hreach.cursor (hrest.mono ?_) hcharge ?_
      · simp [hone, Event.consumed?]
      · simp [hone, Event.consumed?]
  · rw [skipElse, run_kind_bind, if_neg hk]
    exact .of_quiet rfl

/-- **Recovery after a statement.** If no token has been consumed since the statement
started, the next one is consumed and nothing is charged to it. -/
theorem resumeStmt_charged (hs : Accounts n (stmt .standard)) {lo start : Nat}
    (hlo : lo = 0 ∨ lo = 1 ∧ c.consumed = start) (hc : c.pending = []) (hn : c.left ≤ n) :
    Charged c lo (resumeStmt .standard start c).events := by
  generalize hm : c.left = m
  induction m using Nat.strongRecOn generalizing c lo start with
  | ind m ih =>
    have hquiet : Trait.quiet.holds (leaveStmt start) c :=
      Trait.leaveStmt_has Trait.quiet_allows start c
    have hreach := (leaveStmt start).reaches c
    have hle := hreach.left_le
    rw [resumeStmt_eq]
    refine charged_bind (charged_of_quiet hquiet hc) fun _ _ => ?_
    by_cases hk : (leaveStmt start c).cursor.current.kind = .elseWord
    · -- An `else` is left, so the input has not ended, and leaving took a token if it had to.
      have hforced : lo - (consumedIn (leaveStmt start c).events).length = 0 := by
        rcases hlo with rfl | ⟨rfl, rfl⟩
        · exact Nat.zero_sub _
        · have hne : c.current.kind ≠ .endOfInput := by
            intro he
            have hzero := Cursor.left_eq_zero_iff.2 he
            have hend := Cursor.left_eq_zero_iff.1 (Nat.le_zero.1 (hzero ▸ hle))
            rw [hk] at hend
            cases hend
          have hstep := left_forceStep_lt hne
          have hleave : (leaveStmt c.consumed c).cursor.left ≤ _ := left_bind_le _ _ c
          have hadd := hreach.left_add
          omega
      rw [hforced]
      refine skipElse_charged (fun d hd hl => hs d hd (by omega)) (fun start' d hd hl => ?_)
        (hreach.pending_eq_nil hc)
      exact ih d.left (by omega) (.inl rfl) hd (by omega) rfl
    · show Charged _ _ (skipElse _ _ (leaveStmt start c).cursor).events
      rw [skipElse, run_kind_bind, if_neg hk]
      exact .of_quiet rfl

/-- A turn of the loop over the statements of a block. -/
theorem stmtTurn_charged (hs : ∀ d : Cursor, d.pending = [] → d.left < n →
      FirstFree (stmt .standard) d) (hc : c.pending = []) (hn : c.left < n)
    (hgo : endsBody c.current.kind = false) :
    Charged c 0 (recovering (stmt .standard) (resumeStmt .standard) c).events := by
  have hreach := (stmt .standard).reaches c
  refine turn_charged (hs c hc hn) ?_ (left_stmtTurn_lt (stmt_consuming .standard) hgo)
    fun f hf => .droppedStmt (.self _ c) hf
  refine resumeStmt_charged (n := n) (fun d hd hl => (hs d hd hl).charged) ?_
    (hreach.pending_eq_nil hc) (Nat.le_of_lt (Nat.lt_of_le_of_lt hreach.left_le hn))
  have hcount := hreach.consumed_eq
  omega

theorem stmts_accounts (hs : ∀ d : Cursor, d.pending = [] → d.left < n →
    FirstFree (stmt .standard) d) : Accounts n (stmtsWith (stmt .standard)) :=
  collect_accounts (fun _ => left_stmtTurn_lt (stmt_consuming .standard)) fun _ hc hn hgo =>
    stmtTurn_charged hs hc hn hgo

theorem block_firstFree (hs : ∀ d : Cursor, d.pending = [] → d.left < c.left →
    FirstFree (stmt .standard) d) (hc : c.pending = []) : FirstFree (block .standard) c :=
  braced_firstFree (stmts_accounts hs) (fun d => (stmts_end .standard d).1) hc
    fun _ _ hk hran hf => .openBlock hk hran hf

/-- A statement with others inside, behind the word that it starts with. -/
theorem compound_firstFree {f : Token → Parser Stmt} (hf : ∀ t, Accounts c.left (f t))
    (hne : c.current.kind ≠ .endOfInput) (hc : c.pending = []) : FirstFree (advance >>= f) c :=
  firstFree_of_one (charged_behind (Trait.quiet.holds_advance fun _ => trivial)
    (consumesAt_advance hne) hf hc)

theorem conditionalStmt_firstFree (hs : Accounts c.left (stmt .standard))
    (hne : c.current.kind ≠ .endOfInput) (hc : c.pending = []) :
    FirstFree (conditionalStmt (stmt .standard)) c := by
  refine compound_firstFree (fun t => ?_) hne hc
  have hT := Trait.quiet_allows.unbraced.exprs
  refine .bind (accounts_of_quiet (Trait.condition_has hT)) fun test =>
    .bind hs fun yes => accounts_kind fun k => ?_
  split
  · exact .bind (accounts_of_quiet (Trait.has_skip Trait.quiet_allows)) fun _ => .bind hs fun no =>
      accounts_pure _
  · exact accounts_pure _

theorem whileStmt_firstFree (hs : Accounts c.left (stmt .standard))
    (hne : c.current.kind ≠ .endOfInput) (hc : c.pending = []) :
    FirstFree (whileStmt (stmt .standard)) c := by
  refine compound_firstFree (fun t => ?_) hne hc
  have hT := Trait.quiet_allows.unbraced.exprs
  exact .bind (accounts_of_quiet (Trait.condition_has hT)) fun test =>
    .bind hs fun body => accounts_pure _

theorem forStmt_firstFree (hs : Accounts c.left (stmt .standard))
    (hne : c.current.kind ≠ .endOfInput) (hc : c.pending = []) :
    FirstFree (forStmt (stmt .standard)) c := by
  have hexpect : ∀ k, Accounts c.left (expect k) := fun k =>
    accounts_of_quiet (Trait.has_expect (Trait.quiet_allows k))
  have hexpr : ∀ k, Accounts c.left (exprUnless k) := fun k =>
    accounts_of_quiet (Trait.exprUnless_has Trait.quiet_allows.unbraced.exprs k)
  refine compound_firstFree (fun t => ?_) hne hc
  exact (hexpect _).bind fun _ => (hexpr _).bind fun init => (hexpect _).bind fun _ =>
    (hexpr _).bind fun test => (hexpect _).bind fun _ => (hexpr _).bind fun update =>
    (hexpect _).bind fun _ => hs.bind fun body => accounts_pure _

theorem blockStmt_firstFree (hs : ∀ d : Cursor, d.pending = [] → d.left < c.left →
    FirstFree (stmt .standard) d) (hc : c.pending = []) :
    FirstFree (blockStmt (stmt .standard)) c := by
  have hblock := block_firstFree hs hc
  refine ⟨charged_bind hblock.charged fun _ _ => .of_quiet rfl, fun f hf => ?_⟩
  cases ho : (blockWith (stmt .standard) c).outcome with
  | ok b =>
    rw [blockStmt, run_bind_ok _ ho] at hf
    cases hf
  | error e => exact charged_bind (hblock.failed e ho) fun _ _ => .of_quiet rfl

/-- **A statement that fails leaves its first token free.** -/
theorem stmt_firstFree (hc : c.pending = []) : FirstFree (stmt .standard) c := by
  generalize hm : c.left = m
  induction m using Nat.strongRecOn generalizing c with
  | ind m ih =>
    have hs : ∀ d : Cursor, d.pending = [] → d.left < c.left → FirstFree (stmt .standard) d :=
      fun d hd hl => ih d.left (hm ▸ hl) hd rfl
    have haccounts : Accounts c.left (stmt .standard) := fun d hd hl => (hs d hd hl).charged
    by_cases hcompound : c.current.kind ∈ compoundKinds
    · have hne : c.current.kind ≠ .endOfInput := by
        intro he
        rw [he] at hcompound
        exact absurd hcompound (by decide)
      simp only [compoundKinds, List.mem_cons, List.not_mem_nil, or_false] at hcompound
      rcases hcompound with hk | hk | hk | hk
      · exact (conditionalStmt_firstFree haccounts hne hc).congr (run_stmt_of_kind hk)
      · exact (whileStmt_firstFree haccounts hne hc).congr (run_stmt_of_kind hk)
      · exact (forStmt_firstFree haccounts hne hc).congr (run_stmt_of_kind hk)
      · exact (blockStmt_firstFree hs hc).congr (run_stmt_of_kind hk)
    · exact firstFree_of_one (charged_of_quiet (simpleStmt_quiet hcompound) hc)

end Statements

/-! ### Members and classes -/

section Classes

variable {c : Cursor} {n : Nat}

theorem block_accounts : Accounts n (block .standard) :=
  fun _ hc _ => (block_firstFree (fun _ hd _ => stmt_firstFree hd) hc).charged

theorem member_firstFree (hc : c.pending = []) : FirstFree (member .standard) c := by
  have hT := Trait.quiet_allows
  refine (firstFree_of_one (p := typeName >>= _) ?_).congr (run_current_bind _ c)
  refine charged_behind (Trait.typeName_has hT.unbraced.exprs c) (typeName_consuming c)
    (fun type => ?_) hc
  refine .bind (accounts_of_quiet (Trait.identifier_has hT.unbraced.exprs)) fun name =>
    accounts_kind fun k => ?_
  split
  · refine Accounts.bind ?_ fun m => accounts_pure _
    refine .bind (accounts_of_quiet fun c => Trait.quiet.holds_note rfl rfl c) fun _ =>
      .bind (accounts_of_quiet (Trait.has_skip hT)) fun _ =>
      .bind (accounts_of_quiet (Trait.parameters_has hT.unbraced.exprs)) fun params =>
      .bind (accounts_of_quiet (Trait.has_expect (hT _))) fun _ => ?_
    exact block_accounts.bind fun body => accounts_pure _
  · exact (accounts_of_quiet (Trait.fieldRest_has hT _ _ _)).bind fun f => accounts_pure _

theorem members_accounts : Accounts n (members .standard) := by
  refine collect_accounts (fun _ => left_memberTurn_lt .standard) fun c hc _ hgo => ?_
  refine turn_charged (member_firstFree hc) ?_ (left_memberTurn_lt .standard hgo) fun f hf =>
    .droppedMember (.self _ c) hf
  exact charged_of_quiet (Trait.resumeMember_has Trait.quiet_allows _ _)
    (((member .standard).reaches c).pending_eq_nil hc)

theorem members_ok (c : Cursor) : ∃ ms, (members .standard c).outcome = .ok ms :=
  (collect_ends endsBody (fun _ => left_memberTurn_lt .standard)
    (recovering_ok resumeMember_ok) c).1

theorem classDecl_firstFree (hc : c.pending = []) : FirstFree (classDecl .standard) c := by
  have hT := Trait.quiet_allows
  refine firstFree_of_one (charged_behind (Trait.has_expect (hT _) c)
    (consuming_expect (by decide) c) (fun t => ?_) hc)
  refine .bind (accounts_of_quiet (Trait.identifier_has hT.unbraced.exprs)) fun name =>
    .bind (accounts_of_quiet (Trait.extendsClause_has hT)) fun parent =>
    .bind (accounts_of_quiet fun c => Trait.quiet.holds_note rfl rfl c) fun _ d hd _ => ?_
  exact (braced_firstFree (g := fun _ ms => Class.mk name parent ms t.position)
    members_accounts members_ok hd fun _ _ hk hran hf => .openClass hk hran hf).charged

/-- **Every fault of a parse is charged to a token of its own.** -/
theorem classes_accounts : Accounts n (classes .standard) := by
  refine collect_accounts (left_classTurn_lt_of_stop .standard) fun c hc _ hgo => ?_
  refine turn_charged (classDecl_firstFree hc) ?_ (left_classTurn_lt_of_stop .standard c hgo)
    fun f hf => .droppedClass (.self _ c) hf
  exact charged_of_quiet ((Trait.forceStep_has Trait.quiet_allows _).bind (fun _ =>
    Trait.skipClass_has Trait.quiet_allows) _) (((classDecl .standard).reaches c).pending_eq_nil hc)

end Classes

theorem Session.journal_parse {s : Session} {as : List Class}
    (h : (classes s.table s.cursor).outcome = .ok as) :
    ∃ found faults, s.parse.2.journal = s.journal ++ [.started] ++
      ((classes s.table s.cursor).events ++ [.finished found faults]) := by
  simp only [Session.parse, run_program h]
  exact ⟨_, _, by rw [List.append_assoc, List.append_assoc]; rfl⟩

/-- The journal of a session, from before the first token to the end. -/
theorem Session.charged_parse {s : Session} (ht : s.table = .standard)
    (hpending : s.cursor.pending = []) (hfaults : faultsIn s.journal = [])
    (hconsumed : consumedIn s.journal = []) : Charged s.cursor 0 s.parse.2.journal := by
  obtain ⟨as, has⟩ := (classes_ends s.table s.cursor).1
  obtain ⟨found, faults, hjournal⟩ := journal_parse has
  have hstart : consumedIn (s.journal ++ [.started]) = [] := by simp [hconsumed, Event.consumed?]
  have hclasses : Charged s.cursor 0 (classes s.table s.cursor).events := by
    rw [ht]
    exact classes_accounts (n := s.cursor.left + 1) _ hpending (Nat.lt_succ_self _)
  rw [hjournal]
  refine Charged.append (.of_quiet ?_) (by rw [hstart]) ?_
  · simp [hfaults, Event.fault?]
  · rw [Nat.zero_sub]
    exact hclasses.append ((classes s.table).reaches _).cursor (.of_quiet rfl)

/-- **No avalanche of diagnostics.** Whatever tokens a source has, each diagnostic of a parse
is charged to a token of its own: to the first token of the statement, member or class that
was dropped, to the `{` whose `}` is missing, or to the `else` whose statement failed while
it was skipped. So there are at most as many diagnostics as tokens before the end. -/
theorem parse_charges_tokens (file : String) (us : List Token) (e : EndToken) :
    let source : Source := ⟨us.map .token, e⟩
    let session := Session.start file source
    let ended := session.parse.2
    Spread (Charge session.cursor ended.journal) 0 source.tokens.length
      (ended.diagnostics.map (·.fault)) ∧
    ended.diagnostics.length ≤ source.tokens.length := by
  intro source session ended
  have hquiet : faultsIn session.journal ++ session.cursor.pending = [] := by
    rw [← Cursor.faultsAhead_tokens us]
    exact (Cursor.faultsAhead_pull e _).symm
  obtain ⟨hfaults, hpending⟩ := List.append_eq_nil_iff.1 hquiet
  have hconsumed : consumedIn session.journal = [] := Cursor.consumedIn_pull e _
  have hall : consumedIn ended.journal = source.tokens := by
    obtain ⟨⟨as, has⟩, hend⟩ := classes_ends session.table session.cursor
    obtain ⟨found, faults, hjournal⟩ := Session.journal_parse has
    have htokens := ((classes session.table).reaches session.cursor).tokens
    rw [Cursor.upcoming_eq_nil_iff.2 hend, List.append_nil,
      show session.cursor.upcoming = source.tokens from Cursor.upcoming_ofSource source] at htokens
    rw [show ended.journal = _ from hjournal, htokens]
    simp [hconsumed, Event.consumed?]
  have hdiagnostics : ended.diagnostics.map (·.fault) = faultsIn ended.journal := by
    simp [Session.diagnostics, Function.comp_def, Diagnostic.ofFault]
  have hcharged : Spread (Charge session.cursor ended.journal) 0 source.tokens.length
      (ended.diagnostics.map (·.fault)) := by
    rw [hdiagnostics, ← hall]
    exact Session.charged_parse rfl hpending hfaults hconsumed
  refine ⟨hcharged, ?_⟩
  have hle := hcharged.length_le
  rwa [List.length_map] at hle

end BantamJava
