/-
# Two runs in lockstep

Many facts about the parser compare two runs of it: on two inputs, or with two
ways of going on below some depth. A `World` says how such a pair of runs
stands side by side: which cursors are near each other, which journals and
faults match. The two current tokens are the same, except that the first run
may be at its end where the second is at a `class`.

`World.Lockstep n p q` says that `p` in the first run and `q` in the second,
from near cursors with fewer than `n` tokens left, come to matching replies.
Lockstep is kept by sequence, by catching faults, and by recursion whose nested
uses stand behind a consumed token: each consumed token takes the level from
`n + 1` to `n`. So the grammar is gone through once, for all worlds.

Key definitions: `World`, `World.Matches`, `World.LockstepIf`, `World.Lockstep`,
`World.shifted`.
Key theorems: `World.LockstepIf.bind`, `World.LockstepIf.step`,
`World.lockstep_fixOver`, `World.lockstep_fix`, `World.lockstep_kind`.
-/
import BantamJava.Proofs.Progress

namespace BantamJava

/-- A cause that spells the token it is found at, if it spells one at all. -/
def Cause.respelled (spelling : String) : Cause → Cause
  | .unexpected _ => .unexpected spelling
  | .unexpectedFor _ expectation => .unexpectedFor spelling expectation
  | .expected kind _ => .expected kind spelling
  | other => other

/-- A way to make a cause out of the spelling of a token, and of nothing else
about it. -/
def Spelling (cause : String → Cause) : Prop :=
  ∀ s, (cause s).tier = .syntactic ∧ ∀ s', (cause s).respelled s' = cause s'

/-- How two runs stand side by side. -/
structure World where
  /-- The cursors of the two runs belong together. -/
  near : Cursor → Cursor → Prop
  /-- The journals of the two runs match; the first one is written from the
  given cursor on. -/
  said : Cursor → List Event → List Event → Prop
  /-- The faults match; the first run has found its own at the given cursor. -/
  blames : Cursor → Fault → Fault → Prop
  /-- So many opened braces are closed before the first run's input ends, or
  else the second run's ends there too. -/
  closes : Cursor → Nat → Prop
  /-- How many more tokens the second run has consumed. -/
  offset : Nat
  said_nil : ∀ c, said c [] []
  said_append : ∀ {c d es fs es' fs'}, c.Reaches es d → said c es fs → said d es' fs' →
    said c (es ++ es') (fs ++ fs')
  said_note : ∀ {c d e}, near c d → e.consumed? = none → e.fault? = none → said c [e] [e]
  said_report : ∀ {c d f g}, near c d → blames c f g → said c [.reported f] [.reported g]
  said_advance : ∀ {c d}, near c d → c.current.kind ≠ .endOfInput →
    said c c.advance.2 d.advance.2
  near_advance : ∀ {c d}, near c d → c.current.kind ≠ .endOfInput →
    near c.advance.1 d.advance.1
  left_le : ∀ {c d}, near c d → c.left ≤ d.left
  consumed_eq : ∀ {c d}, near c d → d.consumed = c.consumed + offset
  current_or : ∀ {c d}, near c d → d.current = c.current ∨
    (c.current.kind = .endOfInput ∧ d.current.kind = .classWord)
  blames_here : ∀ {c d cause}, near c d → Spelling cause →
    blames c ⟨cause c.current.value, c.current.position⟩ ⟨cause d.current.value, d.current.position⟩
  blames_number : ∀ {c d} (v p), near c d → blames c ⟨.badNumber v, p⟩ ⟨.badNumber v, p⟩
  closes_zero : ∀ {c d}, near c d → closes c 0
  closes_open : ∀ {c d n}, near c d → c.current.kind = .openCurly → closes c n →
    closes c.advance.1 (n + 1)
  closes_close : ∀ {c d n}, near c d → c.current.kind = .closeCurly → closes c (n + 1) →
    closes c.advance.1 n
  closes_other : ∀ {c d n}, near c d → c.current.kind ≠ .endOfInput →
    c.current.kind ≠ .openCurly → c.current.kind ≠ .closeCurly → closes c n →
    closes c.advance.1 n
  closes_end : ∀ {c d n}, near c d → c.current.kind = .endOfInput →
    d.current.kind = .classWord → closes c n → n = 0

namespace World

open BantamJava.Parser

variable {α β ι : Type} {W : World} {n : Nat}

/-- The outcomes of two runs match; the first one ends at the given cursor. -/
inductive SameOutcome (W : World) (c : Cursor) : Except Fault α → Except Fault α → Prop where
  | ok (a : α) : SameOutcome W c (.ok a) (.ok a)
  | error {f g : Fault} (h : W.blames c f g) : SameOutcome W c (.error f) (.error g)

/-- The replies of two runs match; the first one starts from the given cursor. -/
structure Matches (W : World) (c : Cursor) (r s : Reply α) : Prop where
  near : W.near r.cursor s.cursor
  said : W.said c r.events s.events
  outcome : W.SameOutcome r.cursor r.outcome s.outcome

/-- From near cursors that satisfy `P`, with fewer than `n` tokens left, the two
parsers come to matching replies. -/
def LockstepIf (W : World) (n : Nat) (P : Cursor → Cursor → Prop) (p q : Parser α) : Prop :=
  ∀ c d, W.near c d → c.left < n → P c d → W.Matches c (p c) (q d)

/-- From near cursors with fewer than `n` tokens left, the two parsers come to
matching replies. -/
def Lockstep (W : World) (n : Nat) (p q : Parser α) : Prop :=
  W.LockstepIf n (fun _ _ => True) p q

/-- The first run is at a token of kind `k`. -/
def At (k : Kind) (c _ : Cursor) : Prop := c.current.kind = k

/-- The two runs are at the same token. -/
def Together (c d : Cursor) : Prop := d.current = c.current

/-- The first run is at its end. -/
def Ended (c _ : Cursor) : Prop := c.current.kind = .endOfInput

theorem together_of_ne {c d : Cursor} (h : W.near c d) (hk : c.current.kind ≠ .endOfInput) :
    d.current = c.current := by
  rcases W.current_or h with he | ⟨he, -⟩
  · exact he
  · exact absurd he hk

/-! ### Weakening -/

theorem LockstepIf.weaken {P Q : Cursor → Cursor → Prop} {p q : Parser α}
    (h : W.LockstepIf n P p q) (hPQ : ∀ c d, W.near c d → Q c d → P c d) : W.LockstepIf n Q p q :=
  fun c d hcd hn hQ => h c d hcd hn (hPQ c d hcd hQ)

theorem Lockstep.when {P : Cursor → Cursor → Prop} {p q : Parser α} (h : W.Lockstep n p q) :
    W.LockstepIf n P p q :=
  LockstepIf.weaken h fun _ _ _ _ => trivial

theorem LockstepIf.mono {P : Cursor → Cursor → Prop} {p q : Parser α} {m : Nat}
    (h : W.LockstepIf n P p q) (hm : m ≤ n) : W.LockstepIf m P p q :=
  fun c d hcd hn hP => h c d hcd (Nat.lt_of_lt_of_le hn hm) hP

theorem lockstepIf_zero {P : Cursor → Cursor → Prop} {p q : Parser α} : W.LockstepIf 0 P p q :=
  fun _ _ _ hn _ => absurd hn (Nat.not_lt_zero _)

/-! ### Sequence -/

theorem Matches.bind {c d : Cursor} {p q : Parser α} {f g : α → Parser β}
    (h : W.Matches c (p c) (q d))
    (hf : ∀ a, (p c).outcome = .ok a →
      W.Matches (p c).cursor (f a (p c).cursor) (g a (q d).cursor)) :
    W.Matches c ((p >>= f) c) ((q >>= g) d) := by
  obtain ⟨hn, hs, ho⟩ := h
  generalize hr : (p c).outcome = r at ho
  generalize ht : (q d).outcome = t at ho
  cases ho with
  | ok a =>
    rw [run_bind_ok f hr, run_bind_ok g ht]
    obtain ⟨hn', hs', ho'⟩ := hf a hr
    exact ⟨hn', W.said_append (p.reaches c) hs hs', ho'⟩
  | error hb =>
    rw [run_bind_error f hr, run_bind_error g ht]
    exact ⟨hn, hs, .error hb⟩

theorem LockstepIf.bind {P : Cursor → Cursor → Prop} {p q : Parser α} {f g : α → Parser β}
    (h : W.LockstepIf n P p q) (hf : ∀ a, W.Lockstep n (f a) (g a)) :
    W.LockstepIf n P (p >>= f) (q >>= g) := by
  intro c d hcd hn hP
  have hm := h c d hcd hn hP
  exact hm.bind fun a _ => hf a _ _ hm.near (Nat.lt_of_le_of_lt (p.left_le c) hn) trivial

theorem Lockstep.bind {p q : Parser α} {f g : α → Parser β} (h : W.Lockstep n p q)
    (hf : ∀ a, W.Lockstep n (f a) (g a)) : W.Lockstep n (p >>= f) (q >>= g) :=
  LockstepIf.bind h hf

/-- What follows a consumed token is needed one level below only. -/
theorem LockstepIf.step {P : Cursor → Cursor → Prop} {p q : Parser α} {f g : α → Parser β}
    (h : W.LockstepIf (n + 1) P p q) (hp : ∀ c d, W.near c d → P c d → p.ConsumesAt c)
    (hf : ∀ a, W.Lockstep n (f a) (g a)) : W.LockstepIf (n + 1) P (p >>= f) (q >>= g) := by
  intro c d hcd hn hP
  have hm := h c d hcd hn hP
  refine hm.bind fun a ha => hf a _ _ hm.near ?_ trivial
  have := hp c d hcd hP a ha
  omega

theorem Lockstep.step {p q : Parser α} {f g : α → Parser β} (h : W.Lockstep (n + 1) p q)
    (hp : Consuming p) (hf : ∀ a, W.Lockstep n (f a) (g a)) :
    W.Lockstep (n + 1) (p >>= f) (q >>= g) :=
  LockstepIf.step h (fun c _ _ _ => hp c) hf

/-- At the end of its input a consuming parser fails, whatever would follow it. -/
theorem Lockstep.dead {p q : Parser α} {f g : α → Parser β} (h : W.Lockstep n p q)
    (hp : Consuming p) : W.LockstepIf n Ended (p >>= f) (q >>= g) := by
  intro c d hcd hn hP
  refine (h c d hcd hn trivial).bind fun a ha => ?_
  have := hp c a ha
  have := Cursor.left_eq_zero_iff.2 hP
  omega

/-! ### Single steps -/

theorem lockstep_pure (a : α) : W.Lockstep n (pure a : Parser α) (pure a) :=
  fun c _ hcd _ _ => ⟨hcd, W.said_nil c, .ok a⟩

theorem lockstep_failHere {cause : String → Cause} (hs : Spelling cause) :
    W.Lockstep n (failHere cause : Parser α) (failHere cause) := by
  intro c d hcd _ _
  simp only [failHere, run_current_bind, run_fail]
  exact ⟨hcd, W.said_nil c, .error (W.blames_here hcd hs)⟩

theorem lockstep_note {e : Event} (hc : e.consumed? = none) (hf : e.fault? = none) :
    W.Lockstep n (note e hc) (note e hc) :=
  fun _ _ hcd _ _ => ⟨hcd, W.said_note hcd hc hf, .ok ()⟩

theorem lockstep_note_bind {P : Cursor → Cursor → Prop} {e : Event} (hc : e.consumed? = none)
    (hf : e.fault? = none) {f g : Unit → Parser β} (h : W.LockstepIf n P (f ()) (g ())) :
    W.LockstepIf n P (note e hc >>= f) (note e hc >>= g) :=
  fun c d hcd hn hP => Matches.bind (lockstep_note hc hf c d hcd hn trivial) fun _ _ =>
    h c d hcd hn hP

theorem lockstep_advance : W.LockstepIf n Together advance advance := by
  intro c d hcd _ hP
  by_cases hk : c.current.kind = .endOfInput
  · have hd : d.current.kind = .endOfInput := by rw [hP, hk]
    simp only [advance, Cursor.advance_of_end hk, Cursor.advance_of_end hd]
    rw [hP]
    exact ⟨hcd, W.said_nil c, .ok _⟩
  · simp only [advance]
    rw [hP]
    exact ⟨W.near_advance hcd hk, W.said_advance hcd hk, .ok _⟩

theorem lockstep_skip : W.LockstepIf n Together skip skip :=
  lockstep_advance.bind fun _ => lockstep_pure ()

theorem together_of_at {k : Kind} (hk : k ≠ .endOfInput) (c d : Cursor) (h : W.near c d)
    (ha : At k c d) : Together c d :=
  together_of_ne h (ha ▸ hk)

/-- Behind a token that is no end token, the level goes down. -/
theorem lockstep_advance_bind {k : Kind} (hk : k ≠ .endOfInput) {f g : Token → Parser β}
    (hf : ∀ t, W.Lockstep n (f t) (g t)) :
    W.LockstepIf (n + 1) (At k) (advance >>= f) (advance >>= g) :=
  (lockstep_advance.weaken (together_of_at hk)).step
    (fun _ _ _ h => consumesAt_advance (h ▸ hk)) hf

theorem lockstep_skip_bind {k : Kind} (hk : k ≠ .endOfInput) {f g : Unit → Parser β}
    (hf : W.Lockstep n (f ()) (g ())) :
    W.LockstepIf (n + 1) (At k) (skip >>= f) (skip >>= g) :=
  (lockstep_skip.weaken (together_of_at hk)).step
    (fun _ _ _ h => consumesAt_skip (h ▸ hk)) fun _ => hf

/-- The same, where the level need not go down. -/
theorem lockstep_skip_then {k : Kind} (hk : k ≠ .endOfInput) {f g : Unit → Parser β}
    (hf : W.Lockstep n (f ()) (g ())) : W.LockstepIf n (At k) (skip >>= f) (skip >>= g) :=
  (lockstep_skip.weaken (together_of_at hk)).bind fun _ => hf

/-! ### Looking -/

/-- The two runs always see the same token. -/
def Faithful (W : World) : Prop := ∀ c d, W.near c d → d.current = c.current

/-- Looking at the kind of the current token. At the end of the first run the
second may see a `class`, which must then make no difference. -/
theorem lockstep_kind_or {f g : Kind → Parser β} (blind : W.Faithful ∨ g .classWord = g .endOfInput)
    (h : ∀ k, W.LockstepIf n (At k) (f k) (g k)) : W.Lockstep n (kind >>= f) (kind >>= g) := by
  intro c d hcd hn _
  rw [run_kind_bind, run_kind_bind]
  have hm := h c.current.kind c d hcd hn rfl
  rcases W.current_or hcd with he | ⟨hc, hd⟩
  · rwa [he]
  · rcases blind with hf | hg
    · rwa [hf c d hcd]
    · rw [hd, hg]
      rwa [hc] at hm ⊢

theorem lockstep_kind {f g : Kind → Parser β} (blind : g .classWord = g .endOfInput)
    (h : ∀ k, W.LockstepIf n (At k) (f k) (g k)) : W.Lockstep n (kind >>= f) (kind >>= g) :=
  lockstep_kind_or (.inr blind) h

/-- Looking at the current token. At the end of the first run the second may see
another one. -/
theorem lockstep_current {f g : Token → Parser β}
    (h : ∀ t, W.LockstepIf n (fun c d => c.current = t ∧ Together c d) (f t) (g t))
    (hend : ∀ t t', t.kind = .endOfInput → t'.kind = .classWord →
      W.LockstepIf n Ended (f t) (g t')) :
    W.Lockstep n (current >>= f) (current >>= g) := by
  intro c d hcd hn _
  rw [run_current_bind, run_current_bind]
  rcases W.current_or hcd with he | ⟨hc, hd⟩
  · rw [he]
    exact h _ c d hcd hn ⟨rfl, he⟩
  · exact hend _ _ hc hd c d hcd hn hc

/-- Counting the tokens consumed so far. -/
theorem lockstep_consumed {P : Cursor → Cursor → Prop} {f g : Nat → Parser β}
    (h : ∀ m, W.LockstepIf n (fun c d => c.consumed = m ∧ P c d) (f m) (g (m + W.offset))) :
    W.LockstepIf n P (consumed >>= f) (consumed >>= g) := by
  intro c d hcd hn hP
  rw [run_consumed_bind, run_consumed_bind, W.consumed_eq hcd]
  exact h _ c d hcd hn ⟨rfl, hP⟩

/-! ### Expecting -/

theorem spelling_expected (k : Kind) : Spelling (.expected k) :=
  fun _ => ⟨rfl, fun _ => rfl⟩

theorem spelling_unexpected : Spelling .unexpected :=
  fun _ => ⟨rfl, fun _ => rfl⟩

theorem spelling_unexpectedFor (expectation : String) :
    Spelling fun found => .unexpectedFor found expectation :=
  fun _ => ⟨rfl, fun _ => rfl⟩

theorem spelling_missingInitializer (name : String) :
    Spelling fun _ => .missingInitializer name :=
  fun _ => ⟨rfl, fun _ => rfl⟩

theorem lockstep_expectElse_together {k : Kind} {cause : String → Cause} (hs : Spelling cause) :
    W.LockstepIf n Together (expectElse k cause) (expectElse k cause) := by
  intro c d hcd hn hP
  rw [run_expectElse, run_expectElse, hP]
  split
  · exact lockstep_advance c d hcd hn hP
  · exact lockstep_failHere hs c d hcd hn trivial

theorem lockstep_expectElse {k : Kind} (he : k ≠ .endOfInput) (hc : k ≠ .classWord)
    {cause : String → Cause} (hs : Spelling cause) :
    W.Lockstep n (expectElse k cause) (expectElse k cause) := by
  intro c d hcd hn _
  rcases W.current_or hcd with h | ⟨hcend, hdclass⟩
  · exact lockstep_expectElse_together hs c d hcd hn h
  · rw [run_expectElse, run_expectElse, hcend, hdclass, if_neg (Ne.symm he), if_neg (Ne.symm hc)]
    exact lockstep_failHere hs c d hcd hn trivial

theorem lockstep_expect {k : Kind} (he : k ≠ .endOfInput) (hc : k ≠ .classWord) :
    W.Lockstep n (expect k) (expect k) :=
  lockstep_expectElse he hc (spelling_expected k)

/-! ### Catching and reporting -/

theorem lockstep_report {f g : Fault} :
    W.LockstepIf n (fun c _ => W.blames c f g) (report f) (report g) :=
  fun _ _ hcd _ hb => ⟨hcd, W.said_report hcd hb, .ok ()⟩

/-- Catching a fault: the two runs go on at near cursors, with the same value or
with matching faults. -/
theorem Lockstep.catch {P : Cursor → Cursor → Prop} {p q : Parser α}
    {f g : Except Fault α → Parser β} (h : W.LockstepIf n P p q)
    (hok : ∀ a, W.Lockstep n (f (.ok a)) (g (.ok a)))
    (herror : ∀ c d e e', W.near c d → c.left < n → P c d → W.blames (p c).cursor e e' →
      W.near (p c).cursor (q d).cursor →
      W.Matches (p c).cursor (f (.error e) (p c).cursor) (g (.error e') (q d).cursor)) :
    W.LockstepIf n P (attempt p >>= f) (attempt q >>= g) := by
  intro c d hcd hn hP
  have hm := h c d hcd hn hP
  have hl : (p c).cursor.left < n := Nat.lt_of_le_of_lt (p.left_le c) hn
  rw [run_bind_ok (p := attempt p) f rfl, run_bind_ok (p := attempt q) g rfl]
  have hrest : W.Matches (p c).cursor (f (p c).outcome (p c).cursor)
      (g (q d).outcome (q d).cursor) := by
    generalize hr : (p c).outcome = r
    generalize ht : (q d).outcome = t
    have ho := hm.outcome
    rw [hr, ht] at ho
    cases ho with
    | ok a => exact hok a _ _ hm.near hl trivial
    | error hb => exact herror c d _ _ hcd hn hP hb hm.near
  exact ⟨hrest.near, W.said_append (p.reaches c) hm.said hrest.said, hrest.outcome⟩

/-! ### Recursion -/

section Recursion

variable {body body' : (ι → Parser α) → ι → Parser α} {J : ι → ι → Cursor → Cursor → Prop}
  {Q : Parser α → Prop}

/-- With enough items for the nesting, the bounded recursions run in lockstep.
The body may use that the parser it is given satisfies `Q`. -/
theorem lockstep_fixOver {N : Nat} (hstuck : Q stuck) (hbody : ∀ self i, Q (body self i))
    (h : ∀ n self self', n + 1 ≤ N → (∀ i, Q (self i)) →
      (∀ i j, W.LockstepIf n (J i j) (self i) (self' j)) →
      ∀ i j, W.LockstepIf (n + 1) (J i j) (body self i) (body' self' j)) :
    ∀ (n : Nat) (items items' : List Item), n ≤ N → n ≤ items.length + 1 →
      n ≤ items'.length + 1 →
      ∀ i j, W.LockstepIf n (J i j) (fixOver body items i) (fixOver body' items' j) := by
  intro n
  induction n with
  | zero => exact fun _ _ _ _ _ _ _ => lockstepIf_zero
  | succ n ih =>
    intro items items' hN hi hi'
    have hQ : ∀ items i, Q (fixOver body items i) := by
      intro items i
      cases items <;> exact hbody _ _
    -- where one of the two has no item left, nothing is asked of the level below
    cases items with
    | nil =>
      obtain rfl : n = 0 := by simpa using hi
      cases items' with
      | nil => exact h 0 _ _ hN (fun _ => hstuck) fun _ _ => lockstepIf_zero
      | cons _ its' => exact h 0 _ _ hN (fun _ => hstuck) fun _ _ => lockstepIf_zero
    | cons _ its =>
      cases items' with
      | nil =>
        obtain rfl : n = 0 := by simpa using hi'
        exact h 0 _ _ hN (hQ its) fun _ _ => lockstepIf_zero
      | cons _ its' =>
        simp only [List.length_cons] at hi hi'
        exact h n _ _ hN (hQ its) (ih its its' (by omega) (by omega) (by omega))

/-- **Recursion keeps lockstep**, if every nested use stands behind a consumed
token. -/
theorem lockstep_fix (hstuck : Q stuck) (hbody : ∀ self i, Q (body self i))
    (h : ∀ m self self', m + 1 ≤ n → (∀ i, Q (self i)) →
      (∀ i j, W.LockstepIf m (J i j) (self i) (self' j)) →
      ∀ i j, W.LockstepIf (m + 1) (J i j) (body self i) (body' self' j)) (i j : ι) :
    W.LockstepIf n (J i j) (fix body i) (fix body' j) := by
  intro c d hcd hn hJ
  have hc := c.left_le
  have hd := Nat.le_trans (W.left_le hcd) d.left_le
  have hQ : ∀ items i, Q (fixOver body items i) := by
    intro items i
    cases items <;> exact hbody _ _
  exact h c.left _ _ hn (hQ c.rest)
    (lockstep_fixOver hstuck hbody h c.left c.rest d.rest (Nat.le_of_lt hn) hc hd)
    i j c d hcd (Nat.lt_succ_self _) hJ

/-- Recursion in which both runs pass the same arguments on. -/
theorem lockstep_fix_same
    (h : ∀ m self self', m + 1 ≤ n → (∀ i, W.Lockstep m (self i) (self' i)) →
      ∀ i, W.Lockstep (m + 1) (body self i) (body' self' i)) (i : ι) :
    W.Lockstep n (fix body i) (fix body' i) := by
  refine LockstepIf.weaken (lockstep_fix (J := fun i j _ _ => i = j) (Q := fun _ => True) trivial
    (fun _ _ => trivial) (fun m self self' hm _ hs i j c d hcd hn hij => ?_) i i) fun _ _ _ _ => rfl
  subst hij
  exact h m self self' hm (fun i => (hs i i).weaken fun _ _ _ _ => rfl) i c d hcd hn trivial

end Recursion

/-- Recursion without an argument. -/
theorem lockstep_recursive {body body' : Parser α → Parser α} {Q : Parser α → Prop}
    (hstuck : Q stuck) (hbody : ∀ self, Q (body self))
    (h : ∀ m self self', m + 1 ≤ n → Q self → W.Lockstep m self self' →
      W.Lockstep (m + 1) (body self) (body' self')) :
    W.Lockstep n (recursive body) (recursive body') :=
  lockstep_fix (J := fun _ _ _ _ => True) hstuck (fun self _ => hbody (self ()))
    (fun m _ _ hm hQ hs _ _ => h m _ _ hm (hQ ()) (hs () ())) () ()

/-- Recursion without an argument, for a body that needs to know nothing of the
parser it is given. -/
theorem lockstep_recursive_any {body body' : Parser α → Parser α}
    (h : ∀ m self self', m + 1 ≤ n → W.Lockstep m self self' →
      W.Lockstep (m + 1) (body self) (body' self')) :
    W.Lockstep n (recursive body) (recursive body') :=
  lockstep_recursive (Q := fun _ => True) trivial (fun _ => trivial) fun m _ _ hm _ => h m _ _ hm

end World

/-! ### Runs that differ in the count of tokens only -/

/-- The cursor with `k` more tokens counted as consumed. -/
def Cursor.countedFrom (k : Nat) (c : Cursor) : Cursor :=
  { c with consumed := c.consumed + k }

theorem Cursor.advance_countedFrom (k : Nat) (c : Cursor) :
    (c.countedFrom k).advance = (c.advance.1.countedFrom k, c.advance.2) := by
  by_cases h : c.current.kind = .endOfInput
  · rw [advance_of_end h]
    exact advance_of_end (c := c.countedFrom k) h
  · simp [advance, countedFrom, h, Nat.add_right_comm]

namespace World

variable {α : Type}

/-- The second run has consumed `k` more tokens, and all else is equal. -/
def shifted (k : Nat) : World where
  near c d := d = c.countedFrom k
  said _ es fs := fs = es
  blames _ f g := g = f
  closes _ _ := True
  offset := k
  said_nil _ := rfl
  said_append _ h h' := by rw [h, h']
  said_note _ _ _ := rfl
  said_report _ h := by rw [h]
  said_advance h _ := by rw [h, Cursor.advance_countedFrom]
  near_advance h _ := by rw [h, Cursor.advance_countedFrom]
  left_le h := by rw [h]; exact Nat.le_refl _
  consumed_eq h := by rw [h]; rfl
  current_or h := .inl (by rw [h]; rfl)
  blames_here h _ := by rw [h]; rfl
  blames_number _ _ _ := rfl
  closes_zero _ := trivial
  closes_open _ _ _ := trivial
  closes_close _ _ _ := trivial
  closes_other _ _ _ _ _ := trivial
  closes_end h hc hd _ := by
    have hcd : _ = _ := hd
    rw [h, Cursor.countedFrom, hc] at hcd
    cases hcd

theorem shifted_faithful (k : Nat) : (shifted k).Faithful := by
  rintro c d rfl
  rfl

theorem Matches.eq_of_shifted {k : Nat} {c : Cursor} {r s : Reply α}
    (h : (shifted k).Matches c r s) :
    s.cursor = r.cursor.countedFrom k ∧ s.events = r.events ∧ s.outcome = r.outcome := by
  obtain ⟨hnear, hsaid, houtcome⟩ := h
  refine ⟨hnear, hsaid, ?_⟩
  generalize r.outcome = o at houtcome
  generalize s.outcome = o' at houtcome
  cases houtcome with
  | ok a => rfl
  | error hb => rw [show _ = _ from hb]

end World
end BantamJava
