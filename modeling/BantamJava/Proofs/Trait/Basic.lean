/-
# Traits of parsers

Many facts about the parser concern one run of it: which tokens it consumes,
what it reports, on what its reply depends. Such a fact is a trait if the steps
of which parsers are built have it, and sequence and recursion keep it. The
grammar is gone through once, for all traits (`Proofs/Trait/Grammar`).

A trait speaks of a parser and the cursor from which it runs. It may hold of
parsers only that consume tokens of certain kinds, and it need not be kept where
a fault is caught and reported: parsers of expressions catch none.

The recursion combinator has a bound, which a trait that compares two runs has
to get rid of first: `Guarded` says that any bound will do that is as high as
the number of tokens left.

Key definitions: `Parser.Guarded`, `Trait`, `Trait.Has`, `Trait.HasAt`,
`Trait.Catches`, `Trait.within`.
Key theorems: `Parser.guarded`, `Trait.has_expectElse`, `Trait.has_fix`,
`Trait.has_collect`, `Trait.has_recovering`.
-/
import BantamJava.Proofs.Termination

namespace BantamJava

/-! ### Bounds -/

namespace Parser

open World

variable {α ι : Type} {body : (ι → Parser α) → ι → Parser α} {Q : Parser α → Prop}

/-- Recursion with a bound as high as the number of tokens left is recursion. -/
def Guarded (body : (ι → Parser α) → ι → Parser α) : Prop :=
  ∀ (items : List Item) (i : ι) (c : Cursor), c.left ≤ items.length →
    fixOver body items i c = fix body i c

/-- Recursion is guarded if every nested use stands behind a consumed token. -/
theorem guarded (hstuck : Q stuck) (hbody : ∀ self i, Q (body self i))
    (h : ∀ n self self', (∀ i, Q (self i)) → (∀ i, alone.Lockstep n (self i) (self' i)) →
      ∀ i, alone.Lockstep (n + 1) (body self i) (body self' i)) : Guarded body := by
  intro items i c hitems
  have hrest := c.left_le
  have hsame : ∀ i j, alone.LockstepIf (c.left + 1) (fun _ _ => i = j)
      (fixOver body (default :: c.rest) i) (fixOver body items j) := by
    refine lockstep_fixOver (N := c.left + 1) hstuck hbody
      (fun n self self' _ hq hs i j e e' he hn hij => ?_) _ _ _ (Nat.le_refl _)
      (by simp only [List.length_cons]; omega) (by omega)
    subst hij
    exact h n self self' hq (fun i => (hs i i).weaken fun _ _ _ _ => rfl) i e e' he hn trivial
  exact (hsame i i c c rfl (Nat.lt_succ_self _) rfl).eq_of_alone

theorem guarded_any
    (h : ∀ n self self', (∀ i, alone.Lockstep n (self i) (self' i)) →
      ∀ i, alone.Lockstep (n + 1) (body self i) (body self' i)) : Guarded body :=
  guarded (Q := fun _ => True) trivial (fun _ _ => trivial) fun n _ _ _ => h n _ _

theorem guarded_recursive {body : Parser α → Parser α}
    (h : ∀ n self self', alone.Lockstep n self self' →
      alone.Lockstep (n + 1) (body self) (body self')) :
    Guarded fun self (_ : Unit) => body (self ()) :=
  guarded_any fun n _ _ hs _ => h n _ _ (hs ())

end Parser

open BantamJava.Parser

theorem Parser.run_integerConstant (c : Cursor) : integerConstant c =
    ⟨match readInteger? c.current.value with
      | some n => .ok (.int c.current.position n)
      | none => .error ⟨.badNumber c.current.value, c.current.position⟩,
      c.advance.1, c.advance.2⟩ := by
  rw [integerConstant, run_bind_ok (p := advance) (a := c.current) _ rfl]
  cases readInteger? c.current.value <;> simp [advance]

/-! ### Traits -/

/-- A trait of parsers. -/
structure Trait where
  /-- The parser has the trait in its run from this cursor. -/
  holds : {α : Type} → Parser α → Cursor → Prop
  /-- Tokens of this kind may be consumed. -/
  takes : Kind → Prop
  holds_pure : ∀ {α : Type} (a : α) (c : Cursor), holds (pure a : Parser α) c
  holds_bind : ∀ {α β : Type} {p : Parser α} {f : α → Parser β} {c : Cursor}, holds p c →
    (∀ a, (p c).outcome = .ok a → holds (f a) (p c).cursor) → holds (p >>= f) c
  holds_current : ∀ c : Cursor, holds current c
  holds_kind : ∀ c : Cursor, holds kind c
  holds_consumed : ∀ c : Cursor, holds consumed c
  holds_note : ∀ {e : Event} (hc : e.consumed? = none), e.fault? = none → ∀ c : Cursor,
    holds (note e hc) c
  holds_advance : ∀ {c : Cursor}, (c.current.kind ≠ .endOfInput → takes c.current.kind) →
    holds advance c
  holds_fail : ∀ {α : Type} {cause : String → Cause}, Spelling cause → ∀ c : Cursor,
    holds (fail ⟨cause c.current.value, c.current.position⟩ : Parser α) c
  holds_number : ∀ {c : Cursor}, takes .number → c.current.kind = .number →
    holds integerConstant c
  holds_fix : ∀ {ι α : Type} {body : (ι → Parser α) → ι → Parser α}, Guarded body →
    (∀ items i c, holds (fixOver body items i) c) → ∀ i c, holds (fix body i) c

namespace Trait

variable {α β ι : Type} {T : Trait} {k : Kind}

/-- The parser has the trait, wherever it runs. -/
def Has (T : Trait) (p : Parser α) : Prop := ∀ c, T.holds p c

/-- The parser has the trait where the current token is of kind `k`. -/
def HasAt (T : Trait) (k : Kind) (p : Parser α) : Prop := ∀ c : Cursor, c.current.kind = k →
  T.holds p c

/-- The trait is kept where a fault is caught, reported and recovered from. -/
def Catches (T : Trait) : Prop :=
  ∀ {α β : Type} {p : Parser α} {f : Except Fault α → Parser β} {g : Fault → Parser β}
    {c : Cursor}, (∀ e, f (.error e) = report e >>= fun _ => g e) → T.holds p c →
    (∀ a, (p c).outcome = .ok a → T.holds (f (.ok a)) (p c).cursor) →
    (∀ e, (p c).outcome = .error e → T.holds (g e) (p c).cursor) →
    T.holds (attempt p >>= f) c

/-! ### Rules -/

theorem Has.at {p : Parser α} (h : T.Has p) : T.HasAt k p := fun c _ => h c

theorem Has.bind {p : Parser α} {f : α → Parser β} (hp : T.Has p) (hf : ∀ a, T.Has (f a)) :
    T.Has (p >>= f) :=
  fun c => T.holds_bind (hp c) fun a _ => hf a _

theorem HasAt.bind {p : Parser α} {f : α → Parser β} (hp : T.HasAt k p)
    (hf : ∀ a, T.Has (f a)) : T.HasAt k (p >>= f) :=
  fun c hk => T.holds_bind (hp c hk) fun a _ => hf a _

theorem has_pure (a : α) : T.Has (pure a) := T.holds_pure a

theorem holds_kind_bind {f : Kind → Parser β} {c : Cursor} (h : T.holds (f c.current.kind) c) :
    T.holds (kind >>= f) c := by
  refine T.holds_bind (T.holds_kind c) fun k hk => ?_
  obtain rfl : c.current.kind = k := Except.ok.inj hk
  exact h

theorem has_kind {f : Kind → Parser β} (h : ∀ k, T.HasAt k (f k)) : T.Has (kind >>= f) :=
  fun c => holds_kind_bind (h _ c rfl)

theorem holds_current_bind {f : Token → Parser β} {c : Cursor} (h : T.holds (f c.current) c) :
    T.holds (current >>= f) c := by
  refine T.holds_bind (T.holds_current c) fun t ht => ?_
  obtain rfl : c.current = t := Except.ok.inj ht
  exact h

theorem has_current {f : Token → Parser β} (h : ∀ t, T.Has (f t)) : T.Has (current >>= f) :=
  fun c => holds_current_bind (h _ c)

theorem has_consumed {f : Nat → Parser β} (h : ∀ n, T.Has (f n)) : T.Has (consumed >>= f) :=
  Has.bind T.holds_consumed h

theorem has_note_bind {e : Event} (hc : e.consumed? = none) (hf : e.fault? = none)
    {f : Unit → Parser β} (h : T.HasAt k (f ())) : T.HasAt k (note e hc >>= f) :=
  fun c hk => T.holds_bind (T.holds_note hc hf c) fun _ _ => h c hk

theorem hasAt_advance (hk : T.takes k) : T.HasAt k advance :=
  fun _ h => T.holds_advance fun _ => h ▸ hk

theorem hasAt_skip (hk : T.takes k) : T.HasAt k skip :=
  (hasAt_advance hk).bind fun _ => has_pure ()

theorem has_failHere {cause : String → Cause} (hs : Spelling cause) :
    T.Has (failHere cause : Parser α) :=
  fun c => holds_current_bind (T.holds_fail hs c)

theorem has_expectElse {cause : String → Cause} (hk : T.takes k) (hs : Spelling cause) :
    T.Has (expectElse k cause) := by
  refine fun c => holds_current_bind (holds_kind_bind ?_)
  split
  · next h => exact hasAt_advance hk c h
  · exact T.holds_fail hs c

theorem has_expect (hk : T.takes k) : T.Has (expect k) :=
  has_expectElse hk (World.spelling_expected k)

/-! ### Recursion and loops -/

section Recursion

variable {body : (ι → Parser α) → ι → Parser α} {Q : Parser α → Prop}

/-- **Recursion keeps a trait.** The body may use that the parser it is given
satisfies `Q`. -/
theorem has_fix (hguard : Guarded body) (hstuck : Q stuck) (hbody : ∀ self i, Q (body self i))
    (h : ∀ self, (∀ i, Q (self i)) → (∀ i, T.Has (self i)) → ∀ i, T.Has (body self i)) (i : ι) :
    T.Has (fix body i) := by
  refine fun c => T.holds_fix hguard (fun items => ?_) i c
  induction items with
  | nil => exact h _ (fun _ => hstuck) fun _ => has_failHere World.spelling_unexpected
  | cons item items ih =>
    refine h _ (fun j => ?_) ih
    cases items <;> exact hbody _ _

theorem has_fix_any (hguard : Guarded body)
    (h : ∀ self, (∀ i, T.Has (self i)) → ∀ i, T.Has (body self i)) (i : ι) :
    T.Has (fix body i) :=
  has_fix (Q := fun _ => True) hguard trivial (fun _ _ => trivial) (fun self _ => h self) i

end Recursion

theorem has_recursive {body : Parser α → Parser α}
    (hguard : Guarded fun self (_ : Unit) => body (self ()))
    (h : ∀ self, T.Has self → T.Has (body self)) : T.Has (recursive body) :=
  has_fix_any hguard (fun _ hs _ => h _ (hs ())) ()

/-- A loop whose turns consume a token. -/
theorem has_collect {stop : Kind → Bool} {p : Parser (Option α)}
    (hlt : ∀ c : Cursor, stop c.current.kind = false → (p c).cursor.left < c.left)
    (hp : ∀ c : Cursor, stop c.current.kind = false → T.holds p c) : T.Has (collect stop p) := by
  refine has_recursive (guarded_recursive fun _ _ _ =>
    World.collectRound_lockstep (.inl World.alone_faithful) (World.alone_refl p).when hlt)
    fun again ha => has_kind fun k c hk => ?_
  cases hs : stop k with
  | true => exact has_pure _ c
  | false =>
    subst hk
    exact T.holds_bind (hp c hs) fun found _ => (ha.bind fun others => has_pure _) _

theorem has_recovering (hT : T.Catches) {p : Parser α} {recover : Nat → Parser Unit}
    (hp : T.Has p) (hr : ∀ start, T.Has (recover start)) : T.Has (recovering p recover) :=
  has_consumed fun start c => hT (fun _ => rfl) (hp c) (fun _ _ => has_pure _ _)
    fun _ _ => ((hr start).bind fun _ => has_pure none) _

/-! ### Kinds of tokens consumed -/

/-- The parser consumes tokens of certain kinds only. -/
def within (S : Kind → Prop) : Trait where
  holds p c := ∀ t ∈ consumedIn (p c).events, S t.kind
  takes := S
  holds_pure _ _ := nofun
  holds_bind {_ _ p f c} hp hf := by
    cases ha : (p c).outcome with
    | ok a =>
      rw [run_bind_ok f ha, consumedIn_append]
      intro t ht
      rcases List.mem_append.1 ht with ht | ht
      · exact hp t ht
      · exact hf a ha t ht
    | error e => rwa [run_bind_error f ha]
  holds_current _ := nofun
  holds_kind _ := nofun
  holds_consumed _ := nofun
  holds_note hc _ _ := by simp [note, hc]
  holds_advance {c} h t ht := by
    by_cases hk : c.current.kind = .endOfInput
    · simp [advance, Cursor.advance_of_end hk] at ht
    · obtain rfl : t = c.current := by
        simpa [advance, Cursor.consumedIn_advance hk] using ht
      exact h hk
  holds_fail _ _ := nofun
  holds_number {c} hS hk t ht := by
    have hne : c.current.kind ≠ .endOfInput := hk ▸ nofun
    rw [run_integerConstant, Cursor.consumedIn_advance hne, List.mem_singleton] at ht
    rw [ht, hk]
    exact hS
  holds_fix _ h i c := h (default :: c.rest) i c

end Trait
end BantamJava
