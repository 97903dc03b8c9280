/-
# Intervals of tokens

A tree that was kept in spite of faults around and inside it still comes from tokens
of the source: each of its nodes from an interval of them. An interval is given by the
index of its first token and the index behind its last one, and a span says which
values belong to which intervals. Parts of a node have intervals one right behind
another; only a listing, the inside of braces, leaves gaps, for what recovery has
dropped.

`Keeps K p` says that a value which the parser `p` gives belongs, by the span `K`, to
the interval of the tokens that `p` has consumed. Sequence, recursion and recovery
keep to that, so the grammar can be gone through parser by parser.

Key definitions: `Transcript`, `Span`, `Transcript.Phrase`, `Listing`,
`Transcript.Braced`, `Transcript.Keeps`.
Key theorems: `Transcript.Along.reaches`, `Transcript.KeepsIf.bind`,
`Transcript.keeps_collect`, `Transcript.keepsIf_phrase`.
-/
import BantamJava.Proofs.BlockRecovery
import BantamJava.Proofs.Reading.Program
import BantamJava.Proofs.Trait.Lookahead

namespace BantamJava

open BantamJava.Parser

/-! ### Where a source ends -/

/-- The first end token among the items, or else the one behind them. -/
def endAhead (finish : EndToken) : List Item → Token
  | [] => finish.token
  | .token t :: items => if t.kind = .endOfInput then t else endAhead finish items
  | .fault _ :: items => endAhead finish items

/-- The end token at which the source stops. -/
def Source.last (s : Source) : Token := endAhead s.finish s.items

namespace Cursor

/-- The end token at which the cursor is going to stop. -/
def last (c : Cursor) : Token := endAhead c.finish (.token c.current :: c.rest)

theorem endAhead_pull (finish : EndToken) (items : List Item) :
    endAhead finish (.token (pull finish items).1 :: (pull finish items).2.1) =
      endAhead finish items := by
  induction items with
  | nil => simp [pull, endAhead]
  | cons item items ih =>
    cases item with
    | token t => rfl
    | fault f => exact ih

theorem last_advance (c : Cursor) : c.advance.1.last = c.last := by
  by_cases hk : c.current.kind = .endOfInput
  · rw [advance_of_end hk]
  · have hlast : c.last = endAhead c.finish c.rest := by simp [last, endAhead, hk]
    have hpull := endAhead_pull c.finish c.rest
    rw [hlast, ← hpull]
    simp [advance, hk, last]

theorem last_after (n : Nat) (c : Cursor) : (c.after n).last = c.last := by
  induction n generalizing c with
  | zero => rfl
  | succ n ih => rw [after, ih, last_advance]

theorem last_of_end {c : Cursor} (hk : c.current.kind = .endOfInput) : c.last = c.current := by
  simp [last, endAhead, hk]

end Cursor

/-! ### Spans -/

/-- What a parse is judged by: the tokens of its source, the end token behind them, and
the faults that are told. -/
structure Transcript where
  tokens : List Token
  last : Token
  told : List Fault

/-- Which values belong to the interval from one index to before another. -/
abbrev Span (α : Type) : Type := Nat → Nat → α → Prop

/-- Values one after another, with gaps before, between and behind their intervals. -/
inductive Listing {α : Type} (K : Span α) : Span (List α) where
  | nil {i j : Nat} (h : i ≤ j) : Listing K i j []
  | cons {i a b j : Nat} {x : α} {xs : List α} (hgap : i ≤ a) (hspan : a ≤ b) (hx : K a b x)
      (hxs : Listing K b j xs) : Listing K i j (x :: xs)

/-- What a turn of a loop finds belongs to the interval of the turn; it may find nothing
there. -/
def Turn {α : Type} (K : Span α) : Span (Option α) :=
  fun i j found => i ≤ j ∧ ∀ a, found = some a → K i j a

namespace Listing

variable {α : Type} {K : Span α} {i a j b : Nat} {xs : List α}

theorem le (h : Listing K i j xs) : i ≤ j := by
  induction h with
  | nil h => exact h
  | cons hgap hspan _ _ ih => omega

theorem widen_left (h : Listing K a j xs) (hi : i ≤ a) : Listing K i j xs := by
  cases h with
  | nil h => exact .nil (Nat.le_trans hi h)
  | cons hgap hspan hx hxs => exact .cons (Nat.le_trans hi hgap) hspan hx hxs

theorem widen_right (h : Listing K i j xs) (hj : j ≤ b) : Listing K i b xs := by
  induction h with
  | nil h => exact .nil (Nat.le_trans h hj)
  | cons hgap hspan hx _ ih => exact .cons hgap hspan hx (ih hj)

end Listing

namespace Transcript

variable (T : Transcript) {α β : Type}

/-- The token with an index, which is the end token behind the last one. -/
def tokenAt (i : Nat) : Token := T.tokens[i]?.getD T.last

/-- The tokens of an interval. -/
def slice (i j : Nat) : List Token := (T.tokens.drop i).take (j - i)

/-- The interval is one token, of the given kind. -/
structure Sign (k : Kind) (i j : Nat) (t : Token) : Prop where
  token : T.tokens[i]? = some t
  kind : t.kind = k
  next : j = i + 1

/-- The tokens of the interval are a phrase of the language. -/
structure Phrase (D : Lang α) (i j : Nat) (a : α) : Prop where
  le : i ≤ j
  bound : j ≤ T.tokens.length
  derives : D (T.slice i j) a

theorem Sign.le {T : Transcript} {k : Kind} {i j : Nat} {t : Token} (h : T.Sign k i j t) :
    i ≤ j := by
  have hnext := h.next
  omega

/-- The interval is a closing brace, or is empty in front of `class` or the end of the
input, where a closing brace was told to be missing. -/
def Closes (i j : Nat) : Prop :=
  (∃ c, T.Sign .closeCurly i j c) ∨
    (j = i ∧ ((T.tokenAt i).kind = .classWord ∨ (T.tokenAt i).kind = .endOfInput) ∧
      ⟨.expected .closeCurly (T.tokenAt i).value, (T.tokenAt i).position⟩ ∈ T.told)

theorem Closes.le {T : Transcript} {i j : Nat} (h : T.Closes i j) : i ≤ j := by
  rcases h with ⟨c, hc⟩ | ⟨rfl, -⟩
  · exact hc.le
  · exact Nat.le_refl j

/-- The interval is a listing in braces, of which `o` is the opening one. -/
def Braced (K : Span α) (i j : Nat) (o : Token) (xs : List α) : Prop :=
  ∃ a m, T.Sign .openCurly i a o ∧ Listing K a m xs ∧ T.Closes m j

variable {T}

/-! ### Slices -/

theorem slice_append {i m j : Nat} (him : i ≤ m) (hmj : m ≤ j) :
    T.slice i j = T.slice i m ++ T.slice m j := by
  have hlength : j - i = (m - i) + (j - m) := by omega
  have hdrop : (T.tokens.drop i).drop (m - i) = T.tokens.drop m := by
    rw [List.drop_drop]
    congr 1
    omega
  unfold slice
  rw [hlength, List.take_add, hdrop]

theorem Sign.slice {k : Kind} {i j : Nat} {t : Token} (h : T.Sign k i j t) :
    T.slice i j = [t] := by
  obtain ⟨hi, ht⟩ := List.getElem?_eq_some_iff.1 h.token
  have hlength : j - i = 1 := by
    have hnext := h.next
    omega
  unfold Transcript.slice
  rw [hlength, List.drop_eq_getElem_cons hi, ht]
  rfl

theorem Sign.tokenAt {k : Kind} {i j : Nat} {t : Token} (h : T.Sign k i j t) :
    T.tokenAt i = t := by
  unfold Transcript.tokenAt
  rw [h.token]
  rfl

/-- The first token of an interval. -/
theorem tokenAt_of_slice {i j : Nat} {t : Token} {w : List Token} (h : T.slice i j = t :: w) :
    T.tokenAt i = t := by
  have hhead : (T.slice i j).head? = some t := by rw [h]; rfl
  unfold slice at hhead
  rw [List.head?_take] at hhead
  split at hhead
  · cases hhead
  · rw [List.head?_drop] at hhead
    unfold tokenAt
    rw [hhead]
    rfl

/-- A token and a phrase right behind it. -/
theorem Sign.phrase {k : Kind} {i m j : Nat} {t : Token} {H : Token → Lang α} {a : α}
    (ht : T.Sign k i m t) (hw : T.Phrase (H t) m j a) : T.Phrase (Lang.token k H) i j a := by
  refine ⟨Nat.le_trans ht.le hw.le, hw.bound, t, T.slice m j, ?_, ht.kind, hw.derives⟩
  rw [slice_append ht.le hw.le, ht.slice]
  rfl

/-- Two phrases, one right behind the other. -/
theorem Phrase.seq {i m j : Nat} {G : Lang α} {H : α → Lang β} {a : α} {b : β}
    (ha : T.Phrase G i m a) (hb : T.Phrase (H a) m j b) : T.Phrase (Lang.seq G H) i j b :=
  ⟨Nat.le_trans ha.le hb.le, hb.bound, T.slice i m, T.slice m j, a, slice_append ha.le hb.le,
    ha.derives, hb.derives⟩

theorem Phrase.map {i j : Nat} {G H : Lang α} {a : α} (h : T.Phrase G i j a)
    (hGH : G (T.slice i j) a → H (T.slice i j) a) : T.Phrase H i j a :=
  ⟨h.le, h.bound, hGH h.derives⟩

/-! ### Cursors in the tokens -/

variable (T)

/-- The cursor has consumed so many of the tokens, and the others are to come. -/
structure Along (c : Cursor) : Prop where
  bound : c.consumed ≤ T.tokens.length
  tokens : c.upcoming = T.tokens.drop c.consumed
  last : c.last = T.last
  quiet : c.pending = []

variable {T} {c d : Cursor} {es : List Event}

namespace Along

/-- The current token is one of the tokens, unless the input has ended. -/
theorem sign (h : T.Along c) (hk : c.current.kind ≠ .endOfInput) :
    T.Sign c.current.kind c.consumed (c.consumed + 1) c.current := by
  refine ⟨?_, rfl, rfl⟩
  rw [← List.head?_drop, ← h.tokens, Cursor.upcoming_of_ne hk]
  rfl

theorem current (h : T.Along c) : c.current = T.tokenAt c.consumed := by
  by_cases hk : c.current.kind = .endOfInput
  · have hnil : T.tokens.drop c.consumed = [] := by
      rw [← h.tokens, Cursor.upcoming_eq_nil_iff.2 hk]
    have hnone : T.tokens[c.consumed]? = none := by
      rw [List.getElem?_eq_none_iff]
      exact List.drop_eq_nil_iff.1 hnil
    unfold tokenAt
    rw [hnone, ← Cursor.last_of_end hk, h.last]
    rfl
  · exact (h.sign hk).tokenAt.symm

/-- What a journal consumes is the interval that it leads over. -/
theorem slice (h : T.Along c) (hr : c.Reaches es d) :
    T.slice c.consumed d.consumed = consumedIn es := by
  have htokens := hr.tokens
  have hconsumed := hr.consumed_eq
  have hlength : d.consumed - c.consumed = (consumedIn es).length := by omega
  unfold Transcript.slice
  rw [hlength, ← h.tokens, htokens, List.take_left]

/-- **Every parser goes along the tokens.** -/
theorem reaches (h : T.Along c) (hr : c.Reaches es d) : T.Along d := by
  have hconsumed := hr.consumed_eq
  have hdrop : T.tokens.drop c.consumed = consumedIn es ++ d.upcoming := by
    rw [← h.tokens, hr.tokens]
  have hlength := congrArg List.length hdrop
  rw [List.length_drop, List.length_append] at hlength
  have hbound := h.bound
  constructor
  · omega
  · rw [hconsumed, ← List.drop_drop, hdrop, List.drop_left]
  · rw [hr.cursor, Cursor.last_after, h.last]
  · exact hr.pending_eq_nil h.quiet

end Along

/-! ### Parsers that keep to intervals -/

variable (T)

/-- From cursors that satisfy `P`, if all that the parser tells is told, a value that it
gives belongs to the interval that it has consumed. -/
def KeepsIf (P : Cursor → Prop) (K : Span α) (p : Parser α) : Prop :=
  ∀ c : Cursor, T.Along c → P c → (∀ f ∈ faultsIn (p c).events, f ∈ T.told) →
    ∀ a, (p c).outcome = .ok a → K c.consumed (p c).cursor.consumed a

/-- A value that the parser gives belongs to the interval that it has consumed. -/
def Keeps (K : Span α) (p : Parser α) : Prop := T.KeepsIf (fun _ => True) K p

variable {T} {P : Cursor → Prop} {K K' : Span α} {L : α → Span β} {p : Parser α}
  {f : α → Parser β}

theorem Keeps.when (h : T.Keeps K p) : T.KeepsIf P K p :=
  fun c hc _ => h c hc trivial

theorem KeepsIf.mono (h : T.KeepsIf P K p) (hK : ∀ i j a, K i j a → K' i j a) :
    T.KeepsIf P K' p :=
  fun c hc hP htold a ha => hK _ _ _ (h c hc hP htold a ha)

theorem Keeps.mono (h : T.Keeps K p) (hK : ∀ i j a, K i j a → K' i j a) : T.Keeps K' p :=
  KeepsIf.mono h hK

/-- **Sequence.** The interval of the one value is right in front of that of the other. -/
theorem KeepsIf.bind (hp : T.KeepsIf P K p) (hf : ∀ a, T.Keeps (L a) (f a)) :
    T.KeepsIf P (fun i j b => ∃ m a, K i m a ∧ L a m j b) (p >>= f) := by
  intro c hc hP htold b hb
  cases ha : (p c).outcome with
  | error e =>
    rw [run_bind_error f ha] at hb
    cases hb
  | ok a =>
    rw [run_bind_ok f ha] at hb htold ⊢
    rw [faultsIn_append] at htold
    have hfirst := hp c hc hP (fun e he => htold e (List.mem_append_left _ he)) a ha
    have hsecond := hf a (p c).cursor (hc.reaches (p.reaches c)) trivial
      (fun e he => htold e (List.mem_append_right _ he)) b hb
    exact ⟨_, a, hfirst, hsecond⟩

theorem Keeps.bind (hp : T.Keeps K p) (hf : ∀ a, T.Keeps (L a) (f a)) :
    T.Keeps (fun i j b => ∃ m a, K i m a ∧ L a m j b) (p >>= f) :=
  KeepsIf.bind hp hf

theorem keeps_pure (a : α) : T.Keeps (fun i j b => j = i ∧ b = a) (pure a) := by
  intro c _ _ _ b hb
  exact ⟨rfl, (Except.ok.inj hb).symm⟩

theorem KeepsIf.after_note {e : Event} (hc : e.consumed? = none) {q : Unit → Parser β}
    {L : Span β} (hq : T.KeepsIf P L (q ())) : T.KeepsIf P L (note e hc >>= q) := by
  intro c hcur hP htold b hb
  rw [run_bind_ok (p := note e hc) (a := ()) _ rfl] at htold hb ⊢
  rw [faultsIn_append] at htold
  exact hq c hcur hP (fun f hf => htold f (List.mem_append_right _ hf)) b hb

theorem keeps_current : T.Keeps (fun i j t => j = i ∧ t = T.tokenAt i) current := by
  intro c hc _ _ t ht
  exact ⟨rfl, (Except.ok.inj ht).symm.trans hc.current⟩

theorem keeps_kind {g : Kind → Parser α} (h : ∀ k, T.KeepsIf (Cursor.At k) K (g k)) :
    T.Keeps K (kind >>= g) := by
  intro c hc _ htold a ha
  rw [run_kind_bind] at htold ha ⊢
  exact h _ c hc rfl htold a ha

theorem keepsIf_advance {k : Kind} (hk : k ≠ .endOfInput) :
    T.KeepsIf (Cursor.At k) (T.Sign k) advance := by
  intro c hc hat _ t ht
  have hne : c.current.kind ≠ .endOfInput := by rwa [hat]
  have hsign := hc.sign hne
  obtain rfl : c.current = t := Except.ok.inj ht
  have hmoved : (advance c).cursor.consumed = c.consumed + 1 := Cursor.consumed_advance hne
  rw [hmoved]
  rwa [hat] at hsign

theorem keepsIf_skip {k : Kind} (hk : k ≠ .endOfInput) :
    T.KeepsIf (Cursor.At k) (fun i j _ => ∃ t, T.Sign k i j t) skip := by
  refine ((keepsIf_advance hk).bind fun _ => keeps_pure ()).mono ?_
  rintro i j _ ⟨m, t, ht, rfl, -⟩
  exact ⟨t, ht⟩

theorem keeps_expectElse {k : Kind} (hk : k ≠ .endOfInput) (cause : String → Cause) :
    T.Keeps (T.Sign k) (expectElse k cause) := by
  intro c hc _ htold t ht
  rw [run_expectElse] at htold ht ⊢
  by_cases hat : c.current.kind = k
  · rw [if_pos hat] at htold ht ⊢
    exact keepsIf_advance hk c hc hat htold t ht
  · rw [if_neg hat, failHere, run_current_bind] at ht
    cases ht

theorem keeps_expect {k : Kind} (hk : k ≠ .endOfInput) : T.Keeps (T.Sign k) (expect k) :=
  keeps_expectElse hk _

theorem keeps_identifier :
    T.Keeps (fun i j name => ∃ t, T.Sign .identifier i j t ∧ name = t.value) identifier := by
  refine ((keeps_expectElse (by decide) _).bind fun t => keeps_pure t.value).mono ?_
  rintro i j name ⟨m, t, ht, rfl, rfl⟩
  exact ⟨t, ht, rfl⟩

/-- **Parsers that catch no fault give phrases of the language that they read.** -/
theorem keepsIf_phrase {D : Lang α} {F : Follow α}
    (hreads : ∀ n, ReadsIf (n + 1) P D F p) (hquiet : ∀ c, P c → Trait.quiet.holds p c) :
    T.KeepsIf P (T.Phrase D) p := by
  intro c hc hP _ a ha
  have hr := p.reaches c
  have hnone : (p c).trouble? = none := by
    have hfaults : faultsIn (p c).events ++ (p c).cursor.pending = [] := by
      rw [← hc.quiet]
      exact hquiet c hP
    unfold Reply.trouble? Reply.journal
    rw [ha]
    exact firstReport_eq_none_iff.2 (List.append_eq_nil_iff.1 hfaults).1
  have hsound := (hreads c.left c hc.quiet (Nat.lt_succ_self _) hP).sound a hnone ha
  have hconsumed := hr.consumed_eq
  refine ⟨by omega, (hc.reaches hr).bound, ?_⟩
  rw [hc.slice hr]
  exact hsound

theorem keeps_phrase {D : Lang α} {F : Follow α} (hreads : ∀ n, Reads n D F p)
    (hquiet : Trait.quiet.Has p) : T.Keeps (T.Phrase D) p :=
  keepsIf_phrase (fun n => hreads (n + 1)) fun c _ => hquiet c

/-! ### Recursion and recovery -/

/-- **Recursion.** Where it is cut short it fails, and gives no value. -/
theorem keeps_recursive {body : Parser α → Parser α}
    (h : ∀ self, T.Keeps K self → T.Keeps K (body self)) : T.Keeps K (recursive body) := by
  have hstuck : T.Keeps K (stuck : Parser α) := by
    intro c _ _ _ a ha
    rw [stuck, failHere, run_current_bind] at ha
    cases ha
  have hover : ∀ items, T.Keeps K (fixOver (fun self (_ : Unit) => body (self ())) items ()) := by
    intro items
    induction items with
    | nil => exact h _ hstuck
    | cons item items ih => exact h _ ih
  intro c
  exact h _ (hover c.rest) c

/-- **Recovery.** What is found belongs to its interval, as without recovery. -/
theorem keeps_recovering (hp : T.Keeps K p) (recover : Nat → Parser Unit) :
    T.Keeps (Turn K) (recovering p recover) := by
  intro c hc _ htold found hfound
  have hconsumed := ((recovering p recover).reaches c).consumed_eq
  refine ⟨by omega, ?_⟩
  rintro a rfl
  cases ha : (p c).outcome with
  | ok b =>
    rw [run_recovering_ok ha] at htold hfound ⊢
    cases hfound
    exact hp c hc trivial htold a ha
  | error e =>
    -- behind a fault that was caught nothing is found
    rw [run_recovering_error ha] at hfound
    cases hr : (recover c.consumed (p c).cursor).outcome with
    | ok u =>
      rw [run_bind_ok _ hr] at hfound
      cases hfound
    | error e' =>
      rw [run_bind_error _ hr] at hfound
      cases hfound

/-- **Loops.** What the turns of a loop give is listed in order, and the loop ends in
front of a token that stops it. -/
theorem keeps_collect (stop : Kind → Bool) {p : Parser (Option α)} (hp : T.Keeps (Turn K) p) :
    T.Keeps (fun i j as => Listing K i j as ∧ stop (T.tokenAt j).kind = true)
      (collect stop p) := by
  refine keeps_recursive fun again ha => keeps_kind fun k => ?_
  by_cases hstop : stop k = true
  · rw [if_pos hstop]
    intro c hc hat _ as has
    cases has
    refine ⟨.nil (Nat.le_refl _), ?_⟩
    show stop (T.tokenAt c.consumed).kind = true
    rw [← hc.current, hat, hstop]
  · rw [if_neg hstop]
    refine Keeps.when ?_
    refine (hp.bind fun found => ha.bind fun others => keeps_pure (found.toList ++ others)).mono ?_
    rintro i j as ⟨m, found, ⟨him, hfound⟩, n, others, ⟨hothers, hends⟩, rfl, rfl⟩
    refine ⟨?_, hends⟩
    cases found with
    | none => exact hothers.widen_left him
    | some a => exact .cons (Nat.le_refl i) him (hfound a rfl) hothers

/-- Behind what is inside braces, a closing brace is consumed or told to be missing. -/
theorem keeps_closeBody :
    T.Keeps (fun i j _ => endsBody (T.tokenAt i).kind = true → T.Closes i j) closeBody := by
  intro c hc _ htold u _ hends
  rw [← hc.current] at hends
  by_cases hat : c.current.kind = .closeCurly
  · rw [run_closeBody hat] at htold ⊢
    exact .inl ⟨c.current, keepsIf_advance (by decide) c hc hat htold _ rfl⟩
  · have hexpect : expect .closeCurly c =
        ⟨.error ⟨.expected .closeCurly c.current.value, c.current.position⟩, c, []⟩ := by
      rw [expect, run_expectElse, if_neg hat]
      rfl
    have hrun : closeBody c = report ⟨.expected .closeCurly c.current.value,
        c.current.position⟩ c := by
      rw [closeBody, run_bind_ok (p := attempt (expect .closeCurly)) _ rfl]
      simp only [attempt, hexpect]
      rfl
    have hkind : c.current.kind = .classWord ∨ c.current.kind = .endOfInput := by
      simp only [endsBody, List.contains_iff_mem, List.mem_cons, List.not_mem_nil,
        or_false] at hends
      rcases hends with hclose | hend | hclass
      · exact absurd hclose hat
      · exact .inr hend
      · exact .inl hclass
    rw [hrun] at htold ⊢
    rw [hc.current] at hkind htold
    refine .inr ⟨rfl, hkind, ?_⟩
    apply htold
    exact List.mem_singleton.2 rfl

/-- **Braces.** What the turns of a loop between braces give is listed between them. -/
theorem keeps_braced {p : Parser (Option α)} (hp : T.Keeps (Turn K) p)
    (g : Token → List α → β) :
    T.Keeps (fun i j b => ∃ o xs, T.Braced K i j o xs ∧ b = g o xs)
      (expect .openCurly >>= fun o => collect endsBody p >>= fun xs =>
        closeBody >>= fun _ => pure (g o xs)) := by
  refine ((keeps_expect (by decide)).bind fun o => (keeps_collect endsBody hp).bind fun xs =>
    keeps_closeBody.bind fun _ => keeps_pure (g o xs)).mono ?_
  rintro i j b ⟨a, o, ho, m, xs, ⟨hxs, hends⟩, n, -, hclose, rfl, rfl⟩
  exact ⟨o, xs, ⟨a, m, ho, hxs, hclose hends⟩, rfl⟩

end Transcript
end BantamJava
