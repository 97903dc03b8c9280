/-
# Reading a language

What it means that a parser reads a language. Take a cursor with no faulty
lexeme ahead. If the parser reports nothing and succeeds, the tokens it has
consumed are a phrase with the value it gives, and there is no other way to
read what it has seen, one token of lookahead included. If it reports something
or fails, the first fault stands at the earliest token possible: what is before
that token can be completed to a phrase, and no phrase goes on with that token.

In both cases "no other phrase" means none that may stand in front of what
follows it: a language comes with a condition on the token behind a phrase.

Recovery plays no part: it starts behind the first fault. So the parsers of the
grammar are gone through as if the first fault ended the parse.

Key definitions: `firstReport`, `Reply.trouble?`, `ReadsAt`, `ReadsIf`, `Reads`,
`Viable`.
Key theorems: `ReadsAt.convert`, `ReadsAt.bind`, `ReadsIf.step`.
-/
import BantamJava.Proofs.Grammar
import BantamJava.Proofs.Progress

namespace BantamJava

/-! ### The first fault -/

/-- The first fault that a journal reports, and how many tokens are consumed
before it. -/
def firstReport : List Event → Option (Nat × Fault)
  | [] => none
  | .reported f :: _ => some (0, f)
  | .consumed _ :: es => (firstReport es).map fun found => (found.1 + 1, found.2)
  | _ :: es => firstReport es

theorem firstReport_eq_none_iff {es : List Event} : firstReport es = none ↔ faultsIn es = [] := by
  induction es with
  | nil => simp [firstReport]
  | cons e es ih => cases e <;> simp [firstReport, Event.fault?, ih]

theorem firstReport_append_of_some {es : List Event} {x : Nat × Fault}
    (h : firstReport es = some x) (fs : List Event) : firstReport (es ++ fs) = some x := by
  induction es generalizing x with
  | nil => simp [firstReport] at h
  | cons e es ih =>
    cases e with
    | reported f => exact h
    | consumed t =>
      obtain ⟨y, hy, rfl⟩ := Option.map_eq_some_iff.1 h
      simp [firstReport, ih hy]
    | _ => exact ih h

theorem firstReport_append_of_none {es : List Event} (h : firstReport es = none)
    (fs : List Event) :
    firstReport (es ++ fs) =
      (firstReport fs).map fun found => (found.1 + (consumedIn es).length, found.2) := by
  induction es with
  | nil => simp
  | cons e es ih =>
    cases e with
    | reported f => simp [firstReport] at h
    | consumed t =>
      have hes : firstReport es = none := by simpa [firstReport] using h
      simp only [List.cons_append, firstReport, ih hes, Option.map_map, consumedIn_cons,
        Event.consumed?, Option.toList_some]
      congr 1
    | _ => simpa [firstReport, Event.consumed?] using ih h

/-- How many tokens behind the one it concerns a fault is found: the value of a
number is read when its token has been consumed. -/
def Fault.lag (f : Fault) : Nat :=
  match f.cause with
  | .badNumber _ => 1
  | _ => 0

namespace Reply

variable {α : Type}

/-- The journal of a reply, once its failure has been reported too. -/
def journal (r : Reply α) : List Event :=
  match r.outcome with
  | .ok _ => r.events
  | .error f => r.events ++ [.reported f]

/-- The first fault of a reply, reported or not, and how many tokens are
consumed before it is found. -/
def trouble? (r : Reply α) : Option (Nat × Fault) := firstReport r.journal

theorem trouble?_ok {a : α} (c : Cursor) (es : List Event) :
    (⟨.ok a, c, es⟩ : Reply α).trouble? = firstReport es := rfl

theorem exists_ok_of_trouble?_eq_none {r : Reply α} (h : r.trouble? = none) :
    ∃ a, r.outcome = .ok a ∧ firstReport r.events = none := by
  obtain ⟨o, c, es⟩ := r
  cases o with
  | ok a => exact ⟨a, rfl, h⟩
  | error f =>
    have hnone := firstReport_eq_none_iff.1 h
    simp [journal, Event.fault?] at hnone

end Reply

/-! ### Languages -/

section Languages

variable {α β : Type}

/-- A token of a kind, with its usual spelling. -/
def Token.sample (k : Kind) : Token := ⟨k, k.describe, .start⟩

/-- Something can be said in the language. -/
class Viable (G : Lang α) : Prop where
  exists_phrase : ∃ w a, G w a

/-- Nothing, with the value `a`. -/
abbrev Lang.unit (a : α) : Lang α := fun w b => w = [] ∧ b = a

/-- A phrase of `G`, with another value. -/
abbrev Lang.mapped (g : α → β) (G : Lang α) : Lang β := fun w b => ∃ a, G w a ∧ b = g a

/-- A phrase of `G`, and then one of a language that depends on its value. -/
abbrev Lang.seq (G : Lang α) (H : α → Lang β) : Lang β :=
  fun w b => ∃ v x a, w = v ++ x ∧ G v a ∧ H a x b

/-- A token of kind `k`, and then a phrase of a language that depends on it. -/
abbrev Lang.token (k : Kind) (H : Token → Lang α) : Lang α :=
  fun w b => ∃ t v, w = t :: v ∧ t.kind = k ∧ H t v b

/-- A phrase of one of two languages. -/
abbrev Lang.either (G H : Lang α) : Lang α := fun w a => G w a ∨ H w a

instance (a : α) : Viable (Lang.unit a) := ⟨[], a, rfl, rfl⟩

instance (g : α → β) (G : Lang α) [h : Viable G] : Viable (Lang.mapped g G) := by
  obtain ⟨w, a, ha⟩ := h.exists_phrase
  exact ⟨w, g a, a, ha, rfl⟩

instance (G : Lang α) (H : α → Lang β) [hG : Viable G] [hH : ∀ a, Viable (H a)] :
    Viable (Lang.seq G H) := by
  obtain ⟨w, a, ha⟩ := hG.exists_phrase
  obtain ⟨v, b, hb⟩ := (hH a).exists_phrase
  exact ⟨w ++ v, b, w, v, a, rfl, ha, hb⟩

instance (k : Kind) (H : Token → Lang α) [h : ∀ t, Viable (H t)] : Viable (Lang.token k H) := by
  obtain ⟨v, b, hb⟩ := (h (.sample k)).exists_phrase
  exact ⟨_ :: v, b, .sample k, v, rfl, rfl, hb⟩

instance (G H : Lang α) [h : Viable G] : Viable (Lang.either G H) := by
  obtain ⟨w, a, ha⟩ := h.exists_phrase
  exact ⟨w, a, .inl ha⟩

end Languages

/-! ### Words that agree -/

section Words

variable {τ : Type}

theorem take_eq_of_le {x y : List τ} {m n : Nat} (h : x.take n = y.take n) (hm : m ≤ n) :
    x.take m = y.take m := by
  have := congrArg (List.take m) h
  rwa [List.take_take, List.take_take, Nat.min_eq_left hm] at this

theorem head?_eq_of_take {x y : List τ} {n : Nat} (h : x.take (n + 1) = y.take (n + 1)) :
    x.head? = y.head? := by
  have := congrArg List.head? h
  simpa [List.head?_take] using this

/-- Behind a common beginning, the words go on to agree. -/
theorem take_of_append_take {v x y : List τ} {n : Nat}
    (h : (v ++ x).take (v.length + n) = (v ++ y).take (v.length + n)) : x.take n = y.take n := by
  rw [List.take_length_add_append, List.take_length_add_append] at h
  exact List.append_cancel_left h

end Words

/-! ### Reading -/

section Reading

variable {α β ι : Type}

/-- The condition on the token behind a phrase, if there is one. -/
abbrev Follow (α : Type) : Type := α → Option Token → Prop

/-- From the cursor `c`, the reply `r` reads the language `G`. -/
structure ReadsAt (G : Lang α) (F : Follow α) (c : Cursor) (r : Reply α) : Prop where
  /-- The tokens consumed are a phrase with the value found. -/
  sound : ∀ a, r.trouble? = none → r.outcome = .ok a → G (consumedIn r.events) a
  /-- No other phrase starts like what has been seen. -/
  unique : ∀ a, r.trouble? = none → r.outcome = .ok a → ∀ w b k, G w b → F b k.head? →
    (w ++ k).take ((consumedIn r.events).length + 1) =
      c.upcoming.take ((consumedIn r.events).length + 1) →
    w = consumedIn r.events ∧ b = a
  /-- The first fault stands at the earliest token possible. -/
  fault : ∀ n f, r.trouble? = some (n, f) → ∃ i, n = i + f.lag ∧ i ≤ c.left ∧
    f.position = (c.after i).current.position ∧
    (∃ x b, G (c.upcoming.take i ++ x) b) ∧
    ∀ w b k, G w b → F b k.head? → (w ++ k).take (i + 1) ≠ c.upcoming.take (i + 1)

/-- From cursors that satisfy `P`, with no faulty lexeme ahead and fewer than
`n` tokens left, the parser reads the language `G`. -/
def ReadsIf (n : Nat) (P : Cursor → Prop) (G : Lang α) (F : Follow α) (p : Parser α) : Prop :=
  ∀ c : Cursor, c.pending = [] → c.left < n → P c → ReadsAt G F c (p c)

/-- From cursors with no faulty lexeme ahead and fewer than `n` tokens left, the
parser reads the language `G`. -/
def Reads (n : Nat) (G : Lang α) (F : Follow α) (p : Parser α) : Prop :=
  ReadsIf n (fun _ => True) G F p

/-- The current token is of kind `k`. -/
def Cursor.At (k : Kind) (c : Cursor) : Prop := c.current.kind = k

theorem eq_current_of_head? {c : Cursor} {t : Token} (h : c.upcoming.head? = some t) :
    t = c.current := by
  by_cases he : c.current.kind = .endOfInput
  · rw [Cursor.upcoming_eq_nil_iff.2 he] at h
    cases h
  · rw [Cursor.upcoming_of_ne he] at h
    exact (Option.some.inj h).symm

/-- The first token of a word that starts like the input. -/
theorem Cursor.At.kind_of_head? {c : Cursor} {k : Kind} (h : c.At k) {t : Token}
    (ht : c.upcoming.head? = some t) : t.kind = k := by
  rw [eq_current_of_head? ht]
  exact h

/-! ### Weakening -/

section Weakening

variable {n m : Nat} {P Q : Cursor → Prop} {G H : Lang α} {F F' : Follow α} {p : Parser α}

theorem ReadsIf.weaken (h : ReadsIf n P G F p) (hQP : ∀ c, Q c → P c) : ReadsIf n Q G F p :=
  fun c hc hn hQ => h c hc hn (hQP c hQ)

theorem Reads.when (h : Reads n G F p) : ReadsIf n P G F p :=
  ReadsIf.weaken h fun _ _ => trivial

theorem ReadsIf.mono (h : ReadsIf n P G F p) (hm : m ≤ n) : ReadsIf m P G F p :=
  fun c hc hl hP => h c hc (Nat.lt_of_lt_of_le hl hm) hP

theorem Reads.mono (h : Reads n G F p) (hm : m ≤ n) : Reads m G F p :=
  ReadsIf.mono h hm

theorem readsIf_zero : ReadsIf 0 P G F p :=
  fun _ _ hl _ => absurd hl (Nat.not_lt_zero _)

/-- Another language with the same phrases, as far as these start with the
current token. -/
theorem ReadsAt.convert [hv : Viable H] {c : Cursor} {r : Reply α} (h : ReadsAt G F c r)
    (hto : ∀ w a, G w a → (∀ t, w.head? = some t → c.upcoming.head? = some t) → H w a)
    (hof : ∀ w a k, H w a → F' a k.head? → (w ++ k).head? = c.upcoming.head? →
      G w a ∧ F a k.head?)
    (hr : c.Reaches r.events r.cursor) : ReadsAt H F' c r where
  sound a ht ha := by
    refine hto _ _ (h.sound a ht ha) fun t hw => ?_
    rw [hr.tokens, List.head?_append, hw]
    rfl
  unique a ht ha w b k hw hF heq := by
    obtain ⟨hG, hF'⟩ := hof w b k hw hF (head?_eq_of_take heq)
    exact h.unique a ht ha w b k hG hF' heq
  fault m f ht := by
    obtain ⟨i, hi, hle, hpos, ⟨x, b, hx⟩, hno⟩ := h.fault m f ht
    refine ⟨i, hi, hle, hpos, ?_, fun w b k hw hF heq => ?_⟩
    · cases i with
      | zero =>
        obtain ⟨w, a, hw⟩ := hv.exists_phrase
        exact ⟨w, a, hw⟩
      | succ i =>
        refine ⟨x, b, hto _ _ hx fun t hw => ?_⟩
        cases hu : c.upcoming with
        | nil => simp [Cursor.left, hu] at hle
        | cons s u =>
          rw [hu] at hw
          simpa using hw
    · obtain ⟨hG, hF'⟩ := hof w b k hw hF (head?_eq_of_take heq)
      exact hno w b k hG hF' heq

theorem ReadsIf.convert [Viable H] (h : ReadsIf n P G F p)
    (hto : ∀ c, P c → ∀ w a, G w a → (∀ t, w.head? = some t → c.upcoming.head? = some t) → H w a)
    (hof : ∀ c, P c → ∀ w a k, H w a → F' a k.head? → (w ++ k).head? = c.upcoming.head? →
      G w a ∧ F a k.head?) : ReadsIf n P H F' p :=
  fun c hc hn hP => (h c hc hn hP).convert (hto c hP) (hof c hP) (p.reaches c)

/-- Another language whose phrases that start with a token of kind `k` are the
same. -/
theorem ReadsIf.convert_at [Viable H] {k : Kind} (h : ReadsIf n (Cursor.At k) G F p)
    (hto : ∀ w a, G w a → H w a) (hne : ∀ a, ¬ H [] a)
    (hof : ∀ t v a, t.kind = k → H (t :: v) a → G (t :: v) a) :
    ReadsIf n (Cursor.At k) H F p := by
  refine h.convert (fun c _ w a hw _ => hto w a hw) fun c hc w a x hw hx hhead => ⟨?_, hx⟩
  cases w with
  | nil => exact absurd hw (hne a)
  | cons t v => exact hof t v a (hc.kind_of_head? hhead.symm) hw

theorem Reads.congr (h : Reads n G F p) (hiff : ∀ w a, G w a ↔ H w a) : Reads n H F p := by
  obtain rfl : G = H := funext fun w => funext fun a => propext (hiff w a)
  exact h

end Weakening

/-! ### Sequence -/

section Sequence

variable {n : Nat} {P : Cursor → Prop} {G : Lang α} {H : α → Lang β} {F : Follow α}
  {F' : Follow β} {p : Parser α} {f : α → Parser β}

/-- The token behind a phrase of `G`, the first of a phrase of `H` or else the
one behind that, may stand there. -/
def Leads (H : Lang β) (F' : Follow β) (Q : Option Token → Prop) : Prop :=
  ∀ w b k, H w b → F' b k.head? → Q (w ++ k).head?

theorem pending_of_reaches {c d : Cursor} {es : List Event} (h : c.Reaches es d)
    (hc : c.pending = []) : d.pending = [] := by
  obtain ⟨fs, -, hfs⟩ := h.faults
  rw [hc] at hfs
  exact (List.append_eq_nil_iff.1 hfs.symm).2

/-- The first fault of a sequence, if its first part has one. -/
theorem trouble?_bind_of_some {c : Cursor} {x : Nat × Fault} (h : (p c).trouble? = some x) :
    ((p >>= f) c).trouble? = some x := by
  unfold Reply.trouble? Reply.journal at h ⊢
  cases ha : (p c).outcome with
  | ok a =>
    rw [ha] at h
    rw [Parser.run_bind_ok f ha]
    cases hb : (f a (p c).cursor).outcome with
    | ok b => exact firstReport_append_of_some h _
    | error e =>
      simp only [List.append_assoc]
      exact firstReport_append_of_some h _
  | error e =>
    rw [ha] at h
    rw [Parser.run_bind_error f ha]
    exact h

/-- The first fault of a sequence, if its first part has none. -/
theorem trouble?_bind_of_none {c : Cursor} {a : α} (h : (p c).trouble? = none)
    (ha : (p c).outcome = .ok a) :
    ((p >>= f) c).trouble? = (f a (p c).cursor).trouble?.map fun found =>
      (found.1 + (consumedIn (p c).events).length, found.2) := by
  unfold Reply.trouble? Reply.journal at h ⊢
  rw [ha] at h
  rw [Parser.run_bind_ok f ha]
  cases hb : (f a (p c).cursor).outcome with
  | ok b => exact firstReport_append_of_none h _
  | error e =>
    simp only [List.append_assoc]
    exact firstReport_append_of_none h _

/-- **Reading in sequence.** -/
theorem ReadsAt.bind {c : Cursor} (hp : ReadsAt G F c (p c))
    (hf : ∀ a, (p c).trouble? = none → (p c).outcome = .ok a →
      ReadsAt (H a) F' (p c).cursor (f a (p c).cursor))
    [hv : ∀ a, Viable (H a)] (hlead : ∀ a, Leads (H a) F' (F a)) :
    ReadsAt (Lang.seq G H) F' c ((p >>= f) c) := by
  have hreach := p.reaches c
  cases htp : (p c).trouble? with
  | some x =>
    -- the first part has the first fault, and its phrases can be completed
    have htrouble := trouble?_bind_of_some (f := f) htp
    refine ⟨fun a h _ => ?_, fun a h _ => ?_, fun m e h => ?_⟩
    · rw [htrouble] at h
      cases h
    · rw [htrouble] at h
      cases h
    · rw [htrouble, ← htp] at h
      obtain ⟨i, hi, hle, hpos, ⟨y, a, hy⟩, hno⟩ := hp.fault m e h
      refine ⟨i, hi, hle, hpos, ?_, ?_⟩
      · obtain ⟨v, b, hb⟩ := (hv a).exists_phrase
        exact ⟨y ++ v, b, _, v, a, (List.append_assoc _ _ _).symm, hy, hb⟩
      · rintro w b k ⟨v, z, a', rfl, hv', hz⟩ hF heq
        refine hno v a' (z ++ k) hv' (hlead a' z b k hz hF) ?_
        rwa [List.append_assoc] at heq
  | none =>
    obtain ⟨a, ha, -⟩ := Reply.exists_ok_of_trouble?_eq_none htp
    have htrouble := trouble?_bind_of_none (f := f) htp ha
    have hrest := hf a htp ha
    have hsound := hp.sound a htp ha
    have hunique := hp.unique a htp ha
    -- what agrees with the input through `j` more tokens starts with what `p` read
    have hsplit : ∀ j w b k, Lang.seq G H w b → F' b k.head? →
        (w ++ k).take ((consumedIn (p c).events).length + (j + 1)) =
          c.upcoming.take ((consumedIn (p c).events).length + (j + 1)) →
        ∃ z, w = consumedIn (p c).events ++ z ∧ H a z b ∧
          (z ++ k).take (j + 1) = (p c).cursor.upcoming.take (j + 1) := by
      rintro j w b k ⟨v, z, a', rfl, hv', hz⟩ hF heq
      rw [List.append_assoc] at heq
      obtain ⟨rfl, rfl⟩ := hunique v a' (z ++ k) hv' (hlead a' z b k hz hF)
        (take_eq_of_le heq (by omega))
      refine ⟨z, rfl, hz, ?_⟩
      rw [hreach.tokens] at heq
      exact take_of_append_take heq
    rw [Parser.run_bind_ok f ha] at htrouble ⊢
    refine ⟨fun b h hb => ?_, fun b h hb w b' k hw hF heq => ?_, fun m e h => ?_⟩
    · rw [htrouble, Option.map_eq_none_iff] at h
      rw [consumedIn_append]
      exact ⟨_, _, a, rfl, hsound, hrest.sound b h hb⟩
    · rw [htrouble, Option.map_eq_none_iff] at h
      rw [consumedIn_append, List.length_append, Nat.add_assoc] at heq
      obtain ⟨z, rfl, hz, hagree⟩ := hsplit _ w b' k hw hF heq
      obtain ⟨rfl, rfl⟩ := hrest.unique b h hb z b' k hz hF hagree
      exact ⟨(consumedIn_append _ _).symm, rfl⟩
    · rw [htrouble, Option.map_eq_some_iff] at h
      obtain ⟨⟨m', e'⟩, hm, hme⟩ := h
      obtain ⟨rfl, rfl⟩ : m' + _ = m ∧ e' = e := by simpa using hme
      obtain ⟨i, rfl, hle, hpos, ⟨y, b, hy⟩, hno⟩ := hrest.fault m' e' hm
      have hleft := hreach.left_add
      refine ⟨(consumedIn (p c).events).length + i, by omega, by omega, ?_, ?_, ?_⟩
      · rw [Cursor.after_add, ← hreach.cursor]
        exact hpos
      · refine ⟨y, b, consumedIn (p c).events, (p c).cursor.upcoming.take i ++ y, a, ?_, hsound, hy⟩
        rw [hreach.tokens, List.take_length_add_append, List.append_assoc]
      · intro w b' k hw hF heq
        obtain ⟨z, rfl, hz, hagree⟩ := hsplit i w b' k hw hF heq
        exact hno z b' k hz hF hagree

/-- Reading in sequence, where what follows may count on `Q` at its cursor. -/
theorem ReadsIf.bind_post {Q : α → Cursor → Prop} (hp : ReadsIf n P G F p)
    (hpost : ∀ c a, ReadsAt G F c (p c) → (p c).trouble? = none → (p c).outcome = .ok a →
      Q a (p c).cursor)
    (hf : ∀ a, ReadsIf n (Q a) (H a) F' (f a)) [∀ a, Viable (H a)]
    (hlead : ∀ a, Leads (H a) F' (F a)) : ReadsIf n P (Lang.seq G H) F' (p >>= f) := by
  intro c hc hn hP
  have hread := hp c hc hn hP
  refine hread.bind (fun a ht ha => ?_) hlead
  exact hf a _ (pending_of_reaches (p.reaches c) hc) (Nat.lt_of_le_of_lt (p.left_le c) hn)
    (hpost c a hread ht ha)

theorem ReadsIf.bind (hp : ReadsIf n P G F p) (hf : ∀ a, Reads n (H a) F' (f a))
    [∀ a, Viable (H a)] (hlead : ∀ a, Leads (H a) F' (F a)) :
    ReadsIf n P (Lang.seq G H) F' (p >>= f) :=
  hp.bind_post (fun _ _ _ _ _ => trivial) hf hlead

theorem Reads.bind (hp : Reads n G F p) (hf : ∀ a, Reads n (H a) F' (f a)) [∀ a, Viable (H a)]
    (hlead : ∀ a, Leads (H a) F' (F a)) : Reads n (Lang.seq G H) F' (p >>= f) :=
  ReadsIf.bind hp hf hlead

/-- Behind a phrase that is not empty, the level goes down. -/
theorem ReadsIf.step (hp : ReadsIf (n + 1) P G F p) (hne : ∀ a, ¬ G [] a)
    (hf : ∀ a, Reads n (H a) F' (f a)) [∀ a, Viable (H a)]
    (hlead : ∀ a, Leads (H a) F' (F a)) : ReadsIf (n + 1) P (Lang.seq G H) F' (p >>= f) := by
  intro c hc hn hP
  have hread := hp c hc hn hP
  refine hread.bind (fun a ht ha => ?_) hlead
  refine hf a _ (pending_of_reaches (p.reaches c) hc) ?_ trivial
  have hpos : (consumedIn (p c).events).length ≠ 0 := by
    intro h0
    have hG := hread.sound a ht ha
    rw [List.length_eq_zero_iff.1 h0] at hG
    exact hne a hG
  have := (p.reaches c).left_add
  omega

theorem reads_pure (a : α) : Reads n (Lang.unit a) F (pure a : Parser α) := by
  intro c _ _ _
  refine ⟨fun b _ hb => ?_, fun b _ hb w b' k hw _ _ => ?_, fun m f h => ?_⟩
  · obtain rfl : a = b := by simpa using hb
    exact ⟨rfl, rfl⟩
  · obtain rfl : a = b := by simpa using hb
    exact hw
  · simp [Reply.trouble?_ok, firstReport] at h

/-- A parser whose value is passed on changed. -/
theorem ReadsIf.map [Viable G] (hp : ReadsIf n P G F p) (g : α → β)
    (hF : ∀ a t, F' (g a) t → F a t) :
    ReadsIf n P (Lang.mapped g G) F' (p >>= fun a => pure (g a)) := by
  have hseq : ReadsIf n P (Lang.seq G fun a => Lang.unit (g a)) F' (p >>= fun a => pure (g a)) := by
    refine hp.bind (fun a => reads_pure _) fun a w b k hw hk => ?_
    obtain ⟨rfl, rfl⟩ := hw
    exact hF a _ hk
  refine hseq.convert (fun c _ w b hw _ => ?_) fun c _ w b k hw hk _ => ?_
  · obtain ⟨v, x, a, rfl, hv, rfl, rfl⟩ := hw
    rw [List.append_nil]
    exact ⟨a, hv, rfl⟩
  · obtain ⟨a, ha, rfl⟩ := hw
    exact ⟨⟨w, [], a, (List.append_nil w).symm, ha, rfl, rfl⟩, hk⟩

theorem Reads.map [Viable G] (hp : Reads n G F p) (g : α → β) (hF : ∀ a t, F' (g a) t → F a t) :
    Reads n (Lang.mapped g G) F' (p >>= fun a => pure (g a)) :=
  ReadsIf.map hp g hF

end Sequence

end Reading
end BantamJava
