/-
# Rules for reading

What each combinator of parsers reads, if its parts do: a token of some kind, a
choice by the current token, a list entry that recovers from its faults, and a
recursive parser. With these the parsers of the grammar are gone through part by
part, and none of them is opened up to its cursor again.

Key definitions: `Lang.opt`, `Lang.entry`, `Avoids`, `Before`.
Key theorems: `reads_expectElse_bind`, `reads_current`, `reads_either`,
`reads_unless`, `reads_recovering`, `reads_fix`.
-/
import BantamJava.Proofs.Reading.Basic

namespace BantamJava

variable {α β ι : Type}

/-! ### Single tokens -/

section Tokens

open BantamJava.Parser

variable {n : Nat} {P : Cursor → Prop} {H : Token → Lang α} {G : Lang α} {F : Follow α}
  {f : Token → Parser α} {k : Kind}

/-- A fault at the current token, where no phrase can start. -/
theorem readsAt_error [hv : Viable G] {c : Cursor} {e : Fault} (hlag : e.lag = 0)
    (hpos : e.position = c.current.position)
    (hno : ∀ w b k, G w b → F b k.head? → (w ++ k).head? ≠ c.upcoming.head?) :
    ReadsAt G F c ⟨.error e, c, []⟩ := by
  refine ⟨fun a _ ha => ?_, fun a _ ha => ?_, fun m g h => ?_⟩
  · cases ha
  · cases ha
  · obtain ⟨rfl, rfl⟩ : 0 = m ∧ e = g := by
      simpa [Reply.trouble?, Reply.journal, firstReport] using h
    refine ⟨0, by omega, Nat.zero_le _, hpos, ?_, fun w b k hw hk heq => ?_⟩
    · exact hv.exists_phrase
    · exact hno w b k hw hk (head?_eq_of_take heq)

theorem readsIf_failHere [Viable G] {cause : String → Cause}
    (hlag : ∀ s p, (⟨cause s, p⟩ : Fault).lag = 0)
    (hno : ∀ c, P c → ∀ w b k, G w b → F b k.head? → (w ++ k).head? ≠ c.upcoming.head?) :
    ReadsIf n P G F (failHere cause) := by
  intro c _ _ hP
  simp only [failHere, run_current_bind, run_fail]
  exact readsAt_error (hlag _ _) rfl (hno c hP)

theorem trouble?_advance {c : Cursor} (hc : c.pending = []) : (advance c).trouble? = none := by
  have := Cursor.pending_advance c
  rw [hc] at this
  exact firstReport_eq_none_iff.2 (List.append_eq_nil_iff.1 this.symm).1

/-- Consuming a token of a kind that is known. -/
theorem readsIf_advance (hk : k ≠ .endOfInput) {F : Follow Token} :
    ReadsIf n (Cursor.At k) (fun w t => w = [t] ∧ t.kind = k) F advance := by
  intro c hc _ hP
  have hne : c.current.kind ≠ .endOfInput := hP ▸ hk
  have hconsumed : consumedIn (advance c).events = [c.current] := Cursor.consumedIn_advance hne
  refine ⟨fun a _ ha => ?_, fun a _ ha w b x hw _ heq => ?_, fun m g h => ?_⟩
  · obtain rfl : c.current = a := by simpa [advance] using ha
    exact ⟨hconsumed, hP⟩
  · obtain rfl : c.current = a := by simpa [advance] using ha
    obtain ⟨rfl, -⟩ := hw
    have hhead := head?_eq_of_take heq
    obtain rfl := eq_current_of_head? hhead.symm
    exact ⟨hconsumed.symm, rfl⟩
  · rw [trouble?_advance hc] at h
    cases h

theorem readsIf_advance_bind (hk : k ≠ .endOfInput) (hf : ∀ t, Reads n (H t) F (f t))
    [∀ t, Viable (H t)] :
    ReadsIf (n + 1) (Cursor.At k) (Lang.token k H) F (advance >>= f) := by
  have hseq := (readsIf_advance (n := n + 1) (F := fun _ _ => True) hk).step
    (fun t h => by cases h.1) hf fun t w b x _ _ => trivial
  refine hseq.convert (fun c _ w b hw _ => ?_) fun c _ w b x hw hx _ => ⟨?_, hx⟩
  · obtain ⟨v, y, t, rfl, ⟨rfl, ht⟩, hy⟩ := hw
    exact ⟨t, y, rfl, ht, hy⟩
  · obtain ⟨t, v, rfl, ht, hv⟩ := hw
    exact ⟨[t], v, t, rfl, ⟨rfl, ht⟩, hv⟩

theorem skip_bind (q : Unit → Parser α) : skip >>= q = advance >>= fun _ => q () := by
  rw [skip, bind_assoc]
  simp only [pure_bind]

theorem readsIf_skip_bind (hk : k ≠ .endOfInput) {q : Unit → Parser α}
    (hq : Reads n G F (q ())) [Viable G] :
    ReadsIf (n + 1) (Cursor.At k) (Lang.token k fun _ => G) F (skip >>= q) := by
  rw [skip_bind]
  exact readsIf_advance_bind hk fun _ => hq

theorem reads_expectElse_bind (hk : k ≠ .endOfInput) {cause : String → Cause}
    (hlag : ∀ s p, (⟨cause s, p⟩ : Fault).lag = 0) (hf : ∀ t, Reads n (H t) F (f t))
    [∀ t, Viable (H t)] : Reads (n + 1) (Lang.token k H) F (expectElse k cause >>= f) := by
  intro c hc hn _
  by_cases hck : c.current.kind = k
  · have hrun : expectElse k cause c = advance c := by rw [run_expectElse, if_pos hck]
    have hbind : (expectElse k cause >>= f) c = (advance >>= f) c := by
      rw [run_bind_ok (p := advance) (a := c.current) f rfl,
        run_bind_ok (p := expectElse k cause) (a := c.current) f (by rw [hrun]; rfl), hrun]
    rw [hbind]
    exact readsIf_advance_bind hk hf c hc hn hck
  · have hrun : expectElse k cause c =
        ⟨.error ⟨cause c.current.value, c.current.position⟩, c, []⟩ := by
      rw [run_expectElse, if_neg hck]
      rfl
    rw [run_bind_error f (by rw [hrun]), hrun]
    refine readsAt_error (hlag _ _) rfl fun w b x hw _ heq => ?_
    obtain ⟨t, v, rfl, ht, -⟩ := hw
    obtain rfl := eq_current_of_head? heq.symm
    exact hck ht

theorem reads_expect_bind (hk : k ≠ .endOfInput) (hf : ∀ t, Reads n (H t) F (f t))
    [∀ t, Viable (H t)] : Reads (n + 1) (Lang.token k H) F (expect k >>= f) :=
  reads_expectElse_bind hk (fun _ _ => rfl) hf

/-- The same, where the level need not go down. -/
theorem reads_expectElse_then (hk : k ≠ .endOfInput) {cause : String → Cause}
    (hlag : ∀ s p, (⟨cause s, p⟩ : Fault).lag = 0) (hf : ∀ t, Reads n (H t) F (f t))
    [∀ t, Viable (H t)] : Reads n (Lang.token k H) F (expectElse k cause >>= f) := by
  cases n with
  | zero => exact readsIf_zero
  | succ n => exact reads_expectElse_bind hk hlag fun t => (hf t).mono (Nat.le_succ n)

theorem reads_expect_then (hk : k ≠ .endOfInput) (hf : ∀ t, Reads n (H t) F (f t))
    [∀ t, Viable (H t)] : Reads n (Lang.token k H) F (expect k >>= f) :=
  reads_expectElse_then hk (fun _ _ => rfl) hf

theorem readsIf_skip_then (hk : k ≠ .endOfInput) {q : Unit → Parser α}
    (hq : Reads n G F (q ())) [Viable G] :
    ReadsIf n (Cursor.At k) (Lang.token k fun _ => G) F (skip >>= q) := by
  cases n with
  | zero => exact readsIf_zero
  | succ n => exact readsIf_skip_bind hk (hq.mono (Nat.le_succ n))

theorem readsIf_advance_then (hk : k ≠ .endOfInput) (hf : ∀ t, Reads n (H t) F (f t))
    [∀ t, Viable (H t)] : ReadsIf n (Cursor.At k) (Lang.token k H) F (advance >>= f) := by
  cases n with
  | zero => exact readsIf_zero
  | succ n => exact readsIf_advance_bind hk fun t => (hf t).mono (Nat.le_succ n)

end Tokens

/-! ### Looking -/

section Looking

open BantamJava.Parser

variable {τ : Type} {n : Nat} {P : Cursor → Prop} {G : Lang α} {F : Follow α} {k : Kind}

theorem reads_kind {f : Kind → Parser α} (h : ∀ k, ReadsIf n (Cursor.At k) G F (f k)) :
    Reads n G F (kind >>= f) := by
  intro c hc hn _
  rw [run_kind_bind]
  exact h _ c hc hn rfl

/-- Looking at the current token: the first of the phrase that is read. -/
theorem reads_current {H : Token → Lang α} [Viable G] {f : Token → Parser α}
    (h : ∀ t, ReadsIf n (fun c => c.current = t) (H t) F (f t))
    (hne : ∀ t a, ¬ H t [] a) (hne' : ∀ a, ¬ G [] a)
    (hiff : ∀ t v a, H t (t :: v) a ↔ G (t :: v) a) : Reads n G F (current >>= f) := by
  intro c hc hn _
  rw [run_current_bind]
  refine ((h c.current) c hc hn rfl).convert (fun w a hw hhead => ?_)
    (fun w a k hw hk hhead => ⟨?_, hk⟩) (Parser.reaches _ c)
  · cases w with
    | nil => exact absurd hw (hne _ a)
    | cons t v =>
      obtain rfl := eq_current_of_head? (hhead t rfl)
      exact (hiff _ v a).1 hw
  · cases w with
    | nil => exact absurd hw (hne' a)
    | cons t v =>
      obtain rfl := eq_current_of_head? hhead.symm
      exact (hiff _ v a).2 hw

/-- A phrase of `G`, or nothing with the value `a`. -/
abbrev Lang.opt (a : α) (G : Lang α) : Lang α := fun w b => (w = [] ∧ b = a) ∨ G w b

/-- A token whose kind has an entry in the table, and then a phrase of a language
that depends on the entry. -/
abbrev Lang.entry (table : Kind → Option τ) (H : τ → Lang α) : Lang α :=
  fun w b => ∃ t v x, w = t :: v ∧ table t.kind = some x ∧ H x v b

instance (a : α) (G : Lang α) : Viable (Lang.opt a G) := ⟨[], a, .inl ⟨rfl, rfl⟩⟩

theorem head?_upcoming_of_at {c : Cursor} (h : c.At k) (hk : k ≠ .endOfInput) :
    c.upcoming.head? = some c.current := by
  have hne : c.current.kind ≠ .endOfInput := h ▸ hk
  rw [Cursor.upcoming_of_ne hne]
  rfl

/-- Another language whose phrases that start with a token of kind `k` are the
same, where such a token may not follow an empty phrase. -/
theorem ReadsIf.convert_opt {H : Lang α} [Viable H] {q : Parser α}
    (hq : ReadsIf n (Cursor.At k) G F q) (hk : k ≠ .endOfInput) (hto : ∀ w a, G w a → H w a)
    (hnil : ∀ a t, H [] a → t.kind = k → ¬ F a (some t))
    (hof : ∀ t v a, t.kind = k → H (t :: v) a → G (t :: v) a) : ReadsIf n (Cursor.At k) H F q := by
  refine hq.convert (fun c _ w a hw _ => hto w a hw) fun c hc w a x hw hx hhead => ⟨?_, hx⟩
  cases w with
  | nil =>
    rw [List.nil_append, head?_upcoming_of_at hc hk] at hhead
    rw [hhead] at hx
    exact absurd hx (hnil a _ hw hc)
  | cons t v => exact hof t v a (hc.kind_of_head? hhead.symm) hw

/-- The token, if there is one, is not of kind `k`. -/
def Avoids (k : Kind) (o : Option Token) : Prop := ∀ t, o = some t → t.kind ≠ k

theorem avoids_of_kind {k' : Kind} (hk : k' ≠ k) (t : Token) (ht : t.kind = k') :
    Avoids k (some t) := by
  intro t' ht'
  cases ht'
  rwa [ht]

/-- A parser of something that starts with a token of kind `k`, or of something
else where no such token stands. -/
theorem reads_either {H : Token → Lang α} [hv : Viable G] {q r : Parser α} (hk : k ≠ .endOfInput)
    (hq : ReadsIf n (Cursor.At k) (Lang.token k H) F q) (hr : Reads n G F r)
    (hG : Leads G F (Avoids k)) :
    Reads n (Lang.either (Lang.token k H) G) F (kind >>= fun k' => if k' = k then q else r) := by
  have hviable : Viable (Lang.either (Lang.token k H) G) := by
    obtain ⟨w, a, ha⟩ := hv.exists_phrase
    exact ⟨w, a, .inr ha⟩
  refine reads_kind fun k' => ?_
  by_cases hkk : k' = k
  · subst hkk
    simp only [if_true]
    refine hq.convert (fun c _ w b hw _ => .inl hw) fun c hc w b x hw hx hhead => ⟨?_, hx⟩
    rcases hw with hw | hw
    · exact hw
    · rw [head?_upcoming_of_at hc hk] at hhead
      exact absurd hc (hG w b x hw hx _ hhead)
  · simp only [if_neg hkk]
    refine hr.when.convert (fun c _ w b hw _ => .inr hw) fun c hc w b x hw hx hhead => ⟨?_, hx⟩
    rcases hw with ⟨t, v, rfl, ht, -⟩ | hw
    · exact absurd ((hc.kind_of_head? hhead.symm).symm.trans ht) hkk
    · exact hw

/-- A parser of something that starts with a token of kind `k`, unless no such
token stands there. -/
theorem reads_opt {a : α} {H : Token → Lang α} {q : Parser α} (hk : k ≠ .endOfInput)
    (hq : ReadsIf n (Cursor.At k) (Lang.token k H) F q) (hF : ∀ t, t.kind = k → ¬ F a (some t)) :
    Reads n (Lang.opt a (Lang.token k H)) F
      (kind >>= fun k' => if k' = k then q else pure a) := by
  refine (reads_either hk hq (reads_pure a) ?_).congr fun w b => Or.comm
  rintro w b x ⟨rfl, rfl⟩ hx t ht htk
  rw [List.nil_append] at ht
  rw [ht] at hx
  exact hF t htk hx

/-- The token is there and of kind `k`. -/
def Before (k : Kind) (o : Option Token) : Prop := ∃ t, o = some t ∧ t.kind = k

theorem before_of_kind (t : Token) (ht : t.kind = k) : Before k (some t) := ⟨t, rfl, ht⟩

/-- Something in front of a token of kind `k`, unless that token stands there
already. -/
theorem reads_unless {a : α} {q : Parser α} (hq : Reads n G (fun _ => Before k) q)
    (hstart : ∀ w b, G w b → ∃ t v, w = t :: v ∧ t.kind ≠ k) :
    Reads n (Lang.opt a G) (fun _ => Before k)
      (kind >>= fun k' => if k' = k then pure a else q) := by
  refine reads_kind fun k' => ?_
  by_cases hkk : k' = k
  · subst hkk
    simp only [if_true]
    refine (reads_pure a).when.convert (fun c _ w b hw _ => .inl hw)
      fun c hc w b x hw hx hhead => ⟨?_, hx⟩
    rcases hw with hw | hw
    · exact hw
    · obtain ⟨t, v, rfl, ht⟩ := hstart w b hw
      exact absurd (hc.kind_of_head? hhead.symm) ht
  · simp only [if_neg hkk]
    refine hq.when.convert (fun c _ w b hw _ => .inr hw) fun c hc w b x hw hx hhead => ⟨?_, hx⟩
    rcases hw with ⟨rfl, rfl⟩ | hw
    · obtain ⟨t, ht, htk⟩ := hx
      rw [List.nil_append, ht] at hhead
      exact absurd ((hc.kind_of_head? hhead.symm).symm.trans htk) hkk
    · exact hw

/-- What the table says of a kind with an entry. -/
theorem readsIf_entry_some {a : α} {table : Kind → Option τ} {H : τ → Lang α} {q : Parser α}
    {x : τ} (hend : table .endOfInput = none) (hx : table k = some x)
    (hq : ReadsIf n (Cursor.At k) (Lang.token k fun _ => H x) F q)
    (hF : ∀ t y, table t.kind = some y → ¬ F a (some t)) :
    ReadsIf n (Cursor.At k) (Lang.opt a (Lang.entry table H)) F q := by
  have hk : k ≠ .endOfInput := by
    rintro rfl
    rw [hend] at hx
    cases hx
  refine hq.convert_opt hk (fun w b hw => ?_) (fun b t hb ht => ?_) fun t v b ht h => ?_
  · obtain ⟨t, v, rfl, ht, hv⟩ := hw
    exact .inr ⟨t, v, x, rfl, by rw [ht, hx], hv⟩
  · rcases hb with ⟨-, rfl⟩ | ⟨_, _, _, hnil, -⟩
    · exact hF t x (by rw [ht, hx])
    · cases hnil
  · rcases h with ⟨hnil, -⟩ | ⟨t', v', y, heq, hy, hv⟩
    · cases hnil
    · cases heq
      rw [ht, hx] at hy
      obtain rfl := Option.some.inj hy
      exact ⟨t, v, rfl, ht, hv⟩

/-- What the table says of a kind without one. -/
theorem readsIf_entry_none {a : α} {table : Kind → Option τ} {H : τ → Lang α}
    (hx : table k = none) :
    ReadsIf n (Cursor.At k) (Lang.opt a (Lang.entry table H)) F (pure a) := by
  refine (reads_pure a).when.convert (fun c _ w b hw _ => .inl hw)
    fun c hc w b y hw hy hhead => ⟨?_, hy⟩
  rcases hw with hw | ⟨t, v, y, rfl, ht, -⟩
  · exact hw
  · rw [hc.kind_of_head? hhead.symm, hx] at ht
    cases ht

end Looking

/-! ### What follows -/

section Leads

variable {τ : Type} {F : Follow β} {Q : Option Token → Prop}

theorem leads_token {k : Kind} {H : Token → Lang β} (h : ∀ t, t.kind = k → Q (some t)) :
    Leads (Lang.token k H) F Q := by
  rintro w b x ⟨t, v, rfl, ht, -⟩ -
  exact h t ht

theorem leads_entry {table : Kind → Option τ} {H : τ → Lang β}
    (h : ∀ t x, table t.kind = some x → Q (some t)) : Leads (Lang.entry table H) F Q := by
  rintro w b x ⟨t, v, y, rfl, ht, -⟩ -
  exact h t y ht

theorem leads_opt {b : β} {G : Lang β} (h : ∀ o, F b o → Q o) (hG : Leads G F Q) :
    Leads (Lang.opt b G) F Q := by
  rintro w b' k (⟨rfl, rfl⟩ | hw) hk
  · exact h _ hk
  · exact hG w b' k hw hk

end Leads

/-! ### Recovery -/

section Recovery

open BantamJava.Parser

variable {n : Nat} {G : Lang α} {F : Follow α}

/-- Only what comes before the first fault counts. -/
theorem ReadsAt.of_trouble? {c : Cursor} {r r' : Reply α} (h : ReadsAt G F c r)
    (ht : r'.trouble? = r.trouble?) (heq : r.trouble? = none →
      r'.outcome = r.outcome ∧ consumedIn r'.events = consumedIn r.events) :
    ReadsAt G F c r' where
  sound a hnone ha := by
    rw [ht] at hnone
    obtain ⟨houtcome, hconsumed⟩ := heq hnone
    rw [hconsumed]
    exact h.sound a hnone (houtcome ▸ ha)
  unique a hnone ha := by
    rw [ht] at hnone
    obtain ⟨houtcome, hconsumed⟩ := heq hnone
    rw [hconsumed]
    exact h.unique a hnone (houtcome ▸ ha)
  fault m f hsome := by
    rw [ht] at hsome
    exact h.fault m f hsome

/-- **Recovery plays no part in reading.** -/
theorem reads_recovering [Viable G] {p : Parser α} {recover : Nat → Parser Unit}
    (hp : Reads n G F p) :
    Reads n (Lang.mapped some G) (fun o t => ∀ a, o = some a → F a t) (recovering p recover) := by
  have hmap : Reads n (Lang.mapped some G) (fun o t => ∀ a, o = some a → F a t)
      (p >>= fun a => pure (some a)) := hp.map some fun a t h => h a rfl
  intro c hc hn hP
  refine (hmap c hc hn hP).of_trouble? ?_ fun hnone => ?_
  · cases ha : (p c).outcome with
    | ok a => rw [run_recovering_ok ha, run_bind_ok _ ha, run_pure, List.append_nil]
    | error f =>
      rw [run_recovering_error ha, run_bind_error _ ha]
      have hsome : firstReport ((p c).events ++ [.reported f]) ≠ none := by
        intro h
        have := firstReport_eq_none_iff.1 h
        simp [Event.fault?] at this
      obtain ⟨x, hx⟩ := Option.ne_none_iff_exists'.1 hsome
      have hjournal : ∀ es, firstReport ((p c).events ++ .reported f :: es) = some x := by
        intro es
        rw [List.append_cons]
        exact firstReport_append_of_some hx es
      rw [show Reply.trouble? ⟨.error f, _, _⟩ = some x from hx]
      unfold Reply.trouble? Reply.journal
      split
      · exact hjournal _
      · rw [List.append_assoc]
        exact hjournal _
  · cases ha : (p c).outcome with
    | ok a =>
      rw [run_recovering_ok ha, run_bind_ok _ ha, run_pure, List.append_nil]
      exact ⟨rfl, rfl⟩
    | error f =>
      rw [run_bind_error _ ha] at hnone
      obtain ⟨b, hb, -⟩ := Reply.exists_ok_of_trouble?_eq_none hnone
      cases hb

/-- Something that is noted, other than a fault, plays no part either. -/
theorem readsIf_note_bind {P : Cursor → Prop} {e : Event} {quiet : e.consumed? = none}
    (he : e.fault? = none) {q : Unit → Parser α} (hq : ReadsIf n P G F (q ())) :
    ReadsIf n P G F (note e quiet >>= q) := by
  intro c hc hn hP
  have hrun : (note e quiet >>= q) c =
      ⟨(q () c).outcome, (q () c).cursor, e :: (q () c).events⟩ := by
    rw [run_bind_ok (a := ()) q rfl]
    rfl
  have hskip : ∀ es, firstReport (e :: es) = firstReport es := by
    intro es
    cases e with
    | consumed t => cases quiet
    | reported f => cases he
    | _ => rfl
  rw [hrun]
  refine (hq c hc hn hP).of_trouble? ?_ fun _ => ⟨rfl, by simp [quiet]⟩
  unfold Reply.trouble? Reply.journal
  cases (q () c).outcome with
  | ok a => exact hskip _
  | error f => exact hskip _

end Recovery

/-! ### Recursion -/

section Recursion

open BantamJava.Parser

variable {n : Nat} {body : (ι → Parser α) → ι → Parser α} {G : ι → Lang α} {F : ι → Follow α}

theorem reads_fixOver {N : Nat}
    (h : ∀ m self, m + 1 ≤ N → (∀ i, Reads m (G i) (F i) (self i)) →
      ∀ i, Reads (m + 1) (G i) (F i) (body self i)) :
    ∀ (m : Nat) (items : List Item), m ≤ N → m ≤ items.length + 1 →
      ∀ i, Reads m (G i) (F i) (fixOver body items i) := by
  intro m
  induction m with
  | zero => exact fun _ _ _ _ => readsIf_zero
  | succ m ih =>
    intro items hN hi
    cases items with
    | nil =>
      obtain rfl : m = 0 := by simpa using hi
      exact h 0 _ hN fun _ => readsIf_zero
    | cons _ items =>
      simp only [List.length_cons] at hi
      exact h m _ hN (ih items (by omega) (by omega))

/-- **Reading by recursion**, if every nested use stands behind a consumed
token. -/
theorem reads_fix (h : ∀ m self, m + 1 ≤ n → (∀ i, Reads m (G i) (F i) (self i)) →
      ∀ i, Reads (m + 1) (G i) (F i) (body self i)) (i : ι) :
    Reads n (G i) (F i) (fix body i) := by
  intro c hc hn _
  have hle := c.left_le
  exact h c.left _ hn (reads_fixOver h c.left c.rest (Nat.le_of_lt hn) hle) i c hc
    (Nat.lt_succ_self _) trivial

theorem reads_recursive {body : Parser α → Parser α} {G : Lang α} {F : Follow α}
    (h : ∀ m self, m + 1 ≤ n → Reads m G F self → Reads (m + 1) G F (body self)) :
    Reads n G F (recursive body) :=
  reads_fix (G := fun _ => G) (F := fun _ => F) (fun m _ hm hs _ => h m _ hm (hs ())) ()

end Recursion

end BantamJava
