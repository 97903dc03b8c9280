/-
# One token of lookahead

What a parser replies depends on the tokens it has consumed and on the one that
is current when it returns, and on nothing behind that. Two cursors that agree so
far get the same outcome, consume the same tokens and report the same faults. This
is a trait that is kept in recovery too, so all parsers of the grammar have it.

Parsers of expressions, and all that catches no fault, are quiet as well: they
report only the faults of the source between the tokens they take.

Key definitions: `Cursor.Agree`, `Trait.lookahead`, `Trait.quiet`, `Trait.and`.
Key theorems: `Cursor.Agree.after`, `Cursor.agree_of_upcoming`,
`Trait.lookahead_catches`.
-/
import BantamJava.Proofs.Trait.Grammar

namespace BantamJava

/-! ### Cursors that agree -/

namespace Cursor

/-- The two cursors see the same, up to `n` tokens behind the current one. -/
def Agree : Nat → Cursor → Cursor → Prop
  | 0, c, d => d.current = c.current ∧ d.consumed = c.consumed
  | n + 1, c, d => (d.current = c.current ∧ d.consumed = c.consumed) ∧
      faultsIn d.advance.2 = faultsIn c.advance.2 ∧ Agree n c.advance.1 d.advance.1

variable {c d : Cursor} {m n : Nat}

theorem Agree.here (h : Agree n c d) : d.current = c.current ∧ d.consumed = c.consumed := by
  cases n with
  | zero => exact h
  | succ n => exact h.1

theorem Agree.consumedIn_advance (h : Agree n c d) (hk : c.current.kind ≠ .endOfInput) :
    consumedIn d.advance.2 = consumedIn c.advance.2 := by
  have hd : d.current.kind ≠ .endOfInput := by rwa [h.here.1]
  rw [Cursor.consumedIn_advance hk, Cursor.consumedIn_advance hd, h.here.1]

theorem Agree.mono (h : Agree n c d) (hm : m ≤ n) : Agree m c d := by
  induction n generalizing m c d with
  | zero =>
    obtain rfl : m = 0 := by omega
    exact h
  | succ n ih =>
    cases m with
    | zero => exact h.here
    | succ m => exact ⟨h.1, h.2.1, ih h.2.2 (by omega)⟩

theorem Agree.after (h : Agree (m + n) c d) : Agree n (c.after m) (d.after m) := by
  induction m generalizing c d with
  | zero =>
    rw [Nat.zero_add] at h
    exact h
  | succ m ih =>
    rw [Nat.add_right_comm] at h
    exact ih h.2.2

theorem faultsIn_advance_of_quiet (hquiet : c.pending = []) : faultsIn c.advance.2 = [] :=
  (List.append_eq_nil_iff.1 ((pending_advance c).symm.trans hquiet)).1

/-- Cursors with the same tokens ahead, and no faults between them, agree. -/
theorem agree_of_upcoming {t : Token} {v x y : List Token} (hc : c.upcoming = t :: (v ++ x))
    (hd : d.upcoming = t :: (v ++ y)) (hn : d.consumed = c.consumed) (hcq : c.pending = [])
    (hdq : d.pending = []) : Agree v.length c d := by
  obtain ⟨hct, hcne⟩ := current_of_upcoming hc
  obtain ⟨hdt, hdne⟩ := current_of_upcoming hd
  induction v generalizing t c d with
  | nil => exact ⟨hdt.trans hct.symm, hn⟩
  | cons s v ih =>
    have hc' : c.advance.1.upcoming = s :: (v ++ x) := by rw [upcoming_advance, hc]; rfl
    have hd' : d.advance.1.upcoming = s :: (v ++ y) := by rw [upcoming_advance, hd]; rfl
    obtain ⟨hcs, hcne'⟩ := current_of_upcoming hc'
    obtain ⟨hds, hdne'⟩ := current_of_upcoming hd'
    refine ⟨⟨hdt.trans hct.symm, hn⟩, ?_, ih hc' hd' ?_ ((reaches_advance c).pending_eq_nil hcq)
      ((reaches_advance d).pending_eq_nil hdq) hcs hcne' hds hdne'⟩
    · rw [faultsIn_advance_of_quiet hcq, faultsIn_advance_of_quiet hdq]
    · rw [consumed_advance hcne, consumed_advance hdne, hn]

end Cursor

open BantamJava.Parser

namespace Trait

/-! ### Lookahead -/

/-- The reply depends on nothing behind the token that is current when the parser
returns. -/
def lookahead : Trait where
  holds p c := ∀ d, c.Agree (consumedIn (p c).events).length d →
    (p d).outcome = (p c).outcome ∧ consumedIn (p d).events = consumedIn (p c).events ∧
      faultsIn (p d).events = faultsIn (p c).events
  takes _ := True
  holds_pure _ _ _ _ := ⟨rfl, rfl, rfl⟩
  holds_bind {_ _ p f c} hp hf d hd := by
    cases ha : (p c).outcome with
    | error e =>
      rw [run_bind_error f ha] at hd ⊢
      obtain ⟨houtcome, hconsumed, hfaults⟩ := hp d hd
      rw [run_bind_error f (houtcome.trans ha)]
      exact ⟨rfl, hconsumed, hfaults⟩
    | ok a =>
      rw [run_bind_ok f ha] at hd ⊢
      rw [consumedIn_append, List.length_append] at hd
      obtain ⟨houtcome, hconsumed, hfaults⟩ := hp d (hd.mono (Nat.le_add_right _ _))
      rw [run_bind_ok f (houtcome.trans ha)]
      simp only [consumedIn_append, faultsIn_append, hconsumed, hfaults]
      have hcursor : (p d).cursor = d.after (consumedIn (p c).events).length := by
        rw [(p.reaches d).cursor, hconsumed]
      have hagree := hd.after
      rw [← (p.reaches c).cursor, ← hcursor] at hagree
      obtain ⟨houtcome', hconsumed', hfaults'⟩ := hf a ha _ hagree
      exact ⟨houtcome', by rw [hconsumed'], by rw [hfaults']⟩
  holds_current _ _ h := ⟨congrArg Except.ok h.here.1, rfl, rfl⟩
  holds_kind _ _ h := ⟨congrArg (fun t : Token => Except.ok t.kind) h.here.1, rfl, rfl⟩
  holds_consumed _ _ h := ⟨congrArg Except.ok h.here.2, rfl, rfl⟩
  holds_note _ _ _ _ _ := ⟨rfl, rfl, rfl⟩
  holds_advance {c} _ d h := by
    refine ⟨congrArg Except.ok h.here.1, ?_⟩
    show consumedIn d.advance.2 = consumedIn c.advance.2 ∧ faultsIn d.advance.2 = faultsIn c.advance.2
    by_cases hk : c.current.kind = .endOfInput
    · have hd : d.current.kind = .endOfInput := by rw [h.here.1, hk]
      rw [Cursor.advance_of_end hk, Cursor.advance_of_end hd]
      exact ⟨rfl, rfl⟩
    · have hone : (consumedIn (advance c).events).length = 1 := by
        show (consumedIn c.advance.2).length = 1
        rw [Cursor.consumedIn_advance hk, List.length_singleton]
      rw [hone] at h
      exact ⟨h.consumedIn_advance hk, h.2.1⟩
  holds_fail _ _ _ _ := ⟨rfl, rfl, rfl⟩
  holds_number {c} _ hk d h := by
    have hne : c.current.kind ≠ .endOfInput := hk ▸ nofun
    rw [run_integerConstant, Cursor.consumedIn_advance hne] at h
    rw [run_integerConstant, run_integerConstant, h.here.1]
    exact ⟨rfl, h.consumedIn_advance hne, h.2.1⟩
  holds_fix {ι α body} hguard h i c d hd := by
    -- one bound that is high enough for both runs
    have hc := hguard (List.replicate (c.left + d.left) default) i c (by simp)
    have hd' := hguard (List.replicate (c.left + d.left) default) i d (by simp)
    rw [← hc] at hd ⊢
    rw [← hd']
    exact h _ i c d hd

theorem lookahead_allows : lookahead.AllowsAll := fun _ => trivial

theorem lookahead_catches : lookahead.Catches := by
  intro α β p f g c hf hp hok herror
  refine lookahead.holds_bind (p := attempt p) (fun d hd => ?_) fun r hr => ?_
  · obtain ⟨houtcome, htold⟩ := hp d hd
    exact ⟨congrArg Except.ok houtcome, htold⟩
  · obtain rfl : (p c).outcome = r := Except.ok.inj hr
    cases ha : (p c).outcome with
    | ok a => exact hok a ha
    | error e =>
      rw [hf e]
      exact lookahead.holds_bind (p := report e) (fun _ _ => ⟨rfl, rfl, rfl⟩) fun _ _ => herror e ha

/-! ### Quiet parsers -/

/-- The parser reports no faults but those of the source. -/
def quiet : Trait where
  holds p c := faultsIn (p c).events ++ (p c).cursor.pending = c.pending
  takes _ := True
  holds_pure _ _ := rfl
  holds_bind {_ _ p f c} hp hf := by
    cases ha : (p c).outcome with
    | error e => rwa [run_bind_error f ha]
    | ok a => rw [run_bind_ok f ha, faultsIn_append, List.append_assoc, hf a ha, hp]
  holds_current _ := rfl
  holds_kind _ := rfl
  holds_consumed _ := rfl
  holds_note _ hf c := by simp [note, hf]
  holds_advance {c} _ := (Cursor.pending_advance c).symm
  holds_fail _ _ := rfl
  holds_number {c} _ _ := by
    rw [run_integerConstant]
    exact (Cursor.pending_advance c).symm
  holds_fix _ h i c := h (default :: c.rest) i c

theorem quiet_allows : quiet.AllowsAll := fun _ => trivial

/-! ### Two traits at once -/

/-- Both traits. -/
def and (T U : Trait) : Trait where
  holds p c := T.holds p c ∧ U.holds p c
  takes k := T.takes k ∧ U.takes k
  holds_pure a c := ⟨T.holds_pure a c, U.holds_pure a c⟩
  holds_bind hp hf :=
    ⟨T.holds_bind hp.1 fun a ha => (hf a ha).1, U.holds_bind hp.2 fun a ha => (hf a ha).2⟩
  holds_current c := ⟨T.holds_current c, U.holds_current c⟩
  holds_kind c := ⟨T.holds_kind c, U.holds_kind c⟩
  holds_consumed c := ⟨T.holds_consumed c, U.holds_consumed c⟩
  holds_note hc hf c := ⟨T.holds_note hc hf c, U.holds_note hc hf c⟩
  holds_advance h := ⟨T.holds_advance fun hk => (h hk).1, U.holds_advance fun hk => (h hk).2⟩
  holds_fail hs c := ⟨T.holds_fail hs c, U.holds_fail hs c⟩
  holds_number ht hk := ⟨T.holds_number ht.1 hk, U.holds_number ht.2 hk⟩
  holds_fix hguard h i c :=
    ⟨T.holds_fix hguard (fun items i c => (h items i c).1) i c,
      U.holds_fix hguard (fun items i c => (h items i c).2) i c⟩

end Trait
end BantamJava
