/-
# What a member reads

The body of a class is cut into segments, each up to its first `;` outside braces
or to the brace that closes its first one. The parser of members does not go beyond
the end of its segment. Before that it consumes tokens of names and expressions only,
reports nothing, and looks at one token more (`Trait.heading`); it ends with the `;`
or with a block, and does not look at what follows (`Finishes`). So a segment in its
class is parsed as it is alone.

Runs that succeed are followed step by step, with the tokens that each step consumes
and the faults that it reports (`Yields`).

Key definitions: `MemberEnd`, `MemberCut`, `Cursor.Facing`, `Yields`, `Finishes`,
`memberAlone`.
Key theorems: `Balanced.memberCut`, `Finishes.bind`, `block_finishes`,
`member_finishes`, `member_alone`.
-/
import BantamJava.Proofs.BlockRecovery
import BantamJava.Proofs.Trait.Lookahead

namespace BantamJava

open BantamJava.Parser

/-! ### Segments -/

/-- No `;` and no brace. -/
def Plain (v : List Token) : Prop := ∀ t ∈ v, t.kind ≠ .semicolon ∧ Unbraced t.kind

instance (v : List Token) : Decidable (Plain v) :=
  inferInstanceAs (Decidable (∀ t ∈ v, t.kind ≠ .semicolon ∧ Unbraced t.kind))

/-- The end of a member: a `;`, or a body in braces. -/
inductive MemberEnd : List Token → Prop where
  | semicolon {t : Token} (h : t.kind = .semicolon) : MemberEnd [t]
  | body {o close : Token} {w : List Token} (ho : o.kind = .openCurly) (hw : Balanced w)
    (hclose : close.kind = .closeCurly) : MemberEnd (o :: (w ++ [close]))

/-- The body of a class, cut from the left into segments and a rest. A segment
goes up to its first `;` outside braces, or to the brace that closes its first
one; the rest has neither. -/
inductive MemberCut : List Token → List (List Token) → List Token → Prop where
  | rest {r : List Token} (hr : Plain r) : MemberCut r [] r
  | segment {v z body r : List Token} {segments : List (List Token)} (hv : Plain v)
    (hz : MemberEnd z) (h : MemberCut body segments r) :
    MemberCut (v ++ z ++ body) ((v ++ z) :: segments) r

theorem Plain.nil : Plain [] := nofun

theorem Plain.cons {t : Token} {v : List Token} (ht : t.kind ≠ .semicolon ∧ Unbraced t.kind)
    (hv : Plain v) : Plain (t :: v) := by
  intro s hs
  rcases List.mem_cons.1 hs with rfl | hs
  · exact ht
  · exact hv s hs

/-- A token more in front of what is cut already. -/
theorem MemberCut.cons {t : Token} {body r : List Token} {segments : List (List Token)}
    (ht : t.kind ≠ .semicolon ∧ Unbraced t.kind) (h : MemberCut body segments r) :
    ∃ segments r, MemberCut (t :: body) segments r := by
  cases h with
  | rest hr => exact ⟨_, _, .rest (.cons ht hr)⟩
  | @segment v z body r segments hv hz h =>
    exact ⟨_, _, .segment (v := t :: v) (.cons ht hv) hz h⟩

/-- Every body with balanced braces can be cut. -/
theorem Balanced.memberCut {w : List Token} (h : Balanced w) :
    ∃ segments r, MemberCut w segments r := by
  induction h with
  | nil => exact ⟨[], [], .rest .nil⟩
  | @other t w ho hc _ ih =>
    obtain ⟨segments, r, hcut⟩ := ih
    by_cases ht : t.kind = .semicolon
    · exact ⟨[t] :: segments, r, .segment .nil (.semicolon ht) hcut⟩
    · exact hcut.cons ⟨ht, ho, hc⟩
  | @braces o c v w ho hv hc _ _ ih =>
    obtain ⟨segments, r, hcut⟩ := ih
    have h := MemberCut.segment .nil (.body ho hv hc) hcut
    exact ⟨_, _, by simpa using h⟩

theorem MemberEnd.balanced {z : List Token} (h : MemberEnd z) : Balanced z := by
  cases h with
  | semicolon ht => exact .other (ht ▸ nofun) (ht ▸ nofun) .nil
  | body ho hw hclose => exact .braces ho hw hclose .nil

/-- What can be cut has balanced braces. -/
theorem MemberCut.balanced {body r : List Token} {segments : List (List Token)}
    (h : MemberCut body segments r) : Balanced body := by
  have hplain : ∀ {v : List Token}, Plain v → Balanced v := fun hv =>
    .of_unbraced fun t ht => (hv t ht).2
  induction h with
  | rest hr => exact hplain hr
  | segment hv hz _ ih => exact ((hplain hv).append hz.balanced).append ih

/-! ### What lies ahead -/

/-- These tokens lie ahead, with no faults between them. -/
structure Cursor.Ahead (c : Cursor) (ts : List Token) : Prop where
  upcoming : c.upcoming = ts
  pending : c.pending = []

/-- In a class body: the tokens `v` of a member before its end, then its end `z`
and more, or else the closing brace of the class. -/
structure Cursor.Facing (c : Cursor) (v z k : List Token) : Prop where
  ahead : c.Ahead (v ++ (z ++ k))
  plain : Plain v
  classless : Classless (v ++ z)
  stop : MemberEnd z ∨ z = [] ∧ ∃ close rest, k = close :: rest ∧ close.kind = .closeCurly

/-- Cursors that have the tokens `w` ahead agree up to the last of these. -/
theorem Cursor.Ahead.agree {c d : Cursor} {w x y : List Token} {n : Nat}
    (hc : c.Ahead (w ++ x)) (hd : d.Ahead (w ++ y)) (hcd : d.consumed = c.consumed)
    (hn : n < w.length) : c.Agree n d := by
  cases w with
  | nil => exact absurd hn (Nat.not_lt_zero n)
  | cons t w =>
    have h := agree_of_upcoming (v := w) hc.upcoming hd.upcoming hcd hc.pending hd.pending
    exact h.mono (Nat.le_of_lt_succ hn)

theorem Cursor.Ahead.faultsIn_advance {c : Cursor} {ts : List Token} (h : c.Ahead ts) :
    faultsIn c.advance.2 = [] :=
  faultsIn_advance_of_quiet h.pending

theorem Cursor.Reaches.ahead {c d : Cursor} {es : List Event} {x : List Token}
    (h : c.Reaches es d) (hc : c.Ahead (consumedIn es ++ x)) : d.Ahead x :=
  ⟨(List.append_cancel_left (hc.upcoming.symm.trans h.tokens)).symm, h.pending_eq_nil hc.pending⟩

/-- The end of a member, or of the class, starts with a token that is not plain. -/
theorem Cursor.Facing.head {c : Cursor} {v z k : List Token} (h : c.Facing v z k) :
    ∃ s u, z ++ k = s :: u ∧ ¬(s.kind ≠ .semicolon ∧ Unbraced s.kind) := by
  rcases h.stop with hz | ⟨rfl, close, rest, rfl, hclose⟩
  · cases hz with
    | semicolon ht => exact ⟨_, _, rfl, fun hs => hs.1 ht⟩
    | body ho _ _ => exact ⟨_, _, rfl, fun hs => hs.2.1 ho⟩
  · exact ⟨close, rest, rfl, fun hs => hs.2.2 hclose⟩

/-- Plain tokens that are ahead come before the end of the member. -/
theorem Cursor.Facing.after_plain {c d : Cursor} {v z k : List Token} {es : List Event}
    (h : c.Facing v z k) (hr : c.Reaches es d) (hes : Plain (consumedIn es)) :
    ∃ v', v = consumedIn es ++ v' ∧ d.Facing v' z k := by
  obtain ⟨s, u, hs, hstop⟩ := h.head
  have heq : v ++ (z ++ k) = consumedIn es ++ d.upcoming := h.ahead.upcoming.symm.trans hr.tokens
  rcases List.append_eq_append_iff.1 heq with ⟨x, hx, hx'⟩ | ⟨x, hx, hx'⟩
  · cases x with
    | nil =>
      rw [List.append_nil] at hx
      refine ⟨[], by rw [hx, List.append_nil], ⟨hx'.symm, hr.pending_eq_nil h.ahead.pending⟩,
        .nil, fun t ht => h.classless t (List.mem_append_right _ ht), h.stop⟩
    | cons t x =>
      obtain ⟨rfl, -⟩ := List.cons.inj (hs.symm.trans hx')
      exact absurd (hes s (hx ▸ List.mem_append_right _ List.mem_cons_self)) hstop
  · refine ⟨x, hx, ⟨hx', hr.pending_eq_nil h.ahead.pending⟩, ?_, ?_, h.stop⟩
    · exact fun t ht => h.plain t (hx ▸ List.mem_append_right _ ht)
    · intro t ht
      refine h.classless t ?_
      rw [hx, List.append_assoc]
      exact List.mem_append_right _ ht

/-! ### Runs that yield a value -/

/-- From this cursor the parser succeeds with `a`, having consumed the tokens `w`
and reported the faults `fs`. -/
structure Yields {α : Type} (p : Parser α) (c : Cursor) (a : α) (w : List Token)
    (fs : List Fault) : Prop where
  outcome : (p c).outcome = .ok a
  consumed : consumedIn (p c).events = w
  faults : faultsIn (p c).events = fs

namespace Yields

variable {α β : Type} {p : Parser α} {f : α → Parser β} {c : Cursor} {a : α} {b : β}
  {w w' x : List Token} {fs fs' : List Fault}

theorem ahead (h : Yields p c a w fs) (hc : c.Ahead (w ++ x)) : (p c).cursor.Ahead x :=
  (p.reaches c).ahead (by rwa [h.consumed])

theorem of_pure (a : α) : Yields (pure a) c a [] [] := ⟨rfl, rfl, rfl⟩

theorem congr {q : Parser α} (h : Yields q c a w fs) (hpq : p c = q c) : Yields p c a w fs :=
  ⟨hpq ▸ h.outcome, hpq ▸ h.consumed, hpq ▸ h.faults⟩

theorem bind_at (h : Yields p c a w fs) (h' : Yields (f a) (p c).cursor b w' fs') :
    Yields (p >>= f) c b (w ++ w') (fs ++ fs') := by
  have hrun := run_bind_ok f h.outcome
  refine ⟨?_, ?_, ?_⟩
  · rw [hrun, h'.outcome]
  · rw [hrun, consumedIn_append, h.consumed, h'.consumed]
  · rw [hrun, faultsIn_append, h.faults, h'.faults]

theorem bind (h : Yields p c a w fs) (hc : c.Ahead (w ++ x))
    (hf : ∀ d : Cursor, d.Ahead x → Yields (f a) d b w' fs') :
    Yields (p >>= f) c b (w ++ w') (fs ++ fs') :=
  h.bind_at (hf _ (h.ahead hc))

/-- The same, where the faults are known up to `P` only. -/
theorem bind_exists {P : List Fault → Prop} (h : Yields p c a w []) (hc : c.Ahead (w ++ x))
    (hf : ∀ d : Cursor, d.Ahead x → ∃ fs, P fs ∧ Yields (f a) d b w' fs) :
    ∃ fs, P fs ∧ Yields (p >>= f) c b (w ++ w') fs := by
  obtain ⟨fs, hP, h'⟩ := hf _ (h.ahead hc)
  exact ⟨fs, hP, h.bind_at h'⟩

theorem map (h : Yields p c a w fs) (g : α → β) : Yields (p >>= fun a => pure (g a)) c (g a) w fs := by
  have hrun := run_bind_ok (fun a => pure (g a)) h.outcome
  rw [run_pure, List.append_nil] at hrun
  exact ⟨by rw [hrun], by rw [hrun, h.consumed], by rw [hrun, h.faults]⟩

end Yields

section Steps

variable {c : Cursor} {t : Token} {x : List Token}

theorem advance_yields (h : c.Ahead (t :: x)) : Yields advance c t [t] [] := by
  obtain ⟨rfl, hne⟩ := Cursor.current_of_upcoming h.upcoming
  exact ⟨rfl, Cursor.consumedIn_advance hne, h.faultsIn_advance⟩

theorem skip_yields (h : c.Ahead (t :: x)) : Yields skip c () [t] [] :=
  (advance_yields h).map fun _ => ()

theorem expectElse_yields {k : Kind} {cause : String → Cause} (ht : t.kind = k)
    (h : c.Ahead (t :: x)) : Yields (expectElse k cause) c t [t] [] := by
  have hcurrent := (Cursor.current_of_upcoming h.upcoming).1
  have hrun : expectElse k cause c = advance c := by
    rw [run_expectElse, if_pos (by rw [hcurrent, ht])]
  exact (advance_yields h).congr hrun

theorem identifier_yields (ht : t.kind = .identifier) (h : c.Ahead (t :: x)) :
    Yields identifier c t.value [t] [] :=
  (expectElse_yields ht h).map Token.value

theorem closeBody_yields (ht : t.kind = .closeCurly) (h : c.Ahead (t :: x)) :
    Yields closeBody c () [t] [] := by
  have hcurrent := (Cursor.current_of_upcoming h.upcoming).1
  refine (skip_yields h).congr ?_
  rw [run_closeBody (by rw [hcurrent, ht]), skip, run_bind_ok (p := advance) (a := c.current) _ rfl]
  simp [advance]

end Steps

/-! ### Up to the end of a member -/

namespace Trait

/-- What holds of the parsers of all that comes before the end of a member. -/
def heading : Trait :=
  (lookahead.and quiet).and (within fun k => k ≠ .semicolon ∧ Unbraced k)

theorem heading_takes {k : Kind} (h : k ≠ .semicolon ∧ Unbraced k) : heading.takes k :=
  ⟨⟨trivial, trivial⟩, h⟩

theorem heading_allows : heading.AllowsExprs := by
  intro k hk
  refine heading_takes ⟨?_, ?_, ?_⟩ <;>
  · rintro rfl
    cases hk

end Trait

/-- The parser stops where the member does. If it fails, it has consumed tokens
before the end of the member only, and reported nothing. If it succeeds, it has
consumed the member with its end, and would have done the same from any other
cursor that is in front of these tokens. -/
structure FinishesAt {α : Type} (p : Parser α) (c : Cursor) (v z : List Token) : Prop where
  failed : ∀ e, (p c).outcome = .error e → consumedIn (p c).events <+: v ∧
    faultsIn (p c).events = []
  done : ∀ a, (p c).outcome = .ok a → MemberEnd z ∧ ∃ fs, Yields p c a (v ++ z) fs ∧
    ∀ (d : Cursor) (y : List Token), d.Ahead (v ++ z ++ y) → d.consumed = c.consumed →
      Yields p d a (v ++ z) fs

/-- The parser stops where the member does, whatever member the cursor is in. -/
def Finishes {α : Type} (p : Parser α) (c : Cursor) : Prop :=
  ∀ v z k, c.Facing v z k → FinishesAt p c v z

theorem MemberEnd.length_pos {z : List Token} (h : MemberEnd z) : 0 < z.length := by
  cases h <;> simp

namespace Finishes

variable {α β : Type} {p : Parser α} {f : α → Parser β} {c : Cursor}

/-- In front of the end of the member. -/
theorem bind (hp : Trait.heading.holds p c)
    (hf : ∀ a, (p c).outcome = .ok a → Finishes (f a) (p c).cursor) : Finishes (p >>= f) c := by
  intro v z k h
  obtain ⟨⟨hlook, hquiet⟩, hwithin⟩ := hp
  have hnone : faultsIn (p c).events = [] := by
    have hq : faultsIn (p c).events ++ (p c).cursor.pending = c.pending := hquiet
    rw [h.ahead.pending] at hq
    exact (List.append_eq_nil_iff.1 hq).1
  obtain ⟨v', hv, h'⟩ := h.after_plain (p.reaches c) hwithin
  cases ha : (p c).outcome with
  | error e =>
    have hrun := run_bind_error f ha
    refine ⟨fun _ _ => ?_, fun b hb => ?_⟩
    · rw [hrun]
      exact ⟨⟨v', hv.symm⟩, hnone⟩
    · rw [hrun] at hb
      cases hb
  | ok a =>
    have hrun := run_bind_ok f ha
    have hfin := hf a ha v' z k h'
    refine ⟨fun e he => ?_, fun b hb => ?_⟩
    · rw [hrun] at he ⊢
      obtain ⟨hpre, hfaults⟩ := hfin.failed e he
      rw [consumedIn_append, faultsIn_append, hnone, hfaults, hv]
      exact ⟨(List.prefix_append_right_inj _).2 hpre, rfl⟩
    · rw [hrun] at hb
      obtain ⟨hz, fs, hfb, hsame⟩ := hfin.done b hb
      have hp : Yields p c a (consumedIn (p c).events) [] := ⟨ha, rfl, hnone⟩
      have hvz : v ++ z = consumedIn (p c).events ++ (v' ++ z) := by
        rw [← List.append_assoc, ← hv]
      refine ⟨hz, fs, hvz ▸ hp.bind_at hfb, fun d y hd hdc => ?_⟩
      -- the other cursor agrees up to the end of the member, and `p` looks no further
      have hagree : c.Agree (consumedIn (p c).events).length d := by
        refine Cursor.Ahead.agree (w := v ++ z) (x := k) ?_ hd hdc ?_
        · rw [List.append_assoc]
          exact h.ahead
        · have := hz.length_pos
          rw [hvz]
          simp only [List.length_append]
          omega
      obtain ⟨houtcome, hconsumed, hfaults⟩ := hlook d hagree
      have hpd : Yields p d a (consumedIn (p c).events) [] :=
        ⟨houtcome.trans ha, hconsumed, hfaults.trans hnone⟩
      have hd' : (p d).cursor.Ahead (v' ++ z ++ y) := by
        refine hpd.ahead ?_
        rw [← List.append_assoc, ← hvz]
        exact hd
      have hcount : (p d).cursor.consumed = (p c).cursor.consumed := by
        rw [(p.reaches d).consumed_eq, (p.reaches c).consumed_eq, hconsumed, hdc]
      exact hvz ▸ hpd.bind_at (hsame _ y hd' hcount)

/-- Behind the end of the member. -/
theorem map {p : Parser α} (hp : Finishes p c) (g : α → β) :
    Finishes (p >>= fun a => pure (g a)) c := by
  intro v z k h
  have hfin := hp v z k h
  cases ha : (p c).outcome with
  | error e =>
    have hrun := run_bind_error (fun a => pure (g a)) ha
    refine ⟨fun _ _ => ?_, fun b hb => ?_⟩
    · rw [hrun]
      exact hfin.failed e ha
    · rw [hrun] at hb
      cases hb
  | ok a =>
    have hrun := run_bind_ok (fun a => pure (g a)) ha
    refine ⟨fun e he => ?_, fun b hb => ?_⟩
    · rw [hrun] at he
      cases he
    · rw [hrun] at hb
      obtain rfl : g a = b := Except.ok.inj hb
      obtain ⟨hz, fs, hfb, hsame⟩ := hfin.done a ha
      exact ⟨hz, fs, hfb.map g, fun d y hd hdc => (hsame d y hd hdc).map g⟩

end Finishes

/-! ### The end of a member -/

/-- The current token belongs to the member, ends it, opens its body, or closes the
class. -/
theorem Cursor.Facing.cases {c : Cursor} {v z k : List Token} (h : c.Facing v z k) :
    (c.current.kind ≠ .semicolon ∧ Unbraced c.current.kind ∧ ∃ v', v = c.current :: v') ∨
    c.current.kind = .semicolon ∧ v = [] ∧ z = [c.current] ∨
    (c.current.kind = .openCurly ∧ v = [] ∧ ∃ w close, z = c.current :: (w ++ [close]) ∧
      Balanced w ∧ Classless w ∧ close.kind = .closeCurly) ∨
    c.current.kind = .closeCurly ∧ v = [] ∧ z = [] := by
  cases v with
  | cons t v =>
    obtain ⟨rfl, -⟩ := Cursor.current_of_upcoming h.ahead.upcoming
    obtain ⟨hsemi, hbrace⟩ := h.plain _ List.mem_cons_self
    exact .inl ⟨hsemi, hbrace, v, rfl⟩
  | nil =>
    rcases h.stop with hz | ⟨rfl, close, rest, rfl, hclose⟩
    · cases hz with
      | semicolon ht =>
        obtain ⟨rfl, -⟩ := Cursor.current_of_upcoming h.ahead.upcoming
        exact .inr (.inl ⟨ht, rfl, rfl⟩)
      | @body o close w ho hw hclose =>
        obtain ⟨rfl, -⟩ := Cursor.current_of_upcoming h.ahead.upcoming
        refine .inr (.inr (.inl ⟨ho, rfl, w, close, rfl, hw, fun t ht => h.classless t ?_, hclose⟩))
        exact List.mem_cons_of_mem _ (List.mem_append_left _ ht)
    · obtain ⟨rfl, -⟩ := Cursor.current_of_upcoming h.ahead.upcoming
      exact .inr (.inr (.inr ⟨hclose, rfl, rfl⟩))

theorem Cursor.Facing.of_semicolon {c : Cursor} {v z k : List Token} (h : c.Facing v z k)
    (hk : c.current.kind = .semicolon) : v = [] ∧ z = [c.current] := by
  rcases h.cases with ⟨hne, -⟩ | ⟨-, hv, hz⟩ | ⟨ho, -⟩ | ⟨hc, -⟩
  · exact absurd hk hne
  · exact ⟨hv, hz⟩
  · simp [hk] at ho
  · simp [hk] at hc

theorem Cursor.Facing.of_openCurly {c : Cursor} {v z k : List Token} (h : c.Facing v z k)
    (hk : c.current.kind = .openCurly) : v = [] ∧ ∃ w close, z = c.current :: (w ++ [close]) ∧
      Balanced w ∧ Classless w ∧ close.kind = .closeCurly := by
  rcases h.cases with ⟨-, hbrace, -⟩ | ⟨hs, -⟩ | ⟨-, hv, hz⟩ | ⟨hc, -⟩
  · exact absurd hk hbrace.1
  · simp [hk] at hs
  · exact ⟨hv, hz⟩
  · simp [hk] at hc

theorem expectElse_semicolon_finishes (cause : String → Cause) (c : Cursor) :
    Finishes (expectElse .semicolon cause) c := by
  intro v z k h
  by_cases hk : c.current.kind = .semicolon
  · obtain ⟨rfl, rfl⟩ := h.of_semicolon hk
    have hyields : ∀ (d : Cursor) (y : List Token), d.Ahead ([c.current] ++ y) →
        Yields (expectElse .semicolon cause) d c.current [c.current] [] := fun d y hd =>
      expectElse_yields hk hd
    have hok := (hyields c k h.ahead).outcome
    refine ⟨fun e he => ?_, fun a ha => ?_⟩
    · rw [hok] at he
      cases he
    · obtain rfl : c.current = a := Except.ok.inj (hok.symm.trans ha)
      exact ⟨.semicolon hk, [], hyields c k h.ahead, fun d y hd _ => hyields d y hd⟩
  · have hrun : expectElse .semicolon cause c = (failHere cause : Parser Token) c := by
      rw [run_expectElse, if_neg hk]
    refine ⟨fun e he => ?_, fun a ha => ?_⟩
    · rw [hrun]
      exact ⟨List.nil_prefix, rfl⟩
    · rw [hrun] at ha
      cases ha

theorem expect_semicolon_finishes (c : Cursor) : Finishes (expect .semicolon) c :=
  expectElse_semicolon_finishes _ c

/-- A block reports what the loop over its statements does. -/
theorem block_yields {c : Cursor} {o close : Token} {w k : List Token}
    (hc : c.Ahead (o :: (w ++ close :: k))) (ho : o.kind = .openCurly) (hw : Balanced w)
    (hclass : Classless w) (hclose : close.kind = .closeCurly) :
    let inside := stmtsWith (stmt .standard) c.advance.1
    ∃ stmts, inside.outcome = .ok stmts ∧ consumedIn inside.events = w ∧
      Yields (block .standard) c ⟨stmts, o.position⟩ (o :: (w ++ [close]))
        (faultsIn inside.events) := by
  intro inside
  obtain ⟨stmts, hok, hconsumed, hrest, hrun⟩ :=
    run_block_of_nests (stmts_nest _) ho hc.upcoming hw hclass hclose
  have hend : inside.cursor.pending = [] :=
    ((stmtsWith (stmt .standard)).reaches _).pending_eq_nil
      ((Cursor.reaches_advance c).pending_eq_nil hc.pending)
  refine ⟨stmts, hok, hconsumed, by rw [hrun],
    block_consumes_of_nests (stmts_nest _) ho hc.upcoming hw hclass hclose, ?_⟩
  rw [hrun, faultsIn_append, faultsIn_append, hc.faultsIn_advance,
    Cursor.Ahead.faultsIn_advance ⟨hrest, hend⟩, List.nil_append, List.append_nil]

theorem stmts_lookahead : Trait.lookahead.Has (stmtsWith (stmt .standard)) :=
  Trait.stmtsWith_has Trait.lookahead_allows Trait.lookahead_catches
    (Trait.stmt_has Trait.lookahead_allows Trait.lookahead_catches .standard)
    (stmt_consuming .standard)

theorem block_finishes (c : Cursor) : Finishes (block .standard) c := by
  intro v z k h
  by_cases hk : c.current.kind = .openCurly
  · obtain ⟨rfl, w, close, rfl, hw, hclass, hclose⟩ := h.of_openCurly hk
    have hc : c.Ahead (c.current :: (w ++ close :: k)) := by simpa using h.ahead
    obtain ⟨stmts, hstmts, hconsumed, hyields⟩ := block_yields hc hk hw hclass hclose
    refine ⟨fun e he => ?_, fun b hb => ?_⟩
    · rw [hyields.outcome] at he
      cases he
    · obtain rfl := Except.ok.inj (hyields.outcome.symm.trans hb)
      refine ⟨.body hk hw hclose, _, hyields, fun d y hd hdc => ?_⟩
      have hd' : d.Ahead (c.current :: (w ++ close :: y)) := by simpa using hd
      obtain ⟨stmts', hstmts', -, hyields'⟩ := block_yields hd' hk hw hclass hclose
      -- the loops over the statements agree up to the closing brace
      have hagree : c.Agree (1 + w.length) d := by
        refine Cursor.Ahead.agree (w := c.current :: (w ++ [close])) (x := k) h.ahead hd hdc ?_
        simp only [List.length_cons, List.length_append, List.length_nil]
        omega
      obtain ⟨houtcome, -, hfaults⟩ := stmts_lookahead c.advance.1 d.advance.1
        (by rw [hconsumed]; exact hagree.after)
      obtain rfl : stmts' = stmts := Except.ok.inj (hstmts'.symm.trans (houtcome.trans hstmts))
      rw [hfaults] at hyields'
      exact hyields'
  · have hexpect : expect .openCurly c = (failHere (.expected .openCurly) : Parser Token) c := by
      rw [expect, run_expectElse, if_neg hk]
    have hrun : block .standard c = _ :=
      run_bind_error (p := expect .openCurly) _ (by rw [hexpect]; rfl)
    refine ⟨fun e he => ?_, fun a ha => ?_⟩
    · rw [hrun, hexpect]
      exact ⟨List.nil_prefix, rfl⟩
    · rw [hrun] at ha
      cases ha

/-! ### Members -/

theorem methodRest_finishes (p : Position) (type name : String) {c : Cursor}
    (hk : c.current.kind = .openParen) : Finishes (methodRest .standard p type name) c := by
  have hT := Trait.heading_allows
  refine .bind (Trait.heading.holds_note rfl rfl c) fun _ _ => ?_
  refine .bind (Trait.hasAt_skip (hT .openParen rfl) c hk) fun _ _ => ?_
  refine .bind (Trait.parameters_has hT _) fun params _ => ?_
  refine .bind (Trait.has_expect (hT _ rfl) _) fun _ _ => ?_
  exact (block_finishes _).map _

theorem fieldRest_finishes (p : Position) (type name : String) (c : Cursor) :
    Finishes (fieldRest p type name) c := by
  have hT := Trait.heading_allows
  refine .bind (Trait.heading.holds_kind c) fun k hk => ?_
  obtain rfl : c.current.kind = k := Except.ok.inj hk
  split
  · next hk =>
    refine .bind (Trait.hasAt_skip (hT .assignment rfl) c hk) fun _ _ => ?_
    exact .bind (Trait.expr_has hT _) fun _ _ => (expect_semicolon_finishes _).map _
  · exact (expect_semicolon_finishes c).map _

/-- **A member stops where its segment does**, whether it fails or not. -/
theorem member_finishes (c : Cursor) : Finishes (member .standard) c := by
  have hT := Trait.heading_allows
  refine .bind (Trait.heading.holds_current c) fun t _ => ?_
  refine .bind (Trait.typeName_has hT _) fun type _ => ?_
  refine .bind (Trait.identifier_has hT _) fun name _ => ?_
  refine .bind (Trait.heading.holds_kind _) fun k hk => ?_
  generalize (identifier _).cursor = d at hk ⊢
  obtain rfl : d.current.kind = k := Except.ok.inj hk
  split
  · next hk => exact (methodRest_finishes _ _ _ hk).map _
  · exact (fieldRest_finishes _ _ _ d).map _

/-! ### Members alone -/

/-- What the parser of members replies to these tokens alone. -/
def memberAlone (finish : EndToken) (segment : List Token) : Reply Member :=
  member .standard (Cursor.ofSource ⟨segment.map .token, finish⟩).1

theorem Cursor.ahead_ofSource {ts : List Token} (h : ∀ t ∈ ts, t.kind ≠ .endOfInput)
    (finish : EndToken) : (Cursor.ofSource ⟨ts.map .token, finish⟩).1.Ahead ts := by
  refine ⟨(Cursor.upcoming_ofSource _).trans (tokensAhead_tokens h), ?_⟩
  have hpull := faultsAhead_pull finish (ts.map .token)
  rw [faultsAhead_tokens] at hpull
  exact (List.append_eq_nil_iff.1 hpull.symm).2

/-- A member does not depend on how many tokens have been consumed before it. -/
theorem member_countedFrom (table : StmtTable) (c : Cursor) (n : Nat) :
    (member table (c.countedFrom n)).outcome = (member table c).outcome ∧
      (member table (c.countedFrom n)).events = (member table c).events := by
  have hstep : (World.shifted n).Lockstep (c.left + 1) (member table) (member table) :=
    World.member_lockstep (.inl (World.shifted_faithful n))
  obtain ⟨-, hevents, houtcome⟩ :=
    (hstep c (c.countedFrom n) rfl (Nat.lt_succ_self _) trivial).eq_of_shifted
  exact ⟨houtcome, hevents⟩

/-- **A member in its class is parsed as it is alone.** -/
theorem member_alone {c : Cursor} {v z k : List Token} (h : c.Facing v z k) (hz : MemberEnd z)
    (finish : EndToken) :
    (memberAlone finish (v ++ z)).outcome = (member .standard c).outcome ∧
      faultsIn (memberAlone finish (v ++ z)).events = faultsIn (member .standard c).events := by
  have hc : c.Ahead (v ++ z ++ k) := by
    rw [List.append_assoc]
    exact h.ahead
  have hends : ∀ t ∈ v ++ z, t.kind ≠ .endOfInput := by
    intro t ht
    have hmem : t ∈ c.upcoming := hc.upcoming ▸ List.mem_append_left _ ht
    exact Cursor.ne_endOfInput_of_mem hmem
  have halone := Cursor.ahead_ofSource hends finish
  -- the segment alone, with as many tokens counted as have been consumed before it
  generalize he : (Cursor.ofSource ⟨(v ++ z).map .token, finish⟩).1 = e at halone
  obtain ⟨houtcome, hevents⟩ := member_countedFrom .standard e c.consumed
  have hd : (e.countedFrom c.consumed).Ahead (v ++ z ++ []) := by
    rw [List.append_nil]
    exact ⟨halone.upcoming, halone.pending⟩
  have hdc : (e.countedFrom c.consumed).consumed = c.consumed := by
    rw [← he]
    exact Nat.zero_add _
  rw [memberAlone, he, ← houtcome, ← hevents]
  generalize e.countedFrom c.consumed = d at hd hdc
  have hfin := member_finishes c v z k h
  cases ho : (member .standard c).outcome with
  | ok a =>
    obtain ⟨-, fs, hyields, hsame⟩ := hfin.done a ho
    have hyields' := hsame d [] hd hdc
    exact ⟨hyields'.outcome, hyields'.faults.trans hyields.faults.symm⟩
  | error e =>
    have hlook := Trait.member_has Trait.lookahead_allows Trait.lookahead_catches .standard c
    have hlength := (hfin.failed e ho).1.length_le
    have hpos := hz.length_pos
    obtain ⟨houtcome, -, hfaults⟩ := hlook d (hc.agree hd hdc (by rw [List.length_append]; omega))
    exact ⟨houtcome.trans ho, hfaults⟩

end BantamJava
