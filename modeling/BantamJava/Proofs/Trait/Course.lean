/-
# The course of a run

A run of a parser is made of four kinds of steps: an event that is noted, a token
that is consumed, a fault reported at the current token, and the fault of a number
that is out of range, reported right behind that number. A run that fails is about
to take one of the last two: its fault blames the current token, or the number just
consumed. All parsers of the grammar run so, recovery included.

Key definitions: `Course`, `Blames`, `Trait.course`.
Key theorems: `Course.trans`, `Blames.report`, `Trait.course_catches`.
-/
import BantamJava.Proofs.Trait.Grammar

namespace BantamJava

/-- The token is a number that is out of range. -/
def Token.OutOfRange (t : Token) : Prop := t.kind = .number ∧ readInteger? t.value = none

/-- The fault of a number that is out of range. -/
def Token.numberFault (t : Token) : Fault := ⟨.badNumber t.value, t.position⟩

/-- A journal leads from one cursor to another, step by step. -/
inductive Course (c : Cursor) : List Event → Cursor → Prop where
  | start : Course c [] c
  | note {es : List Event} {d : Cursor} {e : Event} (h : Course c es d)
    (hc : e.consumed? = none) (hf : e.fault? = none) : Course c (es ++ [e]) d
  | advance {es : List Event} {d : Cursor} (h : Course c es d)
    (hk : d.current.kind ≠ .endOfInput) : Course c (es ++ d.advance.2) d.advance.1
  | report {es : List Event} {d : Cursor} {cause : String → Cause} (h : Course c es d)
    (hs : Spelling cause) :
    Course c (es ++ [.reported ⟨cause d.current.value, d.current.position⟩]) d
  | number {es : List Event} {d : Cursor} (h : Course c es d) (hn : d.current.OutOfRange) :
    Course c (es ++ (d.advance.2 ++ [.reported d.current.numberFault])) d.advance.1

/-- A run that has failed with the fault `e` blames the current token, or the number
that it has just consumed. -/
inductive Blames (c : Cursor) : List Event → Cursor → Fault → Prop where
  | current {es : List Event} {d : Cursor} {cause : String → Cause} (h : Course c es d)
    (hs : Spelling cause) : Blames c es d ⟨cause d.current.value, d.current.position⟩
  | number {es : List Event} {d : Cursor} (h : Course c es d) (hn : d.current.OutOfRange) :
    Blames c (es ++ d.advance.2) d.advance.1 d.current.numberFault

variable {c d d' : Cursor} {es fs : List Event} {e : Fault}

theorem Course.trans (h : Course c es d) (h' : Course d fs d') : Course c (es ++ fs) d' := by
  induction h' with
  | start => rwa [List.append_nil]
  | note _ hc hf ih =>
    rw [← List.append_assoc]
    exact .note ih hc hf
  | advance _ hk ih =>
    rw [← List.append_assoc]
    exact .advance ih hk
  | report _ hs ih =>
    rw [← List.append_assoc]
    exact .report ih hs
  | number _ hn ih =>
    rw [← List.append_assoc]
    exact .number ih hn

theorem Blames.after (h : Course c es d) (h' : Blames d fs d' e) : Blames c (es ++ fs) d' e := by
  cases h' with
  | current hrun hs => exact .current (h.trans hrun) hs
  | number hrun hn =>
    rw [← List.append_assoc]
    exact .number (h.trans hrun) hn

/-- Reporting the fault of a failed run goes on with its course. -/
theorem Blames.report (h : Blames c es d e) : Course c (es ++ [.reported e]) d := by
  cases h with
  | current hrun hs => exact .report hrun hs
  | number hrun hn =>
    rw [List.append_assoc]
    exact .number hrun hn

open BantamJava.Parser

namespace Trait

/-- The run takes such a course, and if it fails, its fault blames the right
token. -/
def course : Trait where
  holds p c := Course c (p c).events (p c).cursor ∧
    ∀ e, (p c).outcome = .error e → Blames c (p c).events (p c).cursor e
  takes _ := True
  holds_pure _ _ := ⟨.start, nofun⟩
  holds_bind {_ _ p f c} hp hf := by
    cases ha : (p c).outcome with
    | error e =>
      rw [run_bind_error f ha]
      exact ⟨hp.1, fun _ he => Except.error.inj he ▸ hp.2 e ha⟩
    | ok a =>
      rw [run_bind_ok f ha]
      obtain ⟨hcourse, hblames⟩ := hf a ha
      exact ⟨hp.1.trans hcourse, fun e he => .after hp.1 (hblames e he)⟩
  holds_current _ := ⟨.start, nofun⟩
  holds_kind _ := ⟨.start, nofun⟩
  holds_consumed _ := ⟨.start, nofun⟩
  holds_note hc hf _ := ⟨.note .start hc hf, nofun⟩
  holds_advance {c} _ := by
    refine ⟨?_, nofun⟩
    by_cases hk : c.current.kind = .endOfInput
    · simp only [advance, Cursor.advance_of_end hk]
      exact .start
    · exact .advance .start hk
  holds_fail hs _ := ⟨.start, fun _ he => Except.error.inj he ▸ .current .start hs⟩
  holds_number {c} _ hk := by
    have hne : c.current.kind ≠ .endOfInput := hk ▸ nofun
    rw [run_integerConstant]
    refine ⟨.advance .start hne, fun e he => ?_⟩
    cases hn : readInteger? c.current.value with
    | some n => simp [hn] at he
    | none =>
      have hblames : Blames c ([] ++ c.advance.2) c.advance.1 c.current.numberFault :=
        .number .start ⟨hk, hn⟩
      simp only [hn, Except.error.injEq] at he
      exact he ▸ hblames
  holds_fix _ h i c := h (default :: c.rest) i c

theorem course_allows : course.AllowsAll := fun _ => trivial

theorem course_catches : course.Catches := by
  intro α β p f g c hf hp hok herror
  have hrun := run_bind_ok (p := attempt p) (c := c) f rfl
  show Course _ _ _ ∧ ∀ e, _ → _
  rw [hrun]
  simp only [attempt]
  cases ha : (p c).outcome with
  | ok a =>
    obtain ⟨hcourse, hblames⟩ := hok a ha
    exact ⟨hp.1.trans hcourse, fun e he => .after hp.1 (hblames e he)⟩
  | error e =>
    obtain ⟨hcourse, hblames⟩ := herror e ha
    have hreport : Course c ((p c).events ++ [.reported e]) (p c).cursor := (hp.2 e ha).report
    have hrun' := run_bind_ok (p := report e) (c := (p c).cursor) (a := ()) (fun _ => g e) rfl
    rw [hf e, hrun', ← List.append_assoc]
    exact ⟨hreport.trans hcourse, fun e' he => .after hreport (hblames e' he)⟩

end Trait
end BantamJava
