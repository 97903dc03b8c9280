/-
# What parsers ensure

A parser ensures `Q`, from cursors that satisfy `P`, if whatever value it gives satisfies
`Q` together with the cursor behind it. Nothing is said of a run that fails, and nothing
of what is reported, so recovery counts for little: it only decides where the next part
of a loop starts. The rules follow the combinators of which the grammar is made.

Key definitions: `Ensures`, `Gives`.
Key theorems: `Ensures.bind`, `ensures_kind`, `gives_recovering`, `gives_collect`,
`ensures_recursive`.
-/
import BantamJava.Parsing.Session

namespace BantamJava

open BantamJava.Parser

variable {α β : Type} {P : Cursor → Prop} {Q : α → Cursor → Prop} {R : β → Cursor → Prop}
  {p : Parser α} {f : α → Parser β}

/-- From cursors that satisfy `P`, a value that the parser gives satisfies `Q`, with the
cursor behind it. -/
def Ensures (P : Cursor → Prop) (Q : α → Cursor → Prop) (p : Parser α) : Prop :=
  ∀ c, P c → ∀ a, (p c).outcome = .ok a → Q a (p c).cursor

/-- Every value that the parser gives satisfies `B`. -/
def Gives (B : α → Prop) (p : Parser α) : Prop := Ensures (fun _ => True) (fun a _ => B a) p

theorem Ensures.mono {P' : Cursor → Prop} {Q' : α → Cursor → Prop} (h : Ensures P Q p)
    (hP : ∀ c, P' c → P c) (hQ : ∀ a c, Q a c → Q' a c) : Ensures P' Q' p :=
  fun c hc a ha => hQ a _ (h c (hP c hc) a ha)

theorem ensures_true (p : Parser α) : Ensures P (fun _ _ => True) p := fun _ _ _ _ => trivial

/-- **Sequence.** -/
theorem Ensures.bind (hp : Ensures P Q p) (hf : ∀ a, Ensures (Q a) R (f a)) :
    Ensures P R (p >>= f) := by
  intro c hc b hb
  cases ha : (p c).outcome with
  | error e =>
    rw [run_bind_error f ha] at hb
    cases hb
  | ok a =>
    rw [run_bind_ok f ha] at hb ⊢
    exact hf a _ (hp c hc a ha) b hb

/-- Sequence, where what follows counts on nothing. -/
theorem Gives.after {B : β → Prop} (p : Parser α) (hf : ∀ a, Gives B (f a)) :
    Gives B (p >>= f) :=
  (ensures_true p).bind hf

theorem Gives.bind {A : α → Prop} {B : β → Prop} (hp : Gives A p)
    (hf : ∀ a, A a → Gives B (f a)) : Gives B (p >>= f) :=
  Ensures.bind hp fun a c hA => hf a hA c trivial

theorem ensures_pure (a : α) : Ensures (Q a) Q (pure a) := by
  intro c hc b hb
  cases hb
  exact hc

theorem gives_pure {B : α → Prop} {a : α} (h : B a) : Gives B (pure a : Parser α) :=
  (ensures_pure a).mono (fun _ _ => h) fun _ _ hB => hB

/-- What follows may count on the kind of the current token. -/
theorem ensures_kind {g : Kind → Parser α}
    (h : ∀ k, Ensures (fun c => P c ∧ c.current.kind = k) Q (g k)) :
    Ensures P Q (kind >>= g) := by
  intro c hc a ha
  rw [run_kind_bind] at ha ⊢
  exact h _ c ⟨hc, rfl⟩ a ha

theorem gives_kind {B : α → Prop} {g : Kind → Parser α} (h : ∀ k, Gives B (g k)) :
    Gives B (kind >>= g) :=
  .after kind h

/-- **Recursion.** Where it is cut short it fails, and gives no value. -/
theorem ensures_recursive {body : Parser α → Parser α}
    (h : ∀ self, Ensures P Q self → Ensures P Q (body self)) : Ensures P Q (recursive body) := by
  have hstuck : Ensures P Q (stuck : Parser α) := by
    intro c _ a ha
    rw [stuck, failHere, run_current_bind] at ha
    cases ha
  have hover : ∀ items, Ensures P Q (fixOver (fun self (_ : Unit) => body (self ())) items ()) := by
    intro items
    induction items with
    | nil => exact h _ hstuck
    | cons item items ih => exact h _ ih
  intro c
  exact h _ (hover c.rest) c

/-- **Recovery.** Behind a fault that was caught nothing is found. -/
theorem gives_recovering {B : α → Prop} (hp : Gives B p) (recover : Nat → Parser Unit) :
    Gives (fun found : Option α => ∀ a ∈ found, B a) (recovering p recover) := by
  intro c _ found hfound a ha
  cases hb : (p c).outcome with
  | ok b =>
    rw [run_recovering_ok hb] at hfound
    cases hfound
    cases ha
    exact hp c trivial _ hb
  | error e =>
    have hnone : Gives (· = none)
        (recover c.consumed >>= fun _ => (pure none : Parser (Option α))) :=
      .after _ fun _ => gives_pure rfl
    rw [run_recovering_error hb] at hfound
    rw [hnone _ trivial found hfound] at ha
    cases ha

/-- **Loops.** -/
theorem gives_collect {B : α → Prop} (stop : Kind → Bool) {turn : Parser (Option α)}
    (h : Gives (fun found : Option α => ∀ a ∈ found, B a) turn) :
    Gives (fun as => ∀ a ∈ as, B a) (collect stop turn) := by
  refine ensures_recursive fun again hagain => gives_kind fun k => ?_
  split
  · exact gives_pure nofun
  · refine h.bind fun found hfound => Gives.bind hagain fun others hothers => gives_pure ?_
    intro a ha
    rcases List.mem_append.1 ha with ha | ha
    · exact hfound a (Option.mem_toList.1 ha)
    · exact hothers a ha

end BantamJava
