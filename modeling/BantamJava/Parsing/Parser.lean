/-
# Parsers

A parser takes a cursor and replies with a value or a fault, the cursor after
it, and the events on the way. It looks at the current token only. A fault
travels up until a parser catches it (`attempt`); the cursor and the events are
kept, since recovery goes on from where the failure was found.

Recursion goes through `fix`: the parser that it hands to its argument may be
nested as deep as there are items to come. Every nested use in the grammar
stands behind a consumed token, so the bound is never reached.

Key definitions: `Parser`, `Reply`, `Parser.advance`, `Parser.expect`,
`Parser.attempt`, `Parser.fix`, `Parser.recursive`, `Parser.collect`,
`Parser.recovering`.
-/
import BantamJava.Parsing.Cursor

namespace BantamJava

/-- What a parser replies. -/
structure Reply (α : Type) where
  outcome : Except Fault α
  cursor : Cursor
  events : List Event

/-- Events and then more events. Nothing is copied where there are no more. -/
def joined (es : List Event) : List Event → List Event
  | [] => es
  | fs => es ++ fs

@[simp] theorem joined_eq_append (es fs : List Event) : joined es fs = es ++ fs := by
  cases fs <;> simp [joined]

/-- A parser of `α`. It moves its cursor by advancing only, and notes each
token that it consumes. -/
structure Parser (α : Type) where
  run : Cursor → Reply α
  reaches : ∀ c : Cursor, c.Reaches (run c).events (run c).cursor

namespace Parser

variable {α β ι : Type}

instance : CoeFun (Parser α) fun _ => Cursor → Reply α := ⟨run⟩

/-- Succeeds without consuming anything. -/
protected def pure (a : α) : Parser α where
  run c := ⟨.ok a, c, []⟩
  reaches c := .refl c rfl

/-- One parser after another. -/
protected def bind (p : Parser α) (f : α → Parser β) : Parser β where
  run c :=
    match p c with
    | ⟨.ok a, c', es⟩ =>
      let reply := f a c'
      ⟨reply.outcome, reply.cursor, joined es reply.events⟩
    | ⟨.error e, c', es⟩ => ⟨.error e, c', es⟩
  reaches c := by
    have h := p.reaches c
    split
    · next a c' es he =>
      rw [he] at h
      simpa using h.trans ((f a).reaches c')
    · next he => rwa [he] at h

instance : Monad Parser where
  pure := Parser.pure
  bind := Parser.bind

/-- Fails with the given fault. -/
def fail (f : Fault) : Parser α where
  run c := ⟨.error f, c, []⟩
  reaches c := .refl c rfl

/-- Turns failure into a value. -/
def attempt (p : Parser α) : Parser (Except Fault α) where
  run c :=
    let reply := p c
    ⟨.ok reply.outcome, reply.cursor, reply.events⟩
  reaches c := p.reaches c

/-- Notes an event that consumes nothing. -/
def note (e : Event) (quiet : e.consumed? = none := by rfl) : Parser Unit where
  run c := ⟨.ok (), c, [e]⟩
  reaches c := .refl c (by simp [quiet])

/-- Makes a fault a diagnostic. -/
def report (f : Fault) : Parser Unit := note (.reported f)

/-- The current token. -/
def current : Parser Token where
  run c := ⟨.ok c.current, c, []⟩
  reaches c := .refl c rfl

/-- The kind of the current token. -/
def kind : Parser Kind where
  run c := ⟨.ok c.current.kind, c, []⟩
  reaches c := .refl c rfl

/-- The number of tokens consumed so far. -/
def consumed : Parser Nat where
  run c := ⟨.ok c.consumed, c, []⟩
  reaches c := .refl c rfl

/-- Consumes the current token and gives it. At the end of the input it gives
the end token and consumes nothing. -/
def advance : Parser Token where
  run c :=
    let moved := c.advance
    ⟨.ok c.current, moved.1, moved.2⟩
  reaches c := c.reaches_advance

/-! ### Runs of parsers in sequence -/

theorem run_bind_ok {p : Parser α} {c : Cursor} {a : α} (f : α → Parser β)
    (h : (p c).outcome = .ok a) :
    (p >>= f) c = ⟨(f a (p c).cursor).outcome, (f a (p c).cursor).cursor,
      (p c).events ++ (f a (p c).cursor).events⟩ := by
  show (Parser.bind p f) c = _
  simp only [Parser.bind]
  split
  · next he =>
    simp only [he, Except.ok.injEq] at h ⊢
    subst h
    simp
  · next he => simp [he] at h

theorem run_bind_error {p : Parser α} {c : Cursor} {e : Fault} (f : α → Parser β)
    (h : (p c).outcome = .error e) : (p >>= f) c = ⟨.error e, (p c).cursor, (p c).events⟩ := by
  show (Parser.bind p f) c = _
  simp only [Parser.bind]
  split
  · next he => simp [he] at h
  · next he =>
    simp only [he, Except.error.injEq] at h ⊢
    subst h
    rfl

theorem ext {p q : Parser α} (h : ∀ c : Cursor, p c = q c) : p = q := by
  obtain ⟨f, hf⟩ := p
  obtain ⟨g, hg⟩ := q
  obtain rfl : f = g := funext h
  rfl

theorem run_bind_assoc {γ : Type} (p : Parser α) (f : α → Parser β) (g : β → Parser γ)
    (c : Cursor) : ((p >>= f) >>= g) c = (p >>= fun a => f a >>= g) c := by
  cases ha : (p c).outcome with
  | error e =>
    have hpf : ((p >>= f) c).outcome = .error e := by rw [run_bind_error f ha]
    rw [run_bind_error g hpf, run_bind_error f ha, run_bind_error _ ha]
  | ok a =>
    cases hb : (f a (p c).cursor).outcome with
    | error e =>
      have hpf : ((p >>= f) c).outcome = .error e := by rw [run_bind_ok f ha, hb]
      rw [run_bind_error g hpf, run_bind_ok f ha, run_bind_ok _ ha, run_bind_error g hb]
    | ok b =>
      have hpf : ((p >>= f) c).outcome = .ok b := by rw [run_bind_ok f ha, hb]
      rw [run_bind_ok g hpf, run_bind_ok f ha, run_bind_ok _ ha, run_bind_ok g hb,
        List.append_assoc]

theorem run_bind_pure (p : Parser α) (c : Cursor) : (p >>= pure) c = p c := by
  cases ha : (p c).outcome with
  | ok a =>
    rw [run_bind_ok _ ha]
    show (⟨.ok a, (p c).cursor, (p c).events ++ []⟩ : Reply α) = p c
    rw [List.append_nil, ← ha]
  | error e => rw [run_bind_error _ ha, ← ha]

instance : LawfulMonad Parser :=
  LawfulMonad.mk' Parser
    (fun p => ext (run_bind_pure p))
    (fun a f => ext fun c => by rw [run_bind_ok f rfl]; rfl)
    (fun p f g => ext (run_bind_assoc p f g))

@[simp] theorem run_pure (a : α) (c : Cursor) : (pure a : Parser α) c = ⟨.ok a, c, []⟩ := rfl

@[simp] theorem run_fail (e : Fault) (c : Cursor) : (fail e : Parser α) c = ⟨.error e, c, []⟩ := rfl

@[simp] theorem run_current_bind (f : Token → Parser β) (c : Cursor) :
    (current >>= f) c = f c.current c := by
  rw [run_bind_ok f rfl]
  rfl

@[simp] theorem run_kind_bind (f : Kind → Parser β) (c : Cursor) :
    (kind >>= f) c = f c.current.kind c := by
  rw [run_bind_ok f rfl]
  rfl

@[simp] theorem run_consumed_bind (f : Nat → Parser β) (c : Cursor) :
    (consumed >>= f) c = f c.consumed c := by
  rw [run_bind_ok f rfl]
  rfl

/-- Consumes the current token. -/
def skip : Parser Unit := do
  let _ ← advance

theorem run_skip (c : Cursor) : skip c = ⟨.ok (), c.advance.1, c.advance.2⟩ := by
  rw [skip, run_bind_ok (p := advance) (a := c.current) _ rfl, run_pure, List.append_nil]
  rfl

/-- Fails at the current token, whose value the cause may name. -/
def failHere (cause : String → Cause) : Parser α := do
  let t ← current
  fail ⟨cause t.value, t.position⟩

/-- Consumes a token of the given kind, or else fails with the given fault. -/
def expectOr (k : Kind) (f : Fault) : Parser Token := do
  if (← kind) = k then advance else fail f

/-- Consumes a token of the given kind, or else fails at the current token. -/
def expectElse (k : Kind) (cause : String → Cause) : Parser Token := do
  let t ← current
  expectOr k ⟨cause t.value, t.position⟩

theorem run_expectElse (k : Kind) (cause : String → Cause) (c : Cursor) :
    expectElse k cause c =
      if c.current.kind = k then advance c else (failHere cause : Parser Token) c := by
  simp only [expectElse, expectOr, failHere, run_current_bind, run_kind_bind, run_fail]
  split <;> rfl

/-- Consumes a token of the given kind, or else fails naming that kind. -/
def expect (k : Kind) : Parser Token :=
  expectElse k (.expected k)

/-- Where nesting ends: fails at the current token. -/
def stuck : Parser α :=
  failHere .unexpected

/-- A recursive parser that may nest once for each of the given items. -/
def fixOver (body : (ι → Parser α) → ι → Parser α) : List Item → ι → Parser α
  | [] => body fun _ => stuck
  | _ :: items => body (fixOver body items)

/-- A recursive parser: `body` may use the parser it is given in place of the
whole, once it has consumed a token. -/
def fix (body : (ι → Parser α) → ι → Parser α) (i : ι) : Parser α where
  run c := body (fixOver body c.rest) i c
  reaches c := (body (fixOver body c.rest) i).reaches c

/-- A recursive parser without an argument. -/
def recursive (body : Parser α → Parser α) : Parser α :=
  fix (fun self (_ : Unit) => body (self ())) ()

/-- A turn of `collect`, with the turns after it. -/
def collectRound (stop : Kind → Bool) (p : Parser (Option α)) (again : Parser (List α)) :
    Parser (List α) := do
  if stop (← kind) then pure []
  else
    let found ← p
    let others ← again
    pure (found.toList ++ others)

/-- Repeats `p` until the current token's kind satisfies `stop`, and gives the
values found. -/
def collect (stop : Kind → Bool) (p : Parser (Option α)) : Parser (List α) :=
  recursive (collectRound stop p)

/-- One, and if a comma follows it then the others after that. -/
def commaRound (p : Parser α) (again : Parser (List α)) : Parser (List α) := do
  let first ← p
  if (← kind) = .comma then
    skip
    let others ← again
    pure (first :: others)
  else pure [first]

/-- One or more, with commas between them. -/
def commaSeparated (p : Parser α) : Parser (List α) := recursive (commaRound p)

/-- Runs `p`. If it fails, reports the fault and recovers, which is told how
many tokens had been consumed before `p`. -/
def recovering (p : Parser α) (recover : Nat → Parser Unit) : Parser (Option α) := do
  let start ← consumed
  match ← attempt p with
  | .ok a => pure (some a)
  | .error f => do
    report f
    recover start
    pure none

theorem run_recovering_ok {p : Parser α} {recover : Nat → Parser Unit} {c : Cursor} {a : α}
    (h : (p c).outcome = .ok a) :
    recovering p recover c = ⟨.ok (some a), (p c).cursor, (p c).events⟩ := by
  rw [recovering, run_consumed_bind, run_bind_ok (p := attempt p) _ rfl]
  simp only [attempt, h, run_pure, List.append_nil]

theorem run_recovering_error {p : Parser α} {recover : Nat → Parser Unit} {c : Cursor} {f : Fault}
    (h : (p c).outcome = .error f) :
    let after : Reply (Option α) := (recover c.consumed >>= fun _ => pure none) (p c).cursor
    recovering p recover c =
      ⟨after.outcome, after.cursor, (p c).events ++ .reported f :: after.events⟩ := by
  rw [recovering, run_consumed_bind, run_bind_ok (p := attempt p) _ rfl]
  simp only [attempt, h]
  rw [run_bind_ok (p := report f) (a := ()) _ rfl]
  rfl

end Parser
end BantamJava
