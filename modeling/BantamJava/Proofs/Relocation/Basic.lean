/-
# Moving everything to other positions

Positions are copied into trees, faults and events, and nothing is ever decided by
them. So a source whose tokens have been moved to other positions is parsed to the
same tree, moved in the same way. `relocate f` moves a value: it applies `f` to every
position in it. `Moves f p q` says that `q` does from a moved cursor what `p` does
from the cursor itself, with everything moved; where `p` goes on with a value, `q`
goes on with the moved one.

A recursion may nest as deep as there are items to come, and moving the items leaves
their number as it is. So recursion keeps `Moves` without any regard to the tokens
that are consumed on the way.

Key definitions: `Placed`, `Placed.relocate`, `Parser.Moves`.
Key theorems: `Cursor.advance_relocate`, `Parser.Moves.bind`, `Parser.moves_fix`,
`Parser.moves_collect`, `Parser.moves_recovering`.
-/
import BantamJava.Parsing.Session

namespace BantamJava

/-- Values that may hold positions. -/
class Placed (α : Type) where
  /-- The value with `f` applied to its positions. -/
  relocate : (Position → Position) → α → α

open Placed (relocate)

variable {f : Position → Position}

/-! ### Values of all kinds -/

instance : Placed Unit := ⟨fun _ a => a⟩
instance : Placed Nat := ⟨fun _ a => a⟩
instance : Placed Bool := ⟨fun _ a => a⟩
instance : Placed String := ⟨fun _ a => a⟩
instance : Placed Kind := ⟨fun _ a => a⟩
instance : Placed Position := ⟨fun f p => f p⟩
instance : Placed Token := ⟨fun f t => { t with position := f t.position }⟩
instance : Placed Fault := ⟨fun f e => { e with position := f e.position }⟩

instance {α : Type} [Placed α] : Placed (Option α) := ⟨fun f => Option.map (relocate f)⟩
instance {α : Type} [Placed α] : Placed (List α) := ⟨fun f => List.map (relocate f)⟩

instance {α : Type} [Placed α] : Placed (Except Fault α) where
  relocate f
    | .ok a => .ok (relocate f a)
    | .error e => .error (relocate f e)

theorem relocate_append {α : Type} [Placed α] (xs ys : List α) :
    relocate f (xs ++ ys) = relocate f xs ++ relocate f ys :=
  List.map_append

theorem relocate_toList {α : Type} [Placed α] (o : Option α) :
    relocate f o.toList = (relocate f o).toList := by
  cases o <;> rfl

/-! ### Trees -/

mutual

/-- The expression with `f` applied to its positions. -/
def Expr.relocate (f : Position → Position) : Expr → Expr
  | .assign p r n v => .assign (f p) (relocateOptional f r) n (v.relocate f)
  | .assignElement p r n i v =>
    .assignElement (f p) (relocateOptional f r) n (i.relocate f) (v.relocate f)
  | .binary p o a b => .binary (f p) o (a.relocate f) (b.relocate f)
  | .instanceOf p e t => .instanceOf (f p) (e.relocate f) t
  | .unary p o e => .unary (f p) o (e.relocate f)
  | .step p o s e => .step (f p) o s (e.relocate f)
  | .new p t z => .new (f p) t (relocateOptional f z)
  | .cast p t e => .cast (f p) t (e.relocate f)
  | .var p r n => .var (f p) (relocateOptional f r) n
  | .element p r n i => .element (f p) (relocateOptional f r) n (i.relocate f)
  | .call p r m as => .call (f p) (relocateOptional f r) m (relocateArguments f as)
  | .int p v => .int (f p) v
  | .string p v => .string (f p) v
  | .bool p v => .bool (f p) v

/-- The optional expression with `f` applied to its positions. -/
def relocateOptional (f : Position → Position) : Option Expr → Option Expr
  | none => none
  | some e => some (e.relocate f)

/-- The expressions with `f` applied to their positions. -/
def relocateArguments (f : Position → Position) : List Expr → List Expr
  | [] => []
  | e :: es => e.relocate f :: relocateArguments f es

end

instance : Placed Expr := ⟨Expr.relocate⟩

theorem relocateOptional_eq (o : Option Expr) : relocateOptional f o = relocate f o := by
  cases o <;> rfl

theorem relocateArguments_eq (es : List Expr) : relocateArguments f es = relocate f es := by
  induction es with
  | nil => rfl
  | cons e es ih =>
    rw [relocateArguments, ih]
    rfl

theorem Expr.position_relocate (e : Expr) :
    (Placed.relocate f e).position = f e.position := by
  cases e <;> rfl

theorem Expr.relocate_join (op : BinaryOp) (a b : Expr) :
    Placed.relocate f (join op a b) = join op (Placed.relocate f a) (Placed.relocate f b) := by
  unfold join
  rw [position_relocate]
  rfl

theorem Expr.relocate_assignTo (target : Expr) (leading : String) (value : Expr) :
    Placed.relocate f (target.assignTo leading value) =
      (Placed.relocate f target).assignTo leading (Placed.relocate f value) := by
  cases target <;> rfl

mutual

/-- The statement with `f` applied to its positions. -/
def Stmt.relocate (f : Position → Position) : Stmt → Stmt
  | .ifElse p c t e => .ifElse (f p) (Placed.relocate f c) (t.relocate f) (relocateBranch f e)
  | .whileLoop p c b => .whileLoop (f p) (Placed.relocate f c) (b.relocate f)
  | .forLoop p i c u b =>
    .forLoop (f p) (Placed.relocate f i) (Placed.relocate f c) (Placed.relocate f u) (b.relocate f)
  | .breakLoop p => .breakLoop (f p)
  | .returnWith p v => .returnWith (f p) (Placed.relocate f v)
  | .block p ss => .block (f p) (relocateStmts f ss)
  | .declare p n i => .declare (f p) n (Placed.relocate f i)
  | .evaluate p e => .evaluate (f p) (Placed.relocate f e)

/-- The optional statement with `f` applied to its positions. -/
def relocateBranch (f : Position → Position) : Option Stmt → Option Stmt
  | none => none
  | some s => some (s.relocate f)

/-- The statements with `f` applied to their positions. -/
def relocateStmts (f : Position → Position) : List Stmt → List Stmt
  | [] => []
  | s :: ss => s.relocate f :: relocateStmts f ss

end

instance : Placed Stmt := ⟨Stmt.relocate⟩

theorem relocateStmts_eq (ss : List Stmt) : relocateStmts f ss = relocate f ss := by
  induction ss with
  | nil => rfl
  | cons s ss ih =>
    rw [relocateStmts, ih]
    rfl

instance : Placed Block := ⟨fun f b => ⟨relocate f b.stmts, f b.position⟩⟩
instance : Placed Formal := ⟨fun f p => { p with position := f p.position }⟩

instance : Placed Field where
  relocate f d := { d with init := relocate f d.init, position := f d.position }

instance : Placed Method where
  relocate f m :=
    { m with params := relocate f m.params, body := relocate f m.body, position := f m.position }

instance : Placed Member where
  relocate f
    | .field d => .field (relocate f d)
    | .method m => .method (relocate f m)

instance : Placed Class where
  relocate f k := { k with members := relocate f k.members, position := f k.position }

instance : Placed Program := ⟨fun f p => ⟨relocate f p.classes, f p.position⟩⟩

/-! ### Sources, cursors and journals -/

instance : Placed Item where
  relocate f
    | .token t => .token (relocate f t)
    | .fault e => .fault (relocate f e)

instance : Placed EndToken := ⟨fun f e => ⟨relocate f e.token, e.isEnd⟩⟩
instance : Placed Source := ⟨fun f s => ⟨relocate f s.items, relocate f s.finish⟩⟩

instance : Placed Cursor where
  relocate f c := ⟨relocate f c.current, relocate f c.rest, relocate f c.finish, c.consumed⟩

instance : Placed Event where
  relocate f
    | .delivered t => .delivered (relocate f t)
    | .consumed t => .consumed (relocate f t)
    | .reported e => .reported (relocate f e)
    | other => other

instance {α : Type} [Placed α] : Placed (Reply α) where
  relocate f r := ⟨relocate f r.outcome, relocate f r.cursor, relocate f r.events⟩

theorem faultsIn_relocate (es : List Event) :
    faultsIn (relocate f es) = relocate f (faultsIn es) := by
  induction es with
  | nil => rfl
  | cons e es ih =>
    have hcons : relocate f (e :: es) = relocate f e :: relocate f es := rfl
    rw [hcons, faultsIn_cons, faultsIn_cons, ih, relocate_append]
    cases e <;> rfl

theorem Event.consumed?_relocate {e : Event} (h : e.consumed? = none) :
    (relocate f e).consumed? = none := by
  cases e with
  | consumed t => cases h
  | _ => rfl

namespace Cursor

theorem pull_relocate (finish : EndToken) (items : List Item) :
    pull (relocate f finish) (relocate f items) =
      (relocate f (pull finish items).1, relocate f (pull finish items).2.1,
        relocate f (pull finish items).2.2) := by
  induction items with
  | nil => rfl
  | cons item items ih =>
    cases item with
    | token t => rfl
    | fault e =>
      have hcons : relocate f (Item.fault e :: items) =
          .fault (relocate f e) :: relocate f items := rfl
      rw [hcons, pull, ih]
      rfl

theorem ofSource_relocate (s : Source) :
    ofSource (relocate f s) = (relocate f (ofSource s).1, relocate f (ofSource s).2) := by
  have hpull : pull (relocate f s).finish (relocate f s).items = _ :=
    pull_relocate s.finish s.items
  unfold ofSource
  rw [hpull]
  rfl

/-- **Advancing goes the same way through a moved source.** -/
theorem advance_relocate (c : Cursor) :
    (relocate f c).advance = (relocate f c.advance.1, relocate f c.advance.2) := by
  by_cases hk : c.current.kind = .endOfInput
  · have hk' : (relocate f c).current.kind = .endOfInput := hk
    rw [advance_of_end hk, advance_of_end hk']
    rfl
  · have hk' : (relocate f c).current.kind ≠ .endOfInput := hk
    have hpull : pull (relocate f c).finish (relocate f c).rest = _ :=
      pull_relocate c.finish c.rest
    unfold advance
    rw [if_neg hk, if_neg hk', hpull, relocate_append]
    rfl

end Cursor

/-! ### Parsers -/

namespace Parser

variable {α β : Type} [Placed α] [Placed β] {p q : Parser α}

/-- From a moved cursor, `q` replies what `p` replies from the cursor, moved. -/
def Moves (f : Position → Position) (p q : Parser α) : Prop :=
  ∀ c : Cursor, q (relocate f c) = relocate f (p c)

theorem moves_pure (a : α) : Moves f (pure a) (pure (relocate f a)) := fun _ => rfl

theorem moves_pure_of {a b : α} (h : relocate f a = b) : Moves f (pure a) (pure b) :=
  h ▸ moves_pure a

theorem moves_fail (e : Fault) : Moves f (fail e : Parser α) (fail (relocate f e)) := fun _ => rfl

/-- **Moving goes through sequence.** What follows is given a moved value. -/
theorem Moves.bind {g h : α → Parser β} (hp : Moves f p q)
    (hg : ∀ a, Moves f (g a) (h (relocate f a))) : Moves f (p >>= g) (q >>= h) := by
  intro c
  have hpc := hp c
  cases ha : (p c).outcome with
  | error e =>
    have hq : (q (relocate f c)).outcome = .error (relocate f e) := by
      rw [hpc]
      show relocate f (p c).outcome = _
      rw [ha]
      rfl
    rw [run_bind_error g ha, run_bind_error h hq, hpc]
    rfl
  | ok a =>
    have hq : (q (relocate f c)).outcome = .ok (relocate f a) := by
      rw [hpc]
      show relocate f (p c).outcome = _
      rw [ha]
      rfl
    have hnext : h (relocate f a) (q (relocate f c)).cursor = relocate f (g a (p c).cursor) := by
      rw [hpc]
      exact hg a (p c).cursor
    have hevents : (q (relocate f c)).events = relocate f (p c).events := by rw [hpc]; rfl
    rw [run_bind_ok g ha, run_bind_ok h hq, hnext, hevents]
    show (⟨_, _, relocate f (p c).events ++ relocate f _⟩ : Reply β) = ⟨_, _, relocate f (_ ++ _)⟩
    rw [relocate_append]
    rfl

theorem Moves.attempt (hp : Moves f p q) : Moves f (attempt p) (attempt q) := by
  intro c
  show (⟨.ok (q (relocate f c)).outcome, (q (relocate f c)).cursor, (q (relocate f c)).events⟩ :
    Reply (Except Fault α)) = _
  rw [hp c]
  rfl

theorem moves_note {e : Event} (hc : e.consumed? = none) :
    Moves f (note e hc) (note (relocate f e) (Event.consumed?_relocate hc)) := fun _ => rfl

theorem moves_report (e : Fault) : Moves f (report e) (report (relocate f e)) := fun _ => rfl

theorem moves_kind {g h : Kind → Parser β} (hg : ∀ k, Moves f (g k) (h k)) :
    Moves f (kind >>= g) (kind >>= h) :=
  Moves.bind (p := kind) (fun _ => rfl) hg

theorem moves_current {g h : Token → Parser β} (hg : ∀ t, Moves f (g t) (h (relocate f t))) :
    Moves f (current >>= g) (current >>= h) :=
  Moves.bind (p := current) (fun _ => rfl) hg

theorem moves_consumed {g h : Nat → Parser β} (hg : ∀ n, Moves f (g n) (h n)) :
    Moves f (consumed >>= g) (consumed >>= h) :=
  Moves.bind (p := consumed) (fun _ => rfl) hg

theorem moves_advance : Moves f advance advance := by
  intro c
  show (⟨.ok (relocate f c.current), (relocate f c).advance.1, (relocate f c).advance.2⟩ :
    Reply Token) = _
  rw [Cursor.advance_relocate]
  rfl

theorem moves_skip : Moves f skip skip :=
  moves_advance.bind fun _ => moves_pure ()

/-- A fault at the current token names its value, which does not move. -/
theorem moves_failHere (cause : String → Cause) :
    Moves f (failHere cause : Parser α) (failHere cause) :=
  moves_current fun t => moves_fail ⟨cause t.value, t.position⟩

theorem moves_expectElse (k : Kind) (cause : String → Cause) :
    Moves f (expectElse k cause) (expectElse k cause) := by
  refine moves_current fun t => moves_kind fun k' => ?_
  split
  · exact moves_advance
  · exact moves_fail ⟨cause t.value, t.position⟩

theorem moves_expect (k : Kind) : Moves f (expect k) (expect k) :=
  moves_expectElse k _

/-! ### Recursion and loops -/

section Recursion

variable {I : Type} [Placed I] {body body' : (I → Parser α) → I → Parser α}

/-- **Moving goes through recursion**, since a moved source has as many items. -/
theorem moves_fix
    (h : ∀ self self', (∀ i, Moves f (self i) (self' (relocate f i))) →
      ∀ i, Moves f (body self i) (body' self' (relocate f i))) (i : I) :
    Moves f (fix body i) (fix body' (relocate f i)) := by
  have hover : ∀ (items : List Item) (i : I),
      Moves f (fixOver body items i) (fixOver body' (relocate f items) (relocate f i)) := by
    intro items
    induction items with
    | nil => exact h _ _ fun _ => moves_failHere _
    | cons item items ih => exact h _ _ ih
  intro c
  exact h _ _ (hover c.rest) i c

end Recursion

theorem moves_recursive {body body' : Parser α → Parser α}
    (h : ∀ self self', Moves f self self' → Moves f (body self) (body' self')) :
    Moves f (recursive body) (recursive body') :=
  moves_fix (I := Unit) (fun _ _ hs _ => h _ _ (hs ())) ()

theorem moves_collect (stop : Kind → Bool) {p q : Parser (Option α)} (hp : Moves f p q) :
    Moves f (collect stop p) (collect stop q) := by
  refine moves_recursive fun again again' ha => moves_kind fun k => ?_
  split
  · exact moves_pure []
  · refine hp.bind fun found => ha.bind fun others => moves_pure_of ?_
    rw [relocate_append, relocate_toList]

theorem moves_commaSeparated (hp : Moves f p q) :
    Moves f (commaSeparated p) (commaSeparated q) := by
  refine moves_recursive fun again again' ha => hp.bind fun first => moves_kind fun k => ?_
  split
  · exact moves_skip.bind fun _ => ha.bind fun others => moves_pure (first :: others)
  · exact moves_pure [first]

/-- A fault that is caught is reported where it has moved to. -/
theorem moves_recovering {recover recover' : Nat → Parser Unit} (hp : Moves f p q)
    (hr : ∀ start, Moves f (recover start) (recover' start)) :
    Moves f (recovering p recover) (recovering q recover') := by
  refine moves_consumed fun start => hp.attempt.bind fun r => ?_
  cases r with
  | ok a => exact moves_pure (some a)
  | error e =>
    exact (moves_report e).bind fun _ => (hr start).bind fun _ => moves_pure none

end Parser
end BantamJava
