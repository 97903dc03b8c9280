/-
# Nothing behind the lookahead counts

A source delivers its items one by one, and then the end token for ever. Two
sources may differ in what they deliver behind some item. A production that
returns before it has taken a token from there cannot tell them apart: it has the
same outcome, stops at the same token, and has reported the same faults. This
holds of success, of failure and of all that recovery does inside a production.

The end of a source and an end token among its items look the same to a parser, so
sources are compared by what they deliver and not by how they are made.

Key definitions: `Cursor.Delivers`, `Production`.
Key theorems: `Cursor.pull_of_begins`, `Cursor.agree_of_delivers`,
`Production.has`, `looks_one_token_ahead`.
-/
import BantamJava.Proofs.LexicalFaults
import BantamJava.Proofs.Trait.Lookahead

namespace BantamJava

/-! ### What a source delivers -/

/-- A source of these items, with this end token, starts with delivering `shared`. -/
def Begins (finish : EndToken) (items shared : List Item) : Prop :=
  ∃ n, shared <+: items ++ List.replicate n (.token finish.token)

namespace Begins

variable {finish : EndToken} {i j : Item} {items shared : List Item}

theorem of_cons (h : Begins finish (i :: items) (j :: shared)) :
    j = i ∧ Begins finish items shared := by
  obtain ⟨n, hn⟩ := h
  have hcons := List.cons_prefix_cons.1 hn
  exact ⟨hcons.1, n, hcons.2⟩

theorem of_nil (h : Begins finish [] (j :: shared)) :
    j = .token finish.token ∧ Begins finish [] shared := by
  obtain ⟨n, hn⟩ := h
  cases n with
  | zero => cases List.prefix_nil.1 hn
  | succ n =>
    have hcons := List.cons_prefix_cons.1 hn
    exact ⟨hcons.1, n, hcons.2⟩

end Begins

namespace Cursor

/-- From this cursor on, the source starts with delivering `shared`. -/
def Delivers (c : Cursor) (shared : List Item) : Prop := Begins c.finish c.rest shared

/-- The first token of what a source starts with is the one taken from it, with the
faults in front of it. This does not depend on the rest of the source, nor on how it
ends. -/
theorem pull_of_begins {finish e : EndToken} {shared items : List Item}
    (h : Begins finish items shared) (ht : 0 < (withoutFaults shared).length) :
    (pull finish items).1 = (pull e shared).1 ∧
      faultsIn (pull finish items).2.2 = faultsIn (pull e shared).2.2 ∧
      Begins finish (pull finish items).2.1 (pull e shared).2.1 := by
  induction shared generalizing items with
  | nil => cases ht
  | cons j shared ih =>
    cases items with
    | nil =>
      obtain ⟨rfl, hrest⟩ := h.of_nil
      exact ⟨rfl, rfl, hrest⟩
    | cons i items =>
      obtain ⟨rfl, hrest⟩ := h.of_cons
      cases j with
      | token t => exact ⟨rfl, rfl, hrest⟩
      | fault f =>
        obtain ⟨htoken, hfaults, hbehind⟩ := ih hrest ht
        refine ⟨htoken, ?_, hbehind⟩
        simp only [pull, faultsIn_cons, hfaults]

/-- One token fewer is to come, once a token has been taken. -/
theorem length_withoutFaults_pull (e : EndToken) (shared : List Item) :
    (withoutFaults shared).length ≤ (withoutFaults (pull e shared).2.1).length + 1 := by
  induction shared with
  | nil => exact Nat.zero_le _
  | cons i shared ih =>
    cases i with
    | token t => exact Nat.le_refl _
    | fault f => exact ih

variable {c d : Cursor}

theorem agree_of_end (hk : c.current.kind = .endOfInput) (hcurrent : d.current = c.current)
    (hconsumed : d.consumed = c.consumed) (n : Nat) : c.Agree n d := by
  have hd : d.current.kind = .endOfInput := by rw [hcurrent, hk]
  induction n with
  | zero => exact ⟨hcurrent, hconsumed⟩
  | succ n ih =>
    refine ⟨⟨hcurrent, hconsumed⟩, ?_, ?_⟩
    · rw [advance_of_end hk, advance_of_end hd]
    · rw [advance_of_end hk, advance_of_end hd]
      exact ih

/-- **Cursors agree as far as their sources deliver the same.** -/
theorem agree_of_delivers {n : Nat} {shared : List Item} (hcurrent : d.current = c.current)
    (hconsumed : d.consumed = c.consumed) (hc : c.Delivers shared) (hd : d.Delivers shared)
    (hn : n ≤ (withoutFaults shared).length) : c.Agree n d := by
  induction n generalizing c d shared with
  | zero => exact ⟨hcurrent, hconsumed⟩
  | succ n ih =>
    by_cases hk : c.current.kind = .endOfInput
    · exact agree_of_end hk hcurrent hconsumed _
    · have hk' : d.current.kind ≠ .endOfInput := by rwa [hcurrent]
      -- both sources are compared with what they share, ended in one and the same way
      have hpos : 0 < (withoutFaults shared).length := by omega
      obtain ⟨htoken, hfaults, hrest⟩ := pull_of_begins (e := c.finish) hc hpos
      obtain ⟨htoken', hfaults', hrest'⟩ := pull_of_begins (e := c.finish) hd hpos
      have hleft := length_withoutFaults_pull c.finish shared
      refine ⟨⟨hcurrent, hconsumed⟩, ?_, ?_⟩
      · simp only [advance, if_neg hk, if_neg hk', faultsIn_append, faultsIn_cons, hfaults,
          hfaults', Event.fault?]
      · simp only [advance, if_neg hk, if_neg hk']
        refine ih ?_ ?_ hrest hrest' (by omega)
        · show (pull d.finish d.rest).1 = (pull c.finish c.rest).1
          rw [htoken, htoken']
        · show d.consumed + 1 = c.consumed + 1
          rw [hconsumed]

end Cursor

/-! ### Productions -/

/-- The productions of the grammar that can be called on their own. -/
inductive Production (table : StmtTable) : {α : Type} → Parser α → Prop where
  | expr : Production table Parser.expr
  | primary : Production table Parser.primary
  | newExpr : Production table Parser.newExpr
  | castExpr : Production table Parser.castExpr
  | arguments : Production table Parser.arguments
  | typeName : Production table Parser.typeName
  | identifier : Production table Parser.identifier
  | stmt : Production table (Parser.stmt table)
  | block : Production table (Parser.block table)
  | member : Production table (Parser.member table)
  | parameters : Production table Parser.parameters
  | formal : Production table Parser.formal
  | classDecl : Production table (Parser.classDecl table)

/-- Productions have every trait that allows all tokens and is kept in recovery. -/
theorem Production.has {α : Type} {table : StmtTable} {p : Parser α} (hp : Production table p)
    {T : Trait} (hT : T.AllowsAll) (hc : T.Catches) : T.Has p := by
  have hE : T.AllowsExprs := hT.unbraced.exprs
  have hexpr : T.Has Parser.expr := Trait.expr_has hE
  cases hp with
  | expr => exact hexpr
  | primary => exact Trait.primaryWith_has hE hexpr
  | newExpr => exact fun c => Trait.newWith_has hE hexpr (hT _) c rfl
  | castExpr => exact fun c => Trait.castWith_has hE hexpr (hT _) c rfl
  | arguments => exact Trait.argumentsWith_has hE hexpr
  | typeName => exact Trait.typeName_has hE
  | identifier => exact Trait.identifier_has hE
  | stmt => exact Trait.stmt_has hT hc table
  | block => exact Trait.block_has hT hc table
  | member => exact Trait.member_has hT hc table
  | parameters => exact Trait.parameters_has hE
  | formal => exact Trait.formal_has hE
  | classDecl => exact Trait.classDecl_has hT hc table

/-- **One token of lookahead.** Let a production run from the cursor `c`, and let
`d` be a cursor at the same token, with as many tokens consumed, whose source goes on
to deliver the same items up to and including the token that is current when the
production returns: `shared` holds as many tokens as it consumes. Then the production
has the same outcome from `d`, ends with as many tokens consumed and at the same
token, and reports the same faults on the way. -/
theorem looks_one_token_ahead {α : Type} {table : StmtTable} {p : Parser α}
    (hp : Production table p) (c d : Cursor) (shared : List Item)
    (hcurrent : d.current = c.current) (hconsumed : d.consumed = c.consumed)
    (hc : c.Delivers shared) (hd : d.Delivers shared)
    (hshared : (p c).cursor.consumed ≤ c.consumed + (withoutFaults shared).length) :
    (p d).outcome = (p c).outcome ∧
    (p d).cursor.consumed = (p c).cursor.consumed ∧
    (p d).cursor.current = (p c).cursor.current ∧
    faultsIn (p d).events = faultsIn (p c).events := by
  have hlook : Trait.lookahead.Has p := hp.has Trait.lookahead_allows Trait.lookahead_catches
  have hcount := (p.reaches c).consumed_eq
  have hagree : c.Agree (consumedIn (p c).events).length d :=
    Cursor.agree_of_delivers hcurrent hconsumed hc hd (by omega)
  obtain ⟨houtcome, htokens, hfaults⟩ := hlook c d hagree
  have hend : Cursor.Agree 0 (p c).cursor (p d).cursor := by
    rw [(p.reaches c).cursor, (p.reaches d).cursor, htokens]
    exact hagree.after
  exact ⟨houtcome, hend.here.2, hend.here.1, hfaults⟩

/-- A block with a statement that fails, a stray character, and no closing brace. One
source ends there; the other has an end token among its items, and a class behind it. -/
theorem looks_one_token_ahead_unclosed_block :
    let ends : Token := ⟨.endOfInput, "EOF", ⟨2, 1⟩⟩
    let items : List Item := [.token ⟨.identifier, "x", ⟨1, 3⟩⟩, .token ⟨.number, "1", ⟨1, 5⟩⟩,
      .token ⟨.semicolon, ";", ⟨1, 6⟩⟩, .fault ⟨.unrecognised "#", ⟨1, 8⟩⟩]
    let shared := items ++ [.token ends]
    let c : Cursor := ⟨⟨.openCurly, "\x7b", ⟨1, 1⟩⟩, items, ⟨ends, rfl⟩, 7⟩
    let d : Cursor := ⟨⟨.openCurly, "\x7b", ⟨1, 1⟩⟩,
      shared ++ [.token ⟨.classWord, "class", ⟨3, 1⟩⟩], ⟨.atEnd ⟨4, 1⟩, rfl⟩, 7⟩
    let p := Parser.block .standard
    (c.Delivers shared ∧ d.Delivers shared ∧
      (p c).cursor.consumed ≤ c.consumed + (withoutFaults shared).length) ∧
    (p d).outcome = (p c).outcome ∧
    (p d).cursor.consumed = (p c).cursor.consumed ∧
    (p d).cursor.current = (p c).cursor.current ∧
    faultsIn (p d).events = faultsIn (p c).events := by
  intro ends items shared c d p
  have hc : c.Delivers shared := ⟨1, List.prefix_refl _⟩
  have hd : d.Delivers shared := ⟨0, [.token ⟨.classWord, "class", ⟨3, 1⟩⟩], rfl⟩
  have hshared : (p c).cursor.consumed ≤ c.consumed + (withoutFaults shared).length := by
    decide +kernel
  exact ⟨⟨hc, hd, hshared⟩, looks_one_token_ahead .block c d shared rfl rfl hc hd hshared⟩

end BantamJava
