/-
# Failures blame the right token

A production that fails returns its fault and leaves it to its caller to report it. The fault
is made at one place and travels up through the productions around it. It is never made
before a token that is consumed on the way out: a fault is about the token that is current
when the production has returned, except for a number that is out of range, which has just
been consumed.

This is read off the course of a run (`Trait.course`). Productions of names, types and
expressions report nothing themselves, whether they fail or not. What they put into the
journal are the faults among the items that they take from the source (`Trait.passive`).

Key definitions: `Cause.found?`, `Fault.BlamesNumber`, `Fault.BlamesCurrent`,
`PassiveProduction`, `GrammarProduction`, `Trait.passive`.
Key theorems: `Blames.number_or_current`, `PassiveProduction.has`, `GrammarProduction.has`,
`productions_blame_the_right_token`.
-/
import Mathlib.Control.Monad.Basic
import BantamJava.Proofs.LexicalFaults
import BantamJava.Proofs.Trait.Course

namespace BantamJava

/-! ### What a fault blames -/

/-- The spelling of the token or lexeme that a cause finds fault with, if it tells it. The
name of a variable without a value is none: another token is missing behind it. -/
def Cause.found? : Cause → Option String
  | .unrecognised found | .unterminatedString found | .badNumber found | .unexpected found
  | .unexpectedFor found _ | .expected _ found => some found
  | .unterminatedComment | .missingInitializer _ => none

/-- The fault is that of a number out of range, the last of these tokens. -/
def Fault.BlamesNumber (f : Fault) (consumed : List Token) : Prop :=
  ∃ t, consumed.getLast? = some t ∧ f = t.numberFault

/-- The fault is about this token: it stands where the token does, and if it tells a spelling
then that of the token. -/
structure Fault.BlamesCurrent (f : Fault) (t : Token) : Prop where
  position : f.position = t.position
  found : ∀ s, f.cause.found? = some s → s = t.value
  tier : f.tier = .syntactic

theorem Cause.found?_respelled {cause : Cause} (h : cause.tier = .syntactic) {s s' : String}
    (hfound : (cause.respelled s).found? = some s') : s' = s := by
  cases cause with
  | unexpected found => exact (Option.some.inj hfound).symm
  | unexpectedFor found expectation => exact (Option.some.inj hfound).symm
  | expected kind found => exact (Option.some.inj hfound).symm
  | missingInitializer name => cases hfound
  | _ => cases h

/-- What a cause made from a spelling tells is this spelling. -/
theorem Spelling.found {cause : String → Cause} (h : Spelling cause) {s s' : String}
    (hfound : (cause s).found? = some s') : s' = s := by
  obtain ⟨htier, hsame⟩ := h s
  rw [← hsame s] at hfound
  exact Cause.found?_respelled htier hfound

/-- **The fault of a failed run** blames the last token that it consumed, or the current one. -/
theorem Blames.number_or_current {c d : Cursor} {es : List Event} {f : Fault}
    (h : Blames c es d f) : f.BlamesNumber (consumedIn es) ∨ f.BlamesCurrent d.current := by
  cases h with
  | current _ hs => exact .inr ⟨rfl, fun s hfound => hs.found hfound, (hs _).1⟩
  | @number es d _ hn =>
    have hne : d.current.kind ≠ .endOfInput := by
      rw [hn.1]
      decide
    refine .inl ⟨d.current, ?_, rfl⟩
    rw [consumedIn_append, Cursor.consumedIn_advance hne, List.getLast?_concat]

/-! ### Productions that report nothing -/

/-- The productions of names, types and expressions, and what is made of these alone. -/
inductive PassiveProduction : {α : Type} → Parser α → Prop where
  | expr : PassiveProduction Parser.expr
  | disjunction : PassiveProduction (Parser.disjunction Parser.expr)
  | conjunction : PassiveProduction (Parser.conjunction Parser.expr)
  | equality : PassiveProduction (Parser.equality Parser.expr)
  | relational : PassiveProduction (Parser.relational Parser.expr)
  | additive : PassiveProduction (Parser.additive Parser.expr)
  | multiplicative : PassiveProduction (Parser.multiplicative Parser.expr)
  | operand : PassiveProduction (Parser.operand Parser.expr)
  | newExpr : PassiveProduction Parser.newExpr
  | castExpr : PassiveProduction Parser.castExpr
  | signed : PassiveProduction (Parser.signed Parser.expr)
  | postStep : PassiveProduction (Parser.postStep Parser.expr)
  | primary : PassiveProduction Parser.primary
  | primaryBase : PassiveProduction (Parser.primaryBase Parser.expr)
  | nameSuffix (receiver : Option Expr) (name : String) (p : Position) :
      PassiveProduction (Parser.nameSuffix Parser.expr receiver name p)
  | arguments : PassiveProduction Parser.arguments
  | exprUnless (k : Kind) : PassiveProduction (Parser.exprUnless k)
  | identifier : PassiveProduction Parser.identifier
  | typeName : PassiveProduction Parser.typeName
  | formal : PassiveProduction Parser.formal
  | parameters : PassiveProduction Parser.parameters

/-- The productions of the grammar. -/
inductive GrammarProduction (table : StmtTable) : {α : Type} → Parser α → Prop where
  | passive {α : Type} {p : Parser α} (hp : PassiveProduction p) : GrammarProduction table p
  | stmt : GrammarProduction table (Parser.stmt table)
  | stmtOf (form : StmtForm) : GrammarProduction table (Parser.stmtOf table form)
  | block : GrammarProduction table (Parser.block table)
  | member : GrammarProduction table (Parser.member table)
  | classDecl : GrammarProduction table (Parser.classDecl table)

section Has

variable {α : Type} {p : Parser α} {T : Trait} (hT : T.AllowsAll)

include hT

/-- Passive productions have every trait that allows all tokens. -/
theorem PassiveProduction.has (hp : PassiveProduction p) : T.Has p := by
  have hE : T.AllowsExprs := hT.unbraced.exprs
  have hexpr : T.Has Parser.expr := Trait.expr_has hE
  cases hp with
  | expr => exact hexpr
  | disjunction => exact Trait.disjunction_has hE hexpr
  | conjunction => exact Trait.conjunction_has hE hexpr
  | equality => exact Trait.equality_has hE hexpr
  | relational => exact Trait.relational_has hE hexpr
  | additive => exact Trait.additive_has hE hexpr
  | multiplicative => exact Trait.multiplicative_has hE hexpr
  | operand => exact Trait.operand_has hE hexpr
  | newExpr => exact fun c => Trait.newWith_has hE hexpr (hT _) c rfl
  | castExpr => exact fun c => Trait.castWith_has hE hexpr (hT _) c rfl
  | signed => exact Trait.signed_has hE hexpr
  | postStep => exact Trait.postStep_has hE hexpr
  | primary => exact Trait.primaryWith_has hE hexpr
  | primaryBase => exact Trait.primaryBase_has hE hexpr
  | nameSuffix receiver name p => exact Trait.nameSuffix_has hE hexpr receiver name p
  | arguments => exact Trait.argumentsWith_has hE hexpr
  | exprUnless k => exact Trait.exprUnless_has hE k
  | identifier => exact Trait.identifier_has hE
  | typeName => exact Trait.typeName_has hE
  | formal => exact Trait.formal_has hE
  | parameters => exact Trait.parameters_has hE

/-- All productions have every trait that is kept in recovery, too. -/
theorem GrammarProduction.has (hc : T.Catches) {table : StmtTable}
    (hp : GrammarProduction table p) : T.Has p := by
  cases hp with
  | passive hp => exact hp.has hT
  | stmt => exact Trait.stmt_has hT hc table
  | stmtOf form =>
    exact Trait.formWith_has hT hc (Trait.stmt_has hT hc table) (Parser.stmt_consuming table) form
  | block => exact Trait.block_has hT hc table
  | member => exact Trait.member_has hT hc table
  | classDecl => exact Trait.classDecl_has hT hc table

end Has

/-! ### Items taken from the source -/

/-- A token is taken with some items, and the faults among them are reported. -/
theorem Cursor.pull_passive (finish : EndToken) (items : List Item) :
    ∃ pulled, items = pulled ++ (pull finish items).2.1 ∧
      faultsIn (pull finish items).2.2 = faultsOf pulled := by
  induction items with
  | nil => exact ⟨[], rfl, rfl⟩
  | cons item items ih =>
    cases item with
    | token t => exact ⟨[.token t], rfl, rfl⟩
    | fault f =>
      obtain ⟨pulled, hitems, hfaults⟩ := ih
      refine ⟨.fault f :: pulled, congrArg (Item.fault f :: ·) hitems, ?_⟩
      rw [pull, faultsIn_cons, hfaults]
      rfl

theorem Cursor.advance_passive (c : Cursor) :
    ∃ pulled, c.rest = pulled ++ c.advance.1.rest ∧ faultsIn c.advance.2 = faultsOf pulled := by
  by_cases hk : c.current.kind = .endOfInput
  · rw [advance_of_end hk]
    exact ⟨[], rfl, rfl⟩
  · obtain ⟨pulled, hrest, hfaults⟩ := pull_passive c.finish c.rest
    refine ⟨pulled, ?_, ?_⟩
    · simpa only [advance, if_neg hk] using hrest
    · simpa [advance, hk, Event.fault?] using hfaults

namespace Trait

open BantamJava.Parser

/-- The run takes items from the source, and reports the faults among them and nothing else. -/
def passive : Trait where
  holds p c := ∃ pulled, c.rest = pulled ++ (p c).cursor.rest ∧
    faultsIn (p c).events = faultsOf pulled
  takes _ := True
  holds_pure _ _ := ⟨[], rfl, rfl⟩
  holds_bind {_ _ p f c} hp hf := by
    obtain ⟨pulled, hrest, hfaults⟩ := hp
    cases ha : (p c).outcome with
    | error e =>
      rw [run_bind_error f ha]
      exact ⟨pulled, hrest, hfaults⟩
    | ok a =>
      obtain ⟨pulled', hrest', hfaults'⟩ := hf a ha
      rw [run_bind_ok f ha]
      refine ⟨pulled ++ pulled', ?_, ?_⟩
      · rw [hrest, hrest', List.append_assoc]
      · rw [faultsIn_append, hfaults, hfaults', faultsOf, faultsOf, faultsOf,
          List.filterMap_append]
  holds_current _ := ⟨[], rfl, rfl⟩
  holds_kind _ := ⟨[], rfl, rfl⟩
  holds_consumed _ := ⟨[], rfl, rfl⟩
  holds_note _ hf _ := ⟨[], rfl, by simp [note, hf, faultsOf]⟩
  holds_advance {c} _ := c.advance_passive
  holds_fail _ _ := ⟨[], rfl, rfl⟩
  holds_number {c} _ _ := by
    rw [run_integerConstant]
    exact c.advance_passive
  holds_fix _ h i c := h (default :: c.rest) i c

theorem passive_allows : passive.AllowsAll := fun _ => trivial

end Trait

/-! ### Failing productions -/

/-- **A production that fails blames the right token and leaves reporting to its caller.** If
a production fails, its fault is that of a number out of range, the last token consumed, or
else it is about the token that is current when the production returns. And productions of
names, types and expressions report nothing but the faults among the items that they take
from the source, whatever their outcome. -/
theorem productions_blame_the_right_token (table : StmtTable) :
    (∀ {α : Type} (p : Parser α), GrammarProduction table p → ∀ (c : Cursor) (f : Fault),
      (p c).outcome = .error f →
        f.BlamesNumber (consumedIn (p c).events) ∨ f.BlamesCurrent (p c).cursor.current) ∧
    (∀ {α : Type} (p : Parser α), PassiveProduction p → ∀ c : Cursor,
      ∃ pulled, c.rest = pulled ++ (p c).cursor.rest ∧
        faultsIn (p c).events = faultsOf pulled) := by
  constructor
  · intro α p hp c f hf
    obtain ⟨-, hblames⟩ := hp.has Trait.course_allows Trait.course_catches c
    exact (hblames f hf).number_or_current
  · intro α p hp
    exact hp.has Trait.passive_allows

/-- A number out of range with a stray character behind it, which has been taken from the
source when the expression fails; and a declaration without a value. -/
theorem productions_blame_number_and_semicolon :
    let c := (Cursor.ofSource (.ofText "2147483648 # ;" "A.btm")).1
    let d := (Cursor.ofSource (.ofText "var x ;" "A.btm")).1
    let number : Fault := ⟨.badNumber "2147483648", ⟨1, 1⟩⟩
    let missing : Fault := ⟨.missingInitializer "x", ⟨1, 7⟩⟩
    let r := Parser.expr c
    let s := Parser.stmt .standard d
    (number.BlamesNumber (consumedIn r.events) ∨ number.BlamesCurrent r.cursor.current) ∧
    (missing.BlamesNumber (consumedIn s.events) ∨ missing.BlamesCurrent s.cursor.current) ∧
    (∃ pulled, c.rest = pulled ++ r.cursor.rest ∧ faultsIn r.events = faultsOf pulled) ∧
    faultsIn r.events = [⟨.unrecognised "#", ⟨1, 12⟩⟩] := by
  intro c d number missing r s
  obtain ⟨hfails, hpassive⟩ := productions_blame_the_right_token .standard
  exact ⟨hfails _ (.passive .expr) c number (by decide +kernel),
    hfails _ .stmt d missing (by decide +kernel), hpassive _ .expr c, by decide +kernel⟩

end BantamJava
