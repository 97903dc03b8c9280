/-
# The grammar does not look at positions

Every parser of the grammar, recovery included, does the same on a moved source, with
everything moved. Where a parser takes a position, an expression or a receiver with
it, the moved run takes the moved one.

Moving everything to one position erases all positions. So two texts whose items are
the same but for their positions are parsed to programs that are the same but for
theirs, and give rise to the same diagnostics.

Key definitions: `erase`, `Item.content`.
Key theorems: `Parser.expr_moves`, `Parser.stmt_moves`, `Parser.classes_moves`,
`Session.parse_start_relocate`, `parse_ignores_layout`.
-/
import BantamJava.Proofs.Relocation.Basic
import BantamJava.Proofs.Termination

namespace BantamJava

open Placed (relocate)

variable {f : Position → Position}

namespace Parser

/-! ### Names and operators -/

theorem identifier_moves : Moves f identifier identifier :=
  (moves_expectElse _ _).bind fun t => moves_pure t.value

theorem typeName_moves : Moves f typeName typeName := by
  refine identifier_moves.bind fun name => moves_kind fun k => ?_
  split
  · exact moves_skip.bind fun _ => (moves_expect _).bind fun _ => moves_pure (name ++ "[]")
  · exact moves_pure name

theorem chain_moves (op? : Kind → Option BinaryOp) {operand operand' : Parser Expr}
    (h : Moves f operand operand') : Moves f (chain op? operand) (chain op? operand') := by
  refine h.bind fun first =>
    moves_fix (I := Expr) (fun again again' ha left => moves_kind fun k => ?_) first
  cases op? k with
  | none => exact moves_pure left
  | some op =>
    refine moves_skip.bind fun _ => h.bind fun right => ?_
    rw [← Expr.relocate_join]
    exact ha _

theorem single_moves (op? : Kind → Option BinaryOp) {operand operand' : Parser Expr}
    (h : Moves f operand operand') : Moves f (single op? operand) (single op? operand') := by
  refine h.bind fun left => moves_kind fun k => ?_
  cases op? k with
  | none => exact moves_pure left
  | some op =>
    exact moves_skip.bind fun _ => h.bind fun right => moves_pure_of (Expr.relocate_join _ _ _)

/-! ### Expressions -/

section Levels

variable {sub sub' : Parser Expr} (hs : Moves f sub sub')

include hs

theorem argumentsWith_moves : Moves f (argumentsWith sub) (argumentsWith sub') := by
  refine moves_kind fun k => ?_
  split
  · exact moves_pure []
  · exact moves_commaSeparated hs

theorem nameSuffix_moves (receiver : Option Expr) (name : String) (p : Position) :
    Moves f (nameSuffix sub receiver name p) (nameSuffix sub' (relocate f receiver) name (f p)) := by
  refine moves_kind fun k => ?_
  split
  · refine moves_skip.bind fun _ => (argumentsWith_moves hs).bind fun args =>
      (moves_expect _).bind fun _ => moves_pure_of ?_
    show Expr.call _ (relocateOptional f receiver) _ (relocateArguments f args) = _
    rw [relocateOptional_eq, relocateArguments_eq]
  · refine moves_skip.bind fun _ => hs.bind fun index =>
      (moves_expect _).bind fun _ => moves_pure_of ?_
    show Expr.element _ (relocateOptional f receiver) _ _ = _
    rw [relocateOptional_eq]
    rfl
  · refine moves_pure_of ?_
    show Expr.var _ (relocateOptional f receiver) _ = _
    rw [relocateOptional_eq]

omit hs in
theorem integerConstant_moves : Moves f integerConstant integerConstant := by
  refine moves_advance.bind fun t => ?_
  have hvalue : (relocate f t).value = t.value := rfl
  rw [hvalue]
  cases readInteger? t.value with
  | some n => exact moves_pure (Expr.int t.position n)
  | none => exact moves_fail ⟨.badNumber t.value, t.position⟩

theorem primaryBase_moves : Moves f (primaryBase sub) (primaryBase sub') := by
  refine moves_kind fun k => ?_
  split
  · exact moves_skip.bind fun _ => hs.bind fun e => (moves_expect _).bind fun _ => moves_pure e
  · exact integerConstant_moves
  · exact moves_advance.bind fun t => moves_pure (Expr.string t.position t.value)
  · exact moves_advance.bind fun t => moves_pure (Expr.bool t.position (t.value == "true"))
  · exact moves_advance.bind fun t => moves_pure (Expr.var t.position none t.value)
  · exact moves_advance.bind fun t => moves_pure (Expr.var t.position none t.value)
  · exact moves_advance.bind fun t => nameSuffix_moves hs none t.value t.position
  · exact moves_failHere _

theorem primaryWith_moves : Moves f (primaryWith sub) (primaryWith sub') := by
  refine (primaryBase_moves hs).bind fun base =>
    moves_fix (I := Expr) (fun again again' ha receiver => moves_kind fun k => ?_) base
  split
  · rw [Expr.position_relocate]
    exact moves_skip.bind fun _ => identifier_moves.bind fun name =>
      (nameSuffix_moves hs (some receiver) name receiver.position).bind fun e => ha e
  · exact moves_pure receiver

theorem postStep_moves : Moves f (postStep sub) (postStep sub') := by
  refine (primaryWith_moves hs).bind fun e => moves_kind fun k => ?_
  cases stepOp? k with
  | none => exact moves_pure e
  | some op =>
    refine moves_skip.bind fun _ => moves_pure_of ?_
    rw [Expr.position_relocate]
    rfl

omit hs in
theorem relocate_sign {k : Kind} {make : Position → Expr → Expr} (h : signOp? k = some make)
    (p : Position) (e : Expr) : relocate f (make p e) = make (f p) (relocate f e) := by
  unfold signOp? at h
  split at h <;> cases h <;> rfl

theorem signed_moves : Moves f (signed sub) (signed sub') := by
  refine moves_recursive fun again again' ha => moves_current fun t => ?_
  have hkind : (relocate f t).kind = t.kind := rfl
  rw [hkind]
  cases hk : signOp? t.kind with
  | none => exact postStep_moves hs
  | some make =>
    exact moves_skip.bind fun _ => ha.bind fun operand =>
      moves_pure_of (relocate_sign hk t.position operand)

theorem newWith_moves : Moves f (newWith sub) (newWith sub') := by
  refine moves_advance.bind fun t => identifier_moves.bind fun name => moves_kind fun k => ?_
  split
  · exact moves_skip.bind fun _ => (moves_expect _).bind fun _ =>
      moves_pure (Expr.new t.position name none)
  · exact moves_skip.bind fun _ => hs.bind fun size => (moves_expect _).bind fun _ =>
      moves_pure (Expr.new t.position name (some size))
  · exact moves_failHere _

theorem castWith_moves : Moves f (castWith sub) (castWith sub') :=
  moves_advance.bind fun t => (moves_expect _).bind fun _ => typeName_moves.bind fun name =>
    (moves_expect _).bind fun _ => hs.bind fun operand => (moves_expect _).bind fun _ =>
      moves_pure (Expr.cast t.position name operand)

theorem operand_moves : Moves f (operand sub) (operand sub') := by
  refine moves_kind fun k => ?_
  split
  · exact newWith_moves hs
  · exact castWith_moves hs
  · exact signed_moves hs

theorem additive_moves : Moves f (additive sub) (additive sub') :=
  chain_moves _ (chain_moves _ (operand_moves hs))

theorem relational_moves : Moves f (relational sub) (relational sub') := by
  refine (additive_moves hs).bind fun left => moves_kind fun k => ?_
  split
  · refine moves_skip.bind fun _ => typeName_moves.bind fun name => moves_pure_of ?_
    rw [Expr.position_relocate]
    rfl
  · refine moves_kind fun k => ?_
    cases comparisonOp? k with
    | none => exact moves_pure left
    | some op =>
      exact moves_skip.bind fun _ => (additive_moves hs).bind fun right =>
        moves_pure_of (Expr.relocate_join _ _ _)

theorem disjunction_moves : Moves f (disjunction sub) (disjunction sub') :=
  chain_moves _ (chain_moves _ (single_moves _ (relational_moves hs)))

theorem exprWith_moves : Moves f (exprWith sub) (exprWith sub') := by
  refine moves_current fun leading => (disjunction_moves hs).bind fun left => moves_kind fun k => ?_
  split
  · exact moves_skip.bind fun _ => hs.bind fun value =>
      moves_pure_of (Expr.relocate_assignTo left leading.value value)
  · exact moves_pure left

end Levels

/-- **Expressions move with their tokens.** -/
theorem expr_moves : Moves f expr expr :=
  moves_recursive fun _ _ => exprWith_moves

/-! ### Recovery -/

theorem closeBody_moves : Moves f closeBody closeBody := by
  refine (moves_expect _).attempt.bind fun r => ?_
  cases r with
  | ok t => exact moves_pure ()
  | error e => exact moves_report e

theorem skipStmt_moves : Moves f skipStmt skipStmt := by
  refine moves_recursive fun again again' ha => moves_kind fun k => ?_
  split
  · exact moves_pure ()
  split
  · exact moves_skip
  split
  · exact moves_pure ()
  · exact moves_skip.bind fun _ => ha

theorem forceStep_moves (start : Nat) : Moves f (forceStep start) (forceStep start) := by
  refine moves_consumed fun n => ?_
  split
  · exact moves_advance.bind fun t => moves_pure (t.kind == .semicolon)
  · exact moves_pure false

theorem leaveStmt_moves (start : Nat) : Moves f (leaveStmt start) (leaveStmt start) := by
  refine (forceStep_moves start).bind fun ended => ?_
  cases ended with
  | true => exact moves_pure ()
  | false => exact skipStmt_moves

/-! ### Statements -/

section Forms

variable {sub sub' : Parser Stmt} (hs : Moves f sub sub')

include hs

theorem skipElse_moves {again again' : Nat → Parser Unit}
    (ha : ∀ start, Moves f (again start) (again' start)) :
    Moves f (skipElse sub again) (skipElse sub' again') := by
  refine moves_kind fun k => ?_
  split
  · refine (moves_note rfl).bind fun _ => moves_skip.bind fun _ => moves_consumed fun start =>
      hs.attempt.bind fun r => ?_
    cases r with
    | ok s => exact moves_pure ()
    | error e =>
      refine (moves_report e).bind fun _ => moves_kind fun k => moves_consumed fun n => ?_
      split
      · exact ha start
      · exact moves_pure ()
  · exact moves_pure ()

theorem resumeStmtWith_moves (start : Nat) :
    Moves f (resumeStmtWith sub start) (resumeStmtWith sub' start) :=
  moves_fix (I := Nat) (fun _ _ ha start =>
    (leaveStmt_moves start).bind fun _ => skipElse_moves hs ha) start

theorem blockWith_moves : Moves f (blockWith sub) (blockWith sub') :=
  (moves_expect _).bind fun t =>
    (moves_collect _ (moves_recovering hs (resumeStmtWith_moves hs))).bind fun stmts =>
      closeBody_moves.bind fun _ => moves_pure (⟨stmts, t.position⟩ : Block)

omit hs in
theorem condition_moves : Moves f condition condition :=
  (moves_expect _).bind fun _ => expr_moves.bind fun e => (moves_expect _).bind fun _ =>
    moves_pure e

omit hs in
theorem exprUnless_moves (k : Kind) : Moves f (exprUnless k) (exprUnless k) := by
  refine moves_kind fun k' => ?_
  split
  · exact moves_pure none
  · exact expr_moves.bind fun e => moves_pure (some e)

theorem conditionalStmt_moves : Moves f (conditionalStmt sub) (conditionalStmt sub') := by
  refine moves_advance.bind fun t => condition_moves.bind fun test => hs.bind fun yes =>
    moves_kind fun k => ?_
  split
  · exact moves_skip.bind fun _ => hs.bind fun no =>
      moves_pure (Stmt.ifElse t.position test yes (some no))
  · exact moves_pure (Stmt.ifElse t.position test yes none)

theorem forStmt_moves : Moves f (forStmt sub) (forStmt sub') :=
  moves_advance.bind fun t => (moves_expect _).bind fun _ =>
    (exprUnless_moves _).bind fun init => (moves_expect _).bind fun _ =>
    (exprUnless_moves _).bind fun test => (moves_expect _).bind fun _ =>
    (exprUnless_moves _).bind fun update => (moves_expect _).bind fun _ =>
    hs.bind fun body => moves_pure (Stmt.forLoop t.position init test update body)

theorem formWith_moves (form : StmtForm) : Moves f (formWith sub form) (formWith sub' form) := by
  cases form with
  | expression =>
    exact moves_current fun t => expr_moves.bind fun e => (moves_expectElse _ _).bind fun _ =>
      moves_pure (Stmt.evaluate t.position e)
  | block =>
    refine (blockWith_moves hs).bind fun b => moves_pure_of ?_
    show Stmt.block _ (relocateStmts f b.stmts) = _
    rw [relocateStmts_eq]
    rfl
  | conditional => exact conditionalStmt_moves hs
  | whileLoop =>
    exact moves_advance.bind fun t => condition_moves.bind fun test => hs.bind fun body =>
      moves_pure (Stmt.whileLoop t.position test body)
  | forLoop => exact forStmt_moves hs
  | breakLoop =>
    exact moves_advance.bind fun t => (moves_expect _).bind fun _ =>
      moves_pure (Stmt.breakLoop t.position)
  | returnValue =>
    exact moves_advance.bind fun t => (exprUnless_moves _).bind fun value =>
      (moves_expect _).bind fun _ => moves_pure (Stmt.returnWith t.position value)
  | declaration =>
    exact moves_advance.bind fun t => identifier_moves.bind fun name =>
      (moves_expectElse _ _).bind fun _ => expr_moves.bind fun init =>
      (moves_expect _).bind fun _ => moves_pure (Stmt.declare t.position name init)

end Forms

/-- **Statements move with their tokens.** -/
theorem stmt_moves (table : StmtTable) : Moves f (stmt table) (stmt table) :=
  moves_recursive fun _ _ hs => moves_kind fun k => formWith_moves hs (table.form k)

/-! ### Members and classes -/

theorem formal_moves : Moves f formal formal :=
  moves_current fun t => typeName_moves.bind fun type => identifier_moves.bind fun name =>
    moves_pure (⟨type, name, t.position⟩ : Formal)

theorem parameters_moves : Moves f parameters parameters := by
  refine moves_kind fun k => ?_
  split
  · exact moves_pure []
  · exact moves_commaSeparated formal_moves

theorem methodRest_moves (table : StmtTable) (p : Position) (type name : String) :
    Moves f (methodRest table p type name) (methodRest table (f p) type name) :=
  (moves_note rfl).bind fun _ => moves_skip.bind fun _ => parameters_moves.bind fun params =>
    (moves_expect _).bind fun _ => (blockWith_moves (stmt_moves table)).bind fun body =>
      moves_pure (⟨type, name, params, body, p⟩ : Method)

theorem fieldRest_moves (p : Position) (type name : String) :
    Moves f (fieldRest p type name) (fieldRest (f p) type name) := by
  refine moves_kind fun k => ?_
  split
  · exact moves_skip.bind fun _ => expr_moves.bind fun init => (moves_expect _).bind fun _ =>
      moves_pure (⟨type, name, some init, p⟩ : Field)
  · exact (moves_expect _).bind fun _ => moves_pure (⟨type, name, none, p⟩ : Field)

theorem member_moves (table : StmtTable) : Moves f (member table) (member table) := by
  refine moves_current fun t => typeName_moves.bind fun type => identifier_moves.bind fun name =>
    moves_kind fun k => ?_
  split
  · exact (methodRest_moves table t.position type name).bind fun m => moves_pure (Member.method m)
  · exact (fieldRest_moves t.position type name).bind fun d => moves_pure (Member.field d)

theorem skipMember_moves (depth : Nat) : Moves f (skipMember depth) (skipMember depth) := by
  refine moves_fix (I := Nat) (fun again again' ha depth => moves_kind fun k => ?_) depth
  have hdepth : relocate f depth = depth := rfl
  rw [hdepth]
  have hagain : ∀ depth, Moves f (skip >>= fun _ => again depth) (skip >>= fun _ => again' depth) :=
    fun depth => moves_skip.bind fun _ => ha depth
  split
  · exact moves_pure ()
  · split
    · exact moves_pure ()
    · exact hagain depth
  · refine moves_skip.bind fun _ => ?_
    split
    · exact ha depth
    · exact moves_pure ()
  · exact hagain (depth + 1)
  · split
    · exact moves_pure ()
    · refine moves_skip.bind fun _ => ?_
      split
      · exact ha (depth - 1)
      · exact moves_pure ()
  · exact hagain depth

theorem resumeMember_moves (start : Nat) : Moves f (resumeMember start) (resumeMember start) := by
  refine moves_consumed fun n => ?_
  split
  · refine moves_kind fun k => ?_
    split
    · exact moves_skip
    · exact moves_skip.bind fun _ => skipMember_moves 1
    · exact moves_skip.bind fun _ => skipMember_moves 0
  · exact skipMember_moves 0

theorem extendsClause_moves : Moves f extendsClause extendsClause := by
  refine moves_kind fun k => ?_
  split
  · exact moves_skip.bind fun _ => identifier_moves.bind fun parent => moves_pure (some parent)
  · exact moves_pure none

theorem classDecl_moves (table : StmtTable) : Moves f (classDecl table) (classDecl table) := by
  refine (moves_expect _).bind fun t => identifier_moves.bind fun name =>
    extendsClause_moves.bind fun parent => (moves_note rfl).bind fun _ =>
    (moves_expect _).bind fun _ =>
    (moves_collect _ (moves_recovering (member_moves table) resumeMember_moves)).bind fun members =>
    closeBody_moves.bind fun _ => moves_pure_of ?_
  have hparent : relocate f parent = parent := by cases parent <;> rfl
  rw [hparent]
  rfl

theorem skipClass_moves : Moves f skipClass skipClass := by
  refine moves_recursive fun again again' ha => moves_kind fun k => ?_
  split
  · exact moves_pure ()
  · exact moves_skip.bind fun _ => ha

/-- **The classes of a program move with their tokens.** -/
theorem classes_moves (table : StmtTable) : Moves f (classes table) (classes table) :=
  moves_collect _ (moves_recovering (classDecl_moves table) fun start =>
    (forceStep_moves start).bind fun _ => skipClass_moves)

end Parser

/-! ### Programs -/

namespace Session

/-- **From a moved cursor the moved program is parsed**, with the moved faults. -/
theorem parse_relocate {s s' : Session} (htable : s'.table = s.table)
    (hcursor : s'.cursor = relocate f s.cursor) (hjournal : s'.journal = relocate f s.journal) :
    s'.parse.1 = relocate f s.parse.1 ∧
      s'.parse.2.diagnostics.map (·.fault) =
        relocate f (s.parse.2.diagnostics.map (·.fault)) := by
  obtain ⟨cs, hcs⟩ := (Parser.classes_ends s.table s.cursor).1
  have hreply : Parser.classes s'.table s'.cursor =
      relocate f (Parser.classes s.table s.cursor) := by
    rw [htable, hcursor]
    exact Parser.classes_moves s.table s.cursor
  have hcs' : (Parser.classes s'.table s'.cursor).outcome = .ok (relocate f cs) := by
    rw [hreply]
    show relocate f (Parser.classes s.table s.cursor).outcome = _
    rw [hcs]
    rfl
  have hevents : (Parser.classes s'.table s'.cursor).events =
      relocate f (Parser.classes s.table s.cursor).events := by
    rw [hreply]
    rfl
  constructor
  · have hclasses : s'.parse.1.classes = relocate f s.parse.1.classes := by
      rw [classes_parse hcs, classes_parse hcs']
    have hposition : s'.parse.1.position = f s.parse.1.position := by
      rw [position_parse, position_parse, hcursor]
      rfl
    show (⟨s'.parse.1.classes, s'.parse.1.position⟩ : Program) = ⟨_, _⟩
    rw [hclasses, hposition]
  · rw [faults_parse hcs, faults_parse hcs', hjournal, hevents, faultsIn_relocate,
      faultsIn_relocate, relocate_append]

/-- **A moved source is parsed to the moved program**, with the moved faults. -/
theorem parse_start_relocate (file file' : String) (s : Source) :
    (start file' (relocate f s)).parse.1 = relocate f (start file s).parse.1 ∧
      (start file' (relocate f s)).parse.2.diagnostics.map (·.fault) =
        relocate f ((start file s).parse.2.diagnostics.map (·.fault)) :=
  have hbegun := Cursor.ofSource_relocate (f := f) s
  parse_relocate rfl (congrArg Prod.fst hbegun) (congrArg Prod.snd hbegun)

end Session

/-! ### Erasing positions -/

/-- The value with all its positions made one. -/
def erase {α : Type} [Placed α] : α → α :=
  relocate fun _ => .start

/-- What an item says, wherever it stands: a token's kind and value, or the cause of a
fault. -/
def Item.content : Item → (Kind × String) ⊕ Cause
  | .token t => .inl (t.kind, t.value)
  | .fault e => .inr e.cause

theorem erase_items_eq {items items' : List Item}
    (h : items.map Item.content = items'.map Item.content) : erase items = erase items' := by
  -- Erasing an item leaves what its content determines.
  let place : (Kind × String) ⊕ Cause → Item
    | .inl (k, v) => .token ⟨k, v, .start⟩
    | .inr cause => .fault ⟨cause, .start⟩
  have hplace : ∀ item : Item, erase item = place item.content := by
    intro item
    cases item <;> rfl
  have herase : ∀ items : List Item, erase items = (items.map Item.content).map place := by
    intro items
    rw [List.map_map]
    exact List.map_congr_left fun item _ => hplace item
  rw [herase, herase, h]

theorem Source.erase_ofText_eq {text text' file file' : String}
    (h : (Reader.ofText text file).items.map Item.content =
      (Reader.ofText text' file').items.map Item.content) :
    erase (ofText text file) = erase (ofText text' file') := by
  show (⟨erase (Reader.ofText text file).items, _⟩ : Source) = ⟨_, _⟩
  rw [erase_items_eq h]
  rfl

/-- The tier of a diagnostic goes by the cause of its fault, and neither is a place. -/
theorem Session.causes_parse (s : Session) :
    s.parse.2.diagnostics.map (fun d => (d.tier, d.fault.cause)) =
      (erase (s.parse.2.diagnostics.map (·.fault))).map fun e => (e.tier, e.cause) := by
  show ((faultsIn _).map (Diagnostic.ofFault _)).map _ =
    ((((faultsIn _).map (Diagnostic.ofFault _)).map _).map _).map _
  simp only [List.map_map]
  rfl

/-- **Layout does not matter.** When two texts have the same items but for their
positions, the programs parsed from them are the same but for their positions, and so
are the diagnostics: as many, in the same order, of the same tiers and causes. -/
theorem parse_ignores_layout (text text' file file' : String)
    (h : (Reader.ofText text file).items.map Item.content =
      (Reader.ofText text' file').items.map Item.content) :
    erase (parse text file).program = erase (parse text' file').program ∧
      (parse text file).diagnostics.map (fun d => (d.tier, d.fault.cause)) =
        (parse text' file').diagnostics.map fun d => (d.tier, d.fault.cause) := by
  -- Both texts are parsed as the source of the one is with its positions erased.
  have herased := Source.erase_ofText_eq h
  obtain ⟨hprogram, hfaults⟩ :=
    Session.parse_start_relocate (f := fun _ => .start) file file (.ofText text file)
  obtain ⟨hprogram', hfaults'⟩ :=
    Session.parse_start_relocate (f := fun _ => .start) file' file (.ofText text' file')
  constructor
  · calc erase (parse text file).program
        = (Session.start file (erase (.ofText text file))).parse.1 := hprogram.symm
      _ = (Session.start file (erase (.ofText text' file'))).parse.1 := by rw [herased]
      _ = erase (parse text' file').program := hprogram'
  · have hcauses : erase ((parse text file).diagnostics.map (·.fault)) =
        erase ((parse text' file').diagnostics.map (·.fault)) :=
      calc erase ((parse text file).diagnostics.map (·.fault))
          = (Session.start file (erase (.ofText text file))).parse.2.diagnostics.map (·.fault) :=
            hfaults.symm
        _ = (Session.start file (erase (.ofText text' file'))).parse.2.diagnostics.map
              (·.fault) := by rw [herased]
        _ = erase ((parse text' file').diagnostics.map (·.fault)) := hfaults'
    have hleft := Session.causes_parse (.start file (.ofText text file))
    have hright := Session.causes_parse (.start file' (.ofText text' file'))
    exact hleft.trans ((congrArg _ hcauses).trans hright.symm)

/-- A class with a stray `#` and a field that lacks its name, on one line and spread over
four with comments, gives the same two diagnostics. -/
theorem parse_ignores_layout_comments :
    let line := "class A \x7b int # ; int y; \x7d"
    let lines := "class A /* a class */\n\x7b int#;//no name\n  int  y;\r\n\x7d"
    (Reader.ofText line "a").items.map Item.content =
      (Reader.ofText lines "b").items.map Item.content ∧
    erase (parse line "a").program = erase (parse lines "b").program ∧
    (parse line "a").diagnostics.map (fun d => (d.tier, d.fault.cause)) =
      (parse lines "b").diagnostics.map (fun d => (d.tier, d.fault.cause)) ∧
    (parse line "a").diagnostics.length = 2 ∧
    (parse line "a").diagnostics.map (·.fault.position) ≠
      (parse lines "b").diagnostics.map (·.fault.position) := by
  intro line lines
  have hitems : (Reader.ofText line "a").items.map Item.content =
      (Reader.ofText lines "b").items.map Item.content := by decide +kernel
  obtain ⟨hprogram, hcauses⟩ := parse_ignores_layout line lines "a" "b" hitems
  exact ⟨hitems, hprogram, hcauses, by decide +kernel, by decide +kernel⟩

end BantamJava
