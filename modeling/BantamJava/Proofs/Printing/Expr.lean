/-
# What is printed is read back

Tokens that say what is printed for an expression are read as that expression again,
wherever they stand, in front of all that does not continue an expression.

The parser finds every phrase of the grammar, so it is left to show that what is printed
for an expression is a phrase of its level (`Expr.spells`). This goes by recursion on the
expression, with a lemma for each production of the grammar: if the signs of the parts
spell the parts, the signs of the whole spell the whole. A phrase of one level is a
phrase of all looser levels (`ExprPhrase.loosen`), and with parentheses around it a phrase
of every level, so each operand is a phrase of its slot (`Spells.fitted`).

Key definitions: `Spells`, `continuing`.
Key theorems: `ExprPhrase.loosen`, `ExprPhrase.binary`, `Spells.fitted`, `Expr.spells`,
`expr_reads_printed`.
-/
import BantamJava.Proofs.Printing.Basic
import BantamJava.Proofs.Reading.Complete
import BantamJava.Proofs.Relocation.Grammar

namespace BantamJava

/-! ### Phrases of looser levels -/

theorem ExprPhrase.looser {l : ExprLevel} {w : List Token} {e : Expr} (h : ExprPhrase l w e) :
    ExprPhrase l.looser w e := by
  cases l with
  | assignment => exact h
  | disjunction => exact .plain h
  | conjunction => exact .disjunction (.first h)
  | equality => exact .conjunction (.first h)
  | comparison => exact .equality (.one h)
  | sum => exact .comparison (.one h)
  | product => exact .sum (.first h)
  | operand => exact .product (.first h)
  | signed => exact .signed h
  | stepped => exact .unsigned h
  | primary => exact .unstepped h
  | base => exact .chain (.start h)

/-- **A phrase of a level is a phrase of all looser levels.** -/
theorem ExprPhrase.loosen {l m : ExprLevel} {w : List Token} {e : Expr} (h : ExprPhrase l w e)
    (hm : m.rank ≤ l.rank) : ExprPhrase m w e := by
  generalize hn : l.rank - m.rank = n
  induction n generalizing l with
  | zero =>
    obtain rfl : l = m := ExprLevel.eq_of_rank_eq (by omega)
    exact h
  | succ n ih =>
    have hrank := ExprLevel.rank_looser (l := l) (by have := m.one_le_rank; omega)
    exact ih h.looser (by omega) (by omega)

/-- **Operands of their slots are joined to a phrase of the operator's level.** Operators
that chain take a chain on their left. -/
theorem ExprPhrase.binary {op : BinaryOp} {w v : List Token} {l r : Expr} {t : Token}
    (hl : ExprPhrase op.leftSlot w l) (ht : t.kind = op.kind) (hr : ExprPhrase op.rightSlot v r) :
    ExprPhrase op.level (w ++ t :: v) (.binary l.position op l r) := by
  have hop : op.level.operator? t.kind = some op := by
    rw [ht]
    cases op <;> rfl
  cases op with
  | or => cases hl with | disjunction hl => exact .disjunction (.more hl hop hr)
  | and => cases hl with | conjunction hl => exact .conjunction (.more hl hop hr)
  | eq | ne => exact .equality (.two hl hop hr)
  | lt | gt | leq | geq => exact .comparison (.two hl hop hr)
  | plus | minus => cases hl with | sum hl => exact .sum (.more hl hop hr)
  | times | divide | modulus => cases hl with | product hl => exact .product (.more hl hop hr)

/-! ### What signs spell -/

instance : Placed Suffix where
  relocate f
    | .nothing => .nothing
    | .arguments args => .arguments (Placed.relocate f args)
    | .index i => .index (Placed.relocate f i)

theorem Suffix.erase_attach (s : Suffix) (p : Position) (receiver : Option Expr) (name : String) :
    erase (s.attach p receiver name) = (erase s).attach .start (erase receiver) name := by
  have hreceiver := relocateOptional_eq (f := fun _ => .start) receiver
  cases s with
  | nothing =>
    show Expr.var _ (relocateOptional _ receiver) name = _
    rw [hreceiver]
    rfl
  | arguments args =>
    show Expr.call _ (relocateOptional _ receiver) name (relocateArguments _ args) = _
    rw [hreceiver, relocateArguments_eq]
    rfl
  | index i =>
    show Expr.element _ (relocateOptional _ receiver) name (i.relocate _) = _
    rw [hreceiver]
    rfl

/-- Tokens that say this are a phrase of the language with this value, wherever the tokens
stand and but for positions in the value. -/
def Spells {α : Type} [Placed α] (G : Lang α) (signs : List Sign) (a : α) : Prop :=
  ∀ ts : List Token, ts.map Token.content = signs → ∃ a', G ts a' ∧ erase a' = erase a

theorem exists_token_of_map {ts : List Token} {k : Kind} {value : String} {signs : List Sign}
    (h : ts.map Token.content = (k, value) :: signs) :
    ∃ t us, ts = t :: us ∧ t.kind = k ∧ t.value = value ∧ us.map Token.content = signs := by
  obtain ⟨t, us, rfl, ht, hus⟩ := List.map_eq_cons_iff.1 h
  obtain ⟨hkind, hvalue⟩ := Prod.mk.inj ht
  exact ⟨t, us, rfl, hkind, hvalue, hus⟩

theorem exists_last_of_map {ts : List Token} {k : Kind} {value : String} {signs : List Sign}
    (h : ts.map Token.content = signs ++ [(k, value)]) :
    ∃ us t, ts = us ++ [t] ∧ us.map Token.content = signs ∧ t.kind = k := by
  obtain ⟨us, vs, rfl, hus, hvs⟩ := List.map_eq_append_iff.1 h
  obtain ⟨t, vs, rfl, ht, -, hnil⟩ := exists_token_of_map hvs
  obtain rfl := List.map_eq_nil_iff.1 hnil
  exact ⟨us, t, rfl, hus, ht⟩

namespace Spells

section Parts

variable {l : ExprLevel} {u v : List Sign} {e r : Expr} {p : Position}

theorem loosen {m : ExprLevel} (h : Spells (ExprPhrase l) u e) (hm : m.rank ≤ l.rank) :
    Spells (ExprPhrase m) u e := by
  intro ts hts
  obtain ⟨e', he', herase⟩ := h ts hts
  exact ⟨e', he'.loosen hm, herase⟩

theorem expression (h : Spells (ExprPhrase l) u e) : Spells Expression u e :=
  h.loosen l.one_le_rank

/-- **An expression fits its slot**, with parentheses if need be. -/
theorem fitted {slot : ExprLevel} (hslot : slot.rank ≤ 11) (h : Spells (ExprPhrase l) u e) :
    Spells (ExprPhrase slot) (inSlot slot l u) e := by
  unfold inSlot
  split
  · intro ts hts
    obtain ⟨o, us, rfl, ho, -, hus⟩ := exists_token_of_map hts
    obtain ⟨w, c, rfl, hw, hc⟩ := exists_last_of_map hus
    obtain ⟨e', he', herase⟩ := h w hw
    have hparens : ExprPhrase .base (o :: (w ++ [c])) e' :=
      .parens ho (he'.loosen l.one_le_rank) hc
    exact ⟨e', hparens.loosen (Nat.le_succ_of_le hslot), herase⟩
  · exact h.loosen (by omega)

theorem binary {op : BinaryOp} (hl : Spells (ExprPhrase op.leftSlot) u e)
    (hr : Spells (ExprPhrase op.rightSlot) v r) :
    Spells (ExprPhrase op.level) (u ++ op.kind.sign :: v) (.binary p op e r) := by
  intro ts hts
  obtain ⟨w, us, rfl, hw, hus⟩ := List.map_eq_append_iff.1 hts
  obtain ⟨t, x, rfl, ht, -, hx⟩ := exists_token_of_map hus
  obtain ⟨l', hl', hlerase⟩ := hl w hw
  obtain ⟨r', hr', hrerase⟩ := hr x hx
  refine ⟨_, hl'.binary ht hr', ?_⟩
  show Expr.binary _ op (erase l') (erase r') = Expr.binary _ op (erase e) (erase r)
  rw [hlerase, hrerase]

/-- An operator in front of its operand; `make` is what it makes of it. -/
theorem behind {k : Kind} (make : Position → Expr → Expr)
    (hmake : ∀ t w e', t.kind = k → ExprPhrase .signed w e' →
      ExprPhrase .signed (t :: w) (make t.position e'))
    (herase : ∀ q e', erase (make q e') = make .start (erase e'))
    (h : Spells (ExprPhrase .signed) u e) :
    Spells (ExprPhrase .signed) (k.sign :: u) (make p e) := by
  intro ts hts
  obtain ⟨t, w, rfl, ht, -, hw⟩ := exists_token_of_map hts
  obtain ⟨e', he', heq⟩ := h w hw
  refine ⟨_, hmake t w e' ht he', ?_⟩
  rw [herase, herase, heq]

theorem unary {op : UnaryOp} (h : Spells (ExprPhrase .signed) u e) :
    Spells (ExprPhrase .signed) (op.kind.sign :: u) (.unary p op e) := by
  refine behind (fun q e' => .unary q op e') (fun t w e' ht he' => ?_) (fun _ _ => rfl) h
  cases op with
  | neg => exact .negative ht he'
  | not => exact .not ht he'

theorem stepBefore {op : StepOp} (h : Spells (ExprPhrase .signed) u e) :
    Spells (ExprPhrase .signed) (op.kind.sign :: u) (.step p op .before e) := by
  refine behind (fun q e' => .step q op .before e') (fun t w e' ht he' => ?_) (fun _ _ => rfl) h
  cases op with
  | incr => exact .preIncr ht he'
  | decr => exact .preDecr ht he'

theorem stepAfter {op : StepOp} (h : Spells (ExprPhrase .primary) u e) :
    Spells (ExprPhrase .stepped) (u ++ [op.kind.sign]) (.step p op .after e) := by
  intro ts hts
  obtain ⟨w, t, rfl, hw, ht⟩ := exists_last_of_map hts
  obtain ⟨e', he', herase⟩ := h w hw
  have hphrase : ExprPhrase .stepped (w ++ [t]) (.step e'.position op .after e') := by
    cases op with
    | incr => exact .postIncr he' ht
    | decr => exact .postDecr he' ht
  refine ⟨_, hphrase, ?_⟩
  show Expr.step _ op .after (erase e') = Expr.step _ op .after (erase e)
  rw [herase]

end Parts

/-! ### Names and types -/

section Names

theorem wordKind_of_isName {name : String} (h : isName name = true) :
    wordKind name = .identifier := by
  have hnone : reservedKind? name = none := by
    unfold isName at h
    simpa using (Bool.and_eq_true_iff.1 h).2
  rw [wordKind, hnone]
  rfl

/-- The brackets of an array type are no part of a name. -/
theorem not_suffix_of_isName {name : String} (h : isName name = true) :
    ¬ ['[', ']'] <:+ name.toList := by
  intro hsuffix
  have hword : IsWord name.toList := by
    unfold isName at h
    simpa using (Bool.and_eq_true_iff.1 h).1
  have hmem : ']' ∈ name.toList := hsuffix.mem (by decide)
  cases hname : name.toList with
  | nil =>
    rw [hname] at hmem
    cases hmem
  | cons c cs =>
    rw [hname] at hmem hword
    obtain ⟨hletter, htail⟩ := hword
    rcases List.mem_cons.1 hmem with rfl | hmem
    · exact absurd (show isLetter ']' = true from hletter) (by decide)
    · exact absurd (List.all_eq_true.1 htail _ hmem) (by decide)

theorem typeName {type : String} (h : isTypeName type = true) :
    Spells TypePhrase (typeSigns type) type := by
  intro ts hts
  unfold typeSigns at hts
  rcases Bool.or_eq_true_iff.1 h with hname | harray
  · rw [if_neg (not_suffix_of_isName hname)] at hts
    obtain ⟨t, us, rfl, ht, hvalue, hnil⟩ := exists_token_of_map hts
    obtain rfl := List.map_eq_nil_iff.1 hnil
    rw [wordKind_of_isName hname] at ht
    exact ⟨_, .plain ht, hvalue⟩
  · rw [Bool.and_eq_true_iff, decide_eq_true_eq] at harray
    obtain ⟨hsuffix, hname⟩ := harray
    rw [if_pos hsuffix] at hts
    obtain ⟨t, us, rfl, ht, hvalue, hus⟩ := exists_token_of_map hts
    obtain ⟨o, us, rfl, ho, -, hus⟩ := exists_token_of_map hus
    obtain ⟨c, us, rfl, hc, -, hnil⟩ := exists_token_of_map hus
    obtain rfl := List.map_eq_nil_iff.1 hnil
    rw [wordKind_of_isName hname] at ht
    refine ⟨_, .array ht ho hc, ?_⟩
    show t.value ++ "[]" = type
    obtain ⟨base, hbase⟩ := hsuffix
    rw [hvalue, ← hbase, ← String.toList_inj, String.toList_append, String.toList_ofList,
      show (base ++ ['[', ']']).rdrop 2 = base from List.rdrop_append_length, ← hbase]
    rfl

end Names

/-! ### Operands of other kinds -/

section Operands

variable {u v : List Sign} {e : Expr} {p : Position} {type name : String}

theorem instanceOf (h : Spells (ExprPhrase .sum) u e) (ht : isTypeName type = true) :
    Spells (ExprPhrase .comparison) (u ++ Kind.instanceofWord.sign :: typeSigns type)
      (.instanceOf p e type) := by
  intro ts hts
  obtain ⟨w, us, rfl, hw, hus⟩ := List.map_eq_append_iff.1 hts
  obtain ⟨t, x, rfl, hkind, -, hx⟩ := exists_token_of_map hus
  obtain ⟨e', he', herase⟩ := h w hw
  obtain ⟨_, htype, rfl⟩ := typeName ht x hx
  refine ⟨_, .instanceOf he' hkind htype, ?_⟩
  show Expr.instanceOf _ (erase e') _ = Expr.instanceOf _ (erase e) _
  rw [herase]
  rfl

theorem newObject (hn : isName type = true) :
    Spells (ExprPhrase .operand) (Kind.newWord.sign :: wordSign type :: sizeSigns none)
      (.new p type none) := by
  intro ts hts
  obtain ⟨t, us, rfl, ht, -, hus⟩ := exists_token_of_map hts
  obtain ⟨n, us, rfl, hkind, hvalue, hus⟩ := exists_token_of_map hus
  obtain ⟨o, us, rfl, ho, -, hus⟩ := exists_token_of_map hus
  obtain ⟨c, us, rfl, hc, -, hnil⟩ := exists_token_of_map hus
  obtain rfl := List.map_eq_nil_iff.1 hnil
  rw [wordKind_of_isName hn] at hkind
  refine ⟨_, .newObject ht hkind ho hc, ?_⟩
  rw [hvalue]
  rfl

theorem newArray (hn : isName type = true) (h : Spells Expression e.signs e) :
    Spells (ExprPhrase .operand) (Kind.newWord.sign :: wordSign type :: sizeSigns (some e))
      (.new p type (some e)) := by
  intro ts hts
  obtain ⟨t, us, rfl, ht, -, hus⟩ := exists_token_of_map hts
  obtain ⟨n, us, rfl, hkind, hvalue, hus⟩ := exists_token_of_map hus
  obtain ⟨o, us, rfl, ho, -, hus⟩ := exists_token_of_map hus
  obtain ⟨w, c, rfl, hw, hc⟩ := exists_last_of_map hus
  obtain ⟨e', he', herase⟩ := h w hw
  rw [wordKind_of_isName hn] at hkind
  refine ⟨_, .newArray ht hkind ho he' hc, ?_⟩
  show Expr.new _ n.value (some (erase e')) = Expr.new _ type (some (erase e))
  rw [herase, hvalue]

theorem cast (ht : isTypeName type = true) (h : Spells Expression u e) :
    Spells (ExprPhrase .operand) (Kind.castWord.sign :: Kind.openParen.sign :: (typeSigns type ++
      Kind.comma.sign :: (u ++ [Kind.closeParen.sign]))) (.cast p type e) := by
  intro ts hts
  obtain ⟨t, us, rfl, hkind, -, hus⟩ := exists_token_of_map hts
  obtain ⟨o, us, rfl, ho, -, hus⟩ := exists_token_of_map hus
  obtain ⟨x, us, rfl, hx, hus⟩ := List.map_eq_append_iff.1 hus
  obtain ⟨m, us, rfl, hm, -, hus⟩ := exists_token_of_map hus
  obtain ⟨w, c, rfl, hw, hc⟩ := exists_last_of_map hus
  obtain ⟨type', htype, hsame⟩ := typeName ht x hx
  obtain ⟨e', he', herase⟩ := h w hw
  refine ⟨_, .cast hkind ho htype hm he' hc, ?_⟩
  show Expr.cast _ (erase type') (erase e') = Expr.cast _ (erase type) (erase e)
  rw [herase, hsame]

/-! ### Chains -/

theorem nothing : Spells (SuffixPhrase Expression) [] .nothing := by
  intro ts hts
  obtain rfl := List.map_eq_nil_iff.1 hts
  exact ⟨_, .nothing, rfl⟩

theorem index (h : Spells Expression u e) :
    Spells (SuffixPhrase Expression)
      (Kind.openBracket.sign :: (u ++ [Kind.closeBracket.sign])) (.index e) := by
  intro ts hts
  obtain ⟨o, us, rfl, ho, -, hus⟩ := exists_token_of_map hts
  obtain ⟨w, c, rfl, hw, hc⟩ := exists_last_of_map hus
  obtain ⟨e', he', herase⟩ := h w hw
  exact ⟨_, .index ho he' hc, congrArg Suffix.index herase⟩

/-- Arguments with commas between them, one at least. -/
theorem separated {es : List Expr} (hne : es ≠ []) (h : ∀ e ∈ es, Spells Expression e.signs e) :
    Spells (Separated Expression) ([Kind.comma.sign].intercalate (argumentSigns es)) es := by
  induction es with
  | nil => exact absurd rfl hne
  | cons e es ih =>
    obtain ⟨he, hes⟩ := List.forall_mem_cons.1 h
    intro ts hts
    cases es with
    | nil =>
      have hone : ts.map Token.content = e.signs := by
        simpa [argumentSigns, List.intercalate] using hts
      obtain ⟨e', he', herase⟩ := he ts hone
      refine ⟨_, .one he', ?_⟩
      show [erase e'] = [erase e]
      rw [herase]
    | cons e₂ es =>
      have hmore : ts.map Token.content = e.signs ++ Kind.comma.sign ::
          [Kind.comma.sign].intercalate (argumentSigns (e₂ :: es)) := by
        simpa [argumentSigns, List.intercalate] using hts
      obtain ⟨w, us, rfl, hw, hus⟩ := List.map_eq_append_iff.1 hmore
      obtain ⟨t, x, rfl, ht, -, hx⟩ := exists_token_of_map hus
      obtain ⟨e', he', herase⟩ := he w hw
      obtain ⟨es', hes', heserase⟩ := ih (List.cons_ne_nil _ _) hes x hx
      refine ⟨_, .more he' ht hes', ?_⟩
      show erase e' :: erase es' = erase e :: erase (e₂ :: es)
      rw [herase, heserase]

theorem arguments {es : List Expr} (h : ∀ e ∈ es, Spells Expression e.signs e) :
    Spells (SuffixPhrase Expression) (Kind.openParen.sign ::
      ([Kind.comma.sign].intercalate (argumentSigns es) ++ [Kind.closeParen.sign]))
      (.arguments es) := by
  intro ts hts
  obtain ⟨o, us, rfl, ho, -, hus⟩ := exists_token_of_map hts
  obtain ⟨w, c, rfl, hw, hc⟩ := exists_last_of_map hus
  have hlisted : ∃ es', Listed Expression w es' ∧ erase es' = erase es := by
    by_cases hnil : es = []
    · subst hnil
      obtain rfl := List.map_eq_nil_iff.1 hw
      exact ⟨[], .none, rfl⟩
    · obtain ⟨es', hes', herase⟩ := separated hnil h w hw
      exact ⟨es', .some hes', herase⟩
  obtain ⟨es', hes', herase⟩ := hlisted
  exact ⟨_, .arguments ho hes' hc, congrArg Suffix.arguments herase⟩

/-- A name with what follows it, behind its receiver if it has one. -/
theorem chain {receiver : Option Expr} {s : Suffix}
    (hreceiver : ∀ r ∈ receiver, Spells (ExprPhrase .primary) (inSlot .primary r.level r.signs) r)
    (hn : isName name = true) (hs : Spells (SuffixPhrase Expression) v s) :
    Spells (ExprPhrase .primary) (receiverSigns receiver ++ wordSign name :: v)
      (s.attach p receiver name) := by
  intro ts hts
  cases receiver with
  | none =>
    obtain ⟨t, x, rfl, ht, hvalue, hx⟩ := exists_token_of_map hts
    rw [wordKind_of_isName hn] at ht
    obtain ⟨s', hs', hserase⟩ := hs x hx
    refine ⟨_, .chain (.start (.name ht hs')), ?_⟩
    rw [Suffix.erase_attach, Suffix.erase_attach, hserase, hvalue]
  | some r =>
    rw [receiverSigns, List.append_assoc] at hts
    obtain ⟨w, us, rfl, hw, hus⟩ := List.map_eq_append_iff.1 hts
    obtain ⟨t, us, rfl, ht, -, hus⟩ := exists_token_of_map hus
    obtain ⟨n, x, rfl, hkind, hvalue, hx⟩ := exists_token_of_map hus
    rw [wordKind_of_isName hn] at hkind
    obtain ⟨r', hr', hrerase⟩ := hreceiver r rfl w hw
    obtain ⟨s', hs', hserase⟩ := hs x hx
    cases hr' with
    | chain hr' =>
      refine ⟨_, .chain (.dot hr' ht hkind hs'), ?_⟩
      have hsome : erase (some r') = erase (some r) := congrArg some hrerase
      rw [Suffix.erase_attach, Suffix.erase_attach, hserase, hvalue, hsome]

/-- A variable, and the words that can be used like one. -/
theorem var {receiver : Option Expr}
    (hreceiver : ∀ r ∈ receiver, Spells (ExprPhrase .primary) (inSlot .primary r.level r.signs) r)
    (hn : isVariable receiver name = true) :
    Spells (ExprPhrase .primary) (receiverSigns receiver ++ [wordSign name])
      (.var p receiver name) := by
  rcases Bool.or_eq_true_iff.1 hn with hname | hself
  · exact chain hreceiver hname nothing
  · rw [Bool.and_eq_true_iff, Option.isNone_iff_eq_none, Bool.or_eq_true_iff, beq_iff_eq,
      beq_iff_eq] at hself
    obtain ⟨rfl, hself⟩ := hself
    intro ts hts
    obtain ⟨t, us, rfl, ht, hvalue, hnil⟩ := exists_token_of_map hts
    obtain rfl := List.map_eq_nil_iff.1 hnil
    have hphrase : ExprPhrase .base [t] (.var t.position none t.value) := by
      rcases hself with rfl | rfl
      · exact .this ht
      · exact .super ht
    refine ⟨_, hphrase.loosen (Nat.le_succ 11), ?_⟩
    rw [hvalue]
    rfl

/-- **An assignment to a variable or an element.** -/
theorem assign {target value : Expr} (ht : Spells (ExprPhrase .primary) u target)
    (hv : Spells Expression v value) (he : ∀ leading, target.assignTo leading value = e) :
    Spells Expression (u ++ Kind.assignment.sign :: v) e := by
  intro ts hts
  obtain ⟨w, us, rfl, hw, hus⟩ := List.map_eq_append_iff.1 hts
  obtain ⟨t, x, rfl, hkind, -, hx⟩ := exists_token_of_map hus
  obtain ⟨target', htarget, hterase⟩ := ht w hw
  obtain ⟨value', hvalue, hverase⟩ := hv x hx
  have hleft : ExprPhrase .disjunction w target' := htarget.loosen (by decide)
  cases w with
  | nil => exact absurd hleft (not_disjunction_nil target')
  | cons first w =>
    refine ⟨_, .assign hleft hkind hvalue (assigns_iff.2 rfl), ?_⟩
    rw [← he first.value]
    show Placed.relocate _ _ = Placed.relocate _ _
    rw [Expr.relocate_assignTo, Expr.relocate_assignTo]
    show (erase target').assignTo _ (erase value') = (erase target).assignTo _ (erase value)
    rw [hterase, hverase]

/-! ### Constants -/

theorem constant {k : Kind} {value : String} (h : ∀ t : Token, t.kind = k → t.value = value →
    ∃ e', ExprPhrase .base [t] e' ∧ erase e' = erase e) :
    Spells (ExprPhrase .primary) [(k, value)] e := by
  intro ts hts
  obtain ⟨t, us, rfl, ht, hvalue, hnil⟩ := exists_token_of_map hts
  obtain rfl := List.map_eq_nil_iff.1 hnil
  obtain ⟨e', he', herase⟩ := h t ht hvalue
  exact ⟨e', he'.loosen (Nat.le_succ 11), herase⟩

end Operands

end Spells

/-! ### Expressions -/

mutual

/-- **The signs of a regular expression spell it**, as a phrase of its level. -/
theorem Expr.spells : ∀ e : Expr, e.isRegular = true → Spells (ExprPhrase e.level) e.signs e
  | .assign p receiver name value, h => by
    simp only [Expr.isRegular, Bool.and_eq_true] at h
    obtain ⟨⟨hname, hreceiver⟩, hvalue⟩ := h
    have htarget : Spells (ExprPhrase .primary) (receiverSigns receiver ++ [wordSign name])
        (.var p receiver name) := .var (receiver_spells receiver hreceiver) hname
    have hassign := htarget.assign ((Expr.spells value hvalue).expression)
      fun _ => rfl
    rw [List.append_assoc] at hassign
    exact hassign
  | .assignElement p receiver name index value, h => by
    simp only [Expr.isRegular, Bool.and_eq_true] at h
    obtain ⟨⟨⟨hname, hreceiver⟩, hindex⟩, hvalue⟩ := h
    have htarget : Spells (ExprPhrase .primary) _ (.element p receiver name index) :=
      .chain (receiver_spells receiver hreceiver) hname
        (.index ((Expr.spells index hindex).expression))
    have hassign := htarget.assign ((Expr.spells value hvalue).expression)
      fun _ => rfl
    simpa [Expr.signs, Expr.level] using hassign
  | .binary p op left right, h => by
    simp only [Expr.isRegular, Bool.and_eq_true] at h
    have hslots : op.leftSlot.rank ≤ 11 ∧ op.rightSlot.rank ≤ 11 := by cases op <;> decide
    exact ((Expr.spells left h.1).fitted hslots.1).binary
      ((Expr.spells right h.2).fitted hslots.2)
  | .instanceOf p operand type, h => by
    simp only [Expr.isRegular, Bool.and_eq_true] at h
    exact ((Expr.spells operand h.1).fitted (by decide)).instanceOf h.2
  | .unary p op operand, h => ((Expr.spells operand h).fitted (by decide)).unary
  | .step p op .before operand, h => ((Expr.spells operand h).fitted (by decide)).stepBefore
  | .step p op .after operand, h => ((Expr.spells operand h).fitted (by decide)).stepAfter
  | .new p type size, h => by
    simp only [Expr.isRegular, Bool.and_eq_true] at h
    exact size_spells p type size h.1 h.2
  | .cast p type operand, h => by
    simp only [Expr.isRegular, Bool.and_eq_true] at h
    exact .cast h.1 ((Expr.spells operand h.2).expression)
  | .var p receiver name, h => by
    simp only [Expr.isRegular, Bool.and_eq_true] at h
    exact .var (receiver_spells receiver h.2) h.1
  | .element p receiver name index, h => by
    simp only [Expr.isRegular, Bool.and_eq_true] at h
    obtain ⟨⟨hname, hreceiver⟩, hindex⟩ := h
    exact .chain (receiver_spells receiver hreceiver) hname
      (.index ((Expr.spells index hindex).expression))
  | .call p receiver method args, h => by
    simp only [Expr.isRegular, Bool.and_eq_true] at h
    obtain ⟨⟨hname, hreceiver⟩, hargs⟩ := h
    exact .chain (receiver_spells receiver hreceiver) hname (.arguments (arguments_spell args hargs))
  | .int p value, h => by
    obtain ⟨hzero, hmax⟩ := of_decide_eq_true h
    refine .constant fun t ht hvalue => ⟨_, .integer ht ?_, rfl⟩
    rw [hvalue, readInteger?_toString (by omega), Int.toNat_of_nonneg hzero]
  | .string p value, _ => .constant fun t ht hvalue => ⟨_, .string ht, by rw [hvalue]; rfl⟩
  | .bool p value, _ => by
    refine .constant fun t ht hvalue => ⟨_, .boolean ht, ?_⟩
    rw [hvalue]
    cases value <;> rfl

theorem receiver_spells : ∀ receiver : Option Expr, regularOptional receiver = true →
    ∀ r ∈ receiver, Spells (ExprPhrase .primary) (inSlot .primary r.level r.signs) r
  | none, _ => nofun
  | some e, h => by
    intro r hr
    obtain rfl := Option.some.inj hr
    exact (Expr.spells e h).fitted (by decide)

theorem size_spells (p : Position) (type : String) : ∀ size : Option Expr, isName type = true →
    regularOptional size = true →
    Spells (ExprPhrase .operand) (Kind.newWord.sign :: wordSign type :: sizeSigns size)
      (.new p type size)
  | none, htype, _ => .newObject htype
  | some e, htype, h => .newArray htype ((Expr.spells e h).expression)

theorem arguments_spell : ∀ args : List Expr, regularArguments args = true →
    ∀ e ∈ args, Spells Expression e.signs e
  | [], _ => nofun
  | e :: es, h => by
    simp only [regularArguments, Bool.and_eq_true] at h
    exact List.forall_mem_cons.2
      ⟨(Expr.spells e h.1).expression, arguments_spell es h.2⟩

end

/-- The kinds of tokens that continue an expression. -/
def continuing : List Kind :=
  [.dot, .openParen, .openBracket, .plusPlus, .minusMinus, .star, .slash, .percent, .plus, .dash,
    .less, .greater, .lessEquals, .greaterEquals, .instanceofWord, .equals, .notEquals, .and, .or,
    .assignment]

theorem tightness_eq_zero {k : Kind} (h : k ∉ continuing) : k.tightness = 0 := by
  cases k <;> first | rfl | exact absurd (by decide) h

/-- **What is printed is read back.** Let the tokens in front of a cursor say what is
printed for a regular expression, and let no token that continues an expression follow
them. Then the parser of expressions succeeds with that expression, but for positions; it
consumes these tokens and no others, comes to stand in front of what follows them, and
reports nothing but faulty lexemes that it passes. -/
theorem expr_reads_printed (e : Expr) (he : e.isRegular = true) (c : Cursor)
    (ts rest : List Token) (hts : ts.map Token.content = e.signs) (hc : c.upcoming = ts ++ rest)
    (hrest : ∀ t ∈ rest.head?, t.kind ∉ continuing) :
    let reply := Parser.expr c
    (∃ e', reply.outcome = .ok e' ∧ erase e' = erase e) ∧
    consumedIn reply.events = ts ∧ reply.cursor = c.after ts.length ∧
    reply.cursor.upcoming = rest ∧
    c.pending = faultsIn reply.events ++ reply.cursor.pending := by
  intro reply
  obtain ⟨e', he', herase⟩ := (e.spells he).expression ts hts
  have hends : Ends 1 rest.head? := by
    intro t ht
    rw [tightness_eq_zero (hrest t ht)]
    decide
  obtain ⟨houtcome, hconsumed⟩ := Parser.expr_complete he' hends hc
  have hreaches := Parser.expr.reaches c
  refine ⟨⟨e', houtcome, herase⟩, hconsumed, ?_, ?_, (Parser.quiet_expr c).symm⟩
  · rw [hreaches.cursor, hconsumed]
  · have htokens := hreaches.tokens
    rw [hconsumed, hc] at htokens
    exact (List.append_cancel_left htokens).symm

/-- Differences on the right of a difference, a new object as a receiver, and an equality
in an equality, with a stray character among the tokens. -/
theorem expr_reads_printed_nested :
    let field : Expr := .var ⟨1, 1⟩ (some (.new ⟨1, 1⟩ "A" none)) "f"
    let e : Expr := .assign ⟨1, 1⟩ none "x" (.binary ⟨1, 1⟩ .eq
      (.binary ⟨1, 1⟩ .minus (.int ⟨1, 1⟩ 1) (.binary ⟨1, 1⟩ .minus (.int ⟨1, 1⟩ 2) field))
      (.binary ⟨1, 1⟩ .eq (.var ⟨1, 1⟩ none "this") (.string ⟨1, 1⟩ "s")))
    let ts : List Token := [⟨.identifier, "x", ⟨2, 1⟩⟩, ⟨.assignment, "=", ⟨2, 3⟩⟩,
      ⟨.number, "1", ⟨2, 5⟩⟩, ⟨.dash, "-", ⟨2, 7⟩⟩, ⟨.openParen, "(", ⟨2, 9⟩⟩,
      ⟨.number, "2", ⟨2, 10⟩⟩, ⟨.dash, "-", ⟨2, 12⟩⟩, ⟨.openParen, "(", ⟨2, 14⟩⟩,
      ⟨.newWord, "new", ⟨2, 15⟩⟩, ⟨.identifier, "A", ⟨2, 19⟩⟩, ⟨.openParen, "(", ⟨2, 20⟩⟩,
      ⟨.closeParen, ")", ⟨2, 21⟩⟩, ⟨.closeParen, ")", ⟨2, 22⟩⟩, ⟨.dot, ".", ⟨2, 23⟩⟩,
      ⟨.identifier, "f", ⟨2, 24⟩⟩, ⟨.closeParen, ")", ⟨2, 25⟩⟩, ⟨.equals, "==", ⟨2, 27⟩⟩,
      ⟨.openParen, "(", ⟨2, 30⟩⟩, ⟨.thisWord, "this", ⟨2, 31⟩⟩, ⟨.equals, "==", ⟨2, 36⟩⟩,
      ⟨.string, "s", ⟨2, 39⟩⟩, ⟨.closeParen, ")", ⟨2, 42⟩⟩]
    let stray : Fault := ⟨.unrecognised "#", ⟨2, 43⟩⟩
    let next : Token := ⟨.semicolon, ";", ⟨2, 44⟩⟩
    let c := (Cursor.ofSource ⟨ts.map .token ++ [.fault stray, .token next],
      .atEnd ⟨2, 45⟩, rfl⟩).1
    (∃ e', (Parser.expr c).outcome = .ok e' ∧ erase e' = erase e) ∧
    consumedIn (Parser.expr c).events = ts ∧ (Parser.expr c).cursor.upcoming = [next] ∧
    [stray] = faultsIn (Parser.expr c).events ++ (Parser.expr c).cursor.pending := by
  intro field e ts stray next c
  have hregular : e.isRegular = true := by decide +kernel
  have hsigns : ts.map Token.content = e.signs := by decide +kernel
  have hupcoming : c.upcoming = ts ++ [next] := by decide +kernel
  have hnext : ∀ t ∈ [next].head?, t.kind ∉ continuing := by decide +kernel
  obtain ⟨houtcome, hconsumed, -, hrest, hfaults⟩ :=
    expr_reads_printed e hregular c ts [next] hsigns hupcoming hnext
  exact ⟨houtcome, hconsumed, hrest, hfaults⟩

end BantamJava
