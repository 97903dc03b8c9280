/-
# The names and constants of a program

Whatever a text is, the program that is parsed from it is well-formed: what is used as a name
in it is an identifier, what is used as a type is an identifier or an array of one, integers
have no sign and are in range, and string constants hold no carriage return but behind a
backslash. This also holds of what is left of a text with faults.

The one exception is the assignment to something that is neither a variable nor an element. It
keeps the first token of its target only, and that may be any token (`Captured`).

The tokens of a text have values that their kinds admit (`Source.admits_of_text`). Every node
was made from an interval of the tokens (`Transcript.Derives`), and each name in it is the value
of a token there whose kind is known. For expressions the grammar is gone through level by
level: a phrase of one level may be one of the next, and where a parenthesis leads back to the
loosest level the phrase inside of it is shorter (`ExprPhrase.wellFormed`).

Key definitions: `Captured`, `Expr.WellFormed`, `Node.WellFormed`.
Key theorems: `ExprPhrase.wellFormed`, `Transcript.Derives.wellFormed`,
`Source.admits_of_text`, `parse_wellFormed`.
-/
import BantamJava.Proofs.Positions.Program
import BantamJava.Proofs.Printing.Basic

namespace BantamJava

/-! ### Well-formed nodes -/

/-- Among the tokens is the assignment of `value` to a target that is neither a variable nor
an element. It is where its target is, and goes by the value of the first token. -/
inductive Captured (ts : List Token) (value : Expr) : Position → String → Prop where
  | mk {first t : Token} {w v : List Token} {target : Expr}
      (hinside : first :: (w ++ t :: v) <:+: ts)
      (htarget : ExprPhrase .disjunction (first :: w) target) (ht : t.kind = .assignment)
      (hvalue : Expression v value)
      (hvar : ∀ p receiver name, target ≠ .var p receiver name)
      (helement : ∀ p receiver name index, target ≠ .element p receiver name index) :
      Captured ts value target.position first.value

/-- The names, types and constants that the node itself holds are well-formed. -/
def Expr.WellFormed (ts : List Token) : Expr → Prop
  | .assign p receiver name value =>
    isVariable receiver name = true ∨ receiver = none ∧ Captured ts value p name
  | .var _ receiver name => isVariable receiver name = true
  | .assignElement _ _ name _ _ | .element _ _ name _ | .call _ _ name _ | .new _ name _ =>
    isName name = true
  | .instanceOf _ _ type | .cast _ type _ => isTypeName type = true
  | .int _ value => 0 ≤ value ∧ value ≤ maxInteger
  | .string _ value => ReturnsEscaped value.toList
  | .binary .. | .unary .. | .step .. | .bool .. => True

/-- The same, for nodes of every kind. -/
def Node.WellFormed (ts : List Token) : Node → Prop
  | .ofClass c => isName c.name = true ∧ ∀ parent ∈ c.parent, isName parent = true
  | .ofMember (.field f) => isTypeName f.typeName = true ∧ isName f.name = true
  | .ofMember (.method m) => isTypeName m.returnType = true ∧ isName m.name = true
  | .ofFormal f => isTypeName f.typeName = true ∧ isName f.name = true
  | .ofStmt (.declare _ name _) => isName name = true
  | .ofStmt _ | .ofBlock _ => True
  | .ofExpr e => e.WellFormed ts

/-! ### Values of tokens -/

section Values

variable {t : Token}

theorem isName_of_identifier (h : t.kind.Admits t.value) (hk : t.kind = .identifier) :
    isName t.value = true := by
  obtain ⟨kind, value, position⟩ := t
  obtain rfl : kind = .identifier := hk
  cases h with
  | fixed hfixed _ => cases hfixed
  | identifier hword hfree => simp [isName, hword, hfree]

theorem isVariable_of_isName {name : String} (h : isName name = true) (receiver : Option Expr) :
    isVariable receiver name = true := by
  simp [isVariable, h]

/-- Without a receiver, `this` and `super` are variables. -/
theorem isVariable_of_word (h : t.kind.Admits t.value)
    (hk : t.kind = .thisWord ∨ t.kind = .superWord) : isVariable none t.value = true := by
  obtain ⟨kind, value, position⟩ := t
  have hwords : ∀ k ∈ [Kind.thisWord, .superWord], isVariable none k.describe = true := by decide
  cases h with
  | fixed _ hvalue =>
    rw [hvalue]
    exact hwords kind (by simpa using hk)
  | _ => cases hk <;> contradiction

theorem returnsEscaped_of_string (h : t.kind.Admits t.value) (hk : t.kind = .string) :
    ReturnsEscaped t.value.toList := by
  obtain ⟨kind, value, position⟩ := t
  obtain rfl : kind = .string := hk
  cases h with
  | fixed hfixed _ => cases hfixed
  | string hreturns => exact hreturns

theorem signedValue?_nonneg {cs : List Char} {n : Int} (h : ∀ c ∈ cs, isDigit c = true)
    (hn : signedValue? cs = some n) : 0 ≤ n := by
  cases cs with
  | nil => cases hn
  | cons c cs =>
    have hminus : c ≠ '-' := by
      rintro rfl
      exact absurd (h _ List.mem_cons_self) (by decide)
    have hplus : c ≠ '+' := by
      rintro rfl
      exact absurd (h _ List.mem_cons_self) (by decide)
    rw [signedValue?, if_neg hminus, if_neg hplus] at hn
    cases hvalue : digitsValue? (c :: cs) with
    | none =>
      rw [hvalue] at hn
      cases hn
    | some m =>
      rw [hvalue] at hn
      obtain rfl := Option.some.inj hn
      exact Int.natCast_nonneg m

/-- A number has no sign. -/
theorem integer_of_number (h : t.kind.Admits t.value) (hk : t.kind = .number) {n : Int}
    (hn : readInteger? t.value = some n) : 0 ≤ n ∧ n ≤ maxInteger := by
  obtain ⟨kind, value, position⟩ := t
  obtain rfl : kind = .number := hk
  obtain ⟨hsigned, hrange⟩ := Option.filter_eq_some_iff.1 hn
  cases h with
  | fixed hfixed _ => cases hfixed
  | number _ hdigits =>
    exact ⟨signedValue?_nonneg hdigits hsigned, (of_decide_eq_true hrange).2⟩

theorem isTypeName_of_typePhrase {w : List Token} {type : String} (h : TypePhrase w type)
    (hw : ∀ t ∈ w, t.kind.Admits t.value) : isTypeName type = true := by
  cases h with
  | plain ht => simp [isTypeName, isName_of_identifier (hw _ (by simp)) ht]
  | @array t o c ht _ _ =>
    have hname := isName_of_identifier (hw _ (by simp)) ht
    have hlist : (t.value ++ "[]").toList = t.value.toList ++ ['[', ']'] := String.toList_append
    have hdrop : (t.value.toList ++ ['[', ']']).rdrop 2 = t.value.toList := List.rdrop_append_length
    unfold isTypeName
    rw [hlist, hdrop, String.ofList_toList, hname, decide_eq_true (List.suffix_append _ _)]
    simp

end Values

/-! ### Expressions -/

theorem ExprLevel.rank_le (l : ExprLevel) : l.rank ≤ 12 := by
  cases l <;> decide

section Exprs

variable {ts w : List Token} {e : Expr} {D : Lang Expr} {op? : Kind → Option BinaryOp}

theorem Chain.wellFormed (hD : ∀ e, D w e → e.WellFormed ts) (h : Chain op? D w e) :
    e.WellFormed ts := by
  cases h with
  | first h => exact hD _ h
  | more _ _ _ => trivial

theorem Single.wellFormed (hD : ∀ e, D w e → e.WellFormed ts) (h : Single op? D w e) :
    e.WellFormed ts := by
  cases h with
  | one h => exact hD _ h
  | two _ _ _ => trivial

theorem Suffix.wellFormed_attach {name : String} (h : isName name = true) (p : Position)
    (receiver : Option Expr) (s : Suffix) : (s.attach p receiver name).WellFormed ts := by
  cases s with
  | nothing => exact isVariable_of_isName h receiver
  | arguments args => exact h
  | index i => exact h

theorem Dotted.wellFormed {B : Lang Expr} (hw : ∀ t ∈ w, t.kind.Admits t.value)
    (hB : ∀ e, B w e → e.WellFormed ts) (h : Dotted B D w e) : e.WellFormed ts := by
  cases h with
  | start h => exact hB _ h
  | dot _ _ hn _ => exact Suffix.wellFormed_attach (isName_of_identifier (hw _ (by simp)) hn) _ _ _

/-- A target that is well-formed makes a well-formed assignment. -/
theorem Assigns.wellFormed {first t : Token} {w v : List Token} {target value e : Expr}
    (h : Assigns first value target e) (hinside : first :: (w ++ t :: v) <:+: ts)
    (htarget : ExprPhrase .disjunction (first :: w) target) (ht : t.kind = .assignment)
    (hvalue : Expression v value) (hformed : target.WellFormed ts) : e.WellFormed ts := by
  cases h with
  | var => exact .inl hformed
  | element => exact hformed
  | other hvar helement => exact .inr ⟨rfl, .mk hinside htarget ht hvalue hvar helement⟩

/-- **The expression of a phrase is well-formed.** -/
theorem ExprPhrase.wellFormed {l : ExprLevel} (h : ExprPhrase l w e) (hinside : w <:+: ts)
    (hts : ∀ t ∈ ts, t.kind.Admits t.value) : e.WellFormed ts := by
  -- the phrase gets shorter, or the level tighter
  generalize hsize : 13 * w.length + 12 - l.rank = n
  induction n using Nat.strongRecOn generalizing l w e with
  | ind n ih =>
    have hw : ∀ t ∈ w, t.kind.Admits t.value := fun t ht => hts t (hinside.subset ht)
    have htighter : ∀ {l' e'}, l.rank < l'.rank → ExprPhrase l' w e' → e'.WellFormed ts := by
      intro l' e' hlt h
      have hle := l'.rank_le
      exact ih _ (by omega) h hinside rfl
    have hshorter : ∀ {l' w' e'}, w'.length < w.length → ExprPhrase l' w' e' → w' <:+: ts →
        e'.WellFormed ts := by
      intro l' w' e' hlt h hinside'
      have hle := l.rank_le
      exact ih _ (by omega) h hinside' rfl
    cases h with
    | plain h => exact htighter (by decide) h
    | @assign w v _ _ _ first t htarget ht hvalue hassigns =>
      have hfront : first :: w <:+: ts := List.IsInfix.trans ⟨[], t :: v, rfl⟩ hinside
      have hformed := hshorter (by simp) htarget hfront
      exact hassigns.wellFormed hinside htarget ht hvalue hformed
    | disjunction h => exact h.wellFormed fun _ => htighter (by decide)
    | conjunction h => exact h.wellFormed fun _ => htighter (by decide)
    | equality h => exact h.wellFormed fun _ => htighter (by decide)
    | comparison h => exact h.wellFormed fun _ => htighter (by decide)
    | instanceOf _ _ htype => exact isTypeName_of_typePhrase htype fun t ht => hw t (by simp [ht])
    | sum h => exact h.wellFormed fun _ => htighter (by decide)
    | product h => exact h.wellFormed fun _ => htighter (by decide)
    | newObject _ hn _ _ => exact isName_of_identifier (hw _ (by simp)) hn
    | newArray _ hn _ _ _ => exact isName_of_identifier (hw _ (by simp)) hn
    | cast _ _ htype _ _ _ => exact isTypeName_of_typePhrase htype fun t ht => hw t (by simp [ht])
    | signed h => exact htighter (by decide) h
    | unsigned h => exact htighter (by decide) h
    | unstepped h => exact htighter (by decide) h
    | chain h => exact h.wellFormed hw fun _ => htighter (by decide)
    | @parens w _ o c _ h _ =>
      have hlength : w.length < (o :: (w ++ [c])).length := by
        simp only [List.length_cons, List.length_append]
        omega
      exact hshorter hlength h (List.IsInfix.trans ⟨[o], [c], rfl⟩ hinside)
    | integer ht hn => exact integer_of_number (hw _ (by simp)) ht hn
    | string ht => exact returnsEscaped_of_string (hw _ (by simp)) ht
    | this ht => exact isVariable_of_word (hw _ (by simp)) (.inl ht)
    | super ht => exact isVariable_of_word (hw _ (by simp)) (.inr ht)
    | name ht _ => exact Suffix.wellFormed_attach (isName_of_identifier (hw _ (by simp)) ht) _ _ _
    -- operators with one operand, and truth values
    | _ => trivial

end Exprs

/-! ### Declarations -/

section Declarations

variable {ts w : List Token}

/-- A type and the name behind it. -/
theorem wellFormed_typed {v : List Token} {type : String} {t n : Token}
    (htype : TypePhrase (t :: w) type) (hn : n.kind = .identifier)
    (hw : ∀ s ∈ t :: (w ++ n :: v), s.kind.Admits s.value) :
    isTypeName type = true ∧ isName n.value = true := by
  have hfront : ∀ s ∈ t :: w, s.kind.Admits s.value := fun s hs =>
    hw s (List.mem_append_left (n :: v) hs)
  exact ⟨isTypeName_of_typePhrase htype hfront, isName_of_identifier (hw n (by simp)) hn⟩

theorem FormalPhrase.wellFormed {f : Formal} (h : FormalPhrase w f)
    (hw : ∀ t ∈ w, t.kind.Admits t.value) : (Node.ofFormal f).WellFormed ts := by
  cases h with
  | mk htype hn => exact wellFormed_typed htype hn hw

theorem MemberPhrase.wellFormed {m : Member} (h : MemberPhrase w m)
    (hw : ∀ t ∈ w, t.kind.Admits t.value) : (Node.ofMember m).WellFormed ts := by
  cases h with
  | field htype hn _ => exact wellFormed_typed htype hn hw
  | initialField htype hn _ _ _ => exact wellFormed_typed htype hn hw
  | method htype hn _ _ _ _ => exact wellFormed_typed htype hn hw

theorem StmtPhrase.wellFormed {s : Stmt} (h : StmtPhrase w s)
    (hw : ∀ t ∈ w, t.kind.Admits t.value) : (Node.ofStmt s).WellFormed ts := by
  cases h with
  | declare _ hn _ _ _ => exact isName_of_identifier (hw _ (by simp)) hn
  | _ => trivial

end Declarations

/-! ### Nodes -/

namespace Transcript

variable {T : Transcript} {i j : Nat}

theorem slice_inside (i j : Nat) : T.slice i j <:+: T.tokens :=
  (List.take_prefix _ _).isInfix.trans (List.drop_suffix _ _).isInfix

section Admits

variable (hT : ∀ t ∈ T.tokens, t.kind.Admits t.value)

include hT

theorem admits_slice : ∀ t ∈ T.slice i j, t.kind.Admits t.value :=
  fun t h => hT t ((slice_inside i j).subset h)

theorem Sign.isName {t : Token} (h : T.Sign .identifier i j t) : isName t.value = true :=
  isName_of_identifier (hT t (List.mem_of_getElem? h.token)) h.kind

theorem KeptClass.wellFormed {c : Class} (h : T.KeptClass i j c) :
    (Node.ofClass c).WellFormed T.tokens := by
  cases h with
  | plain _ hn _ => exact ⟨hn.isName hT, nofun⟩
  | extending _ hn _ hp _ =>
    refine ⟨hn.isName hT, fun parent hparent => ?_⟩
    obtain rfl := Option.some.inj hparent
    exact hp.isName hT

theorem KeptMember.wellFormed {m : Member} (h : T.KeptMember i j m) :
    (Node.ofMember m).WellFormed T.tokens := by
  cases h with
  | field h => exact h.derives.wellFormed (admits_slice hT)
  | method htype hn _ _ _ _ =>
    exact ⟨isTypeName_of_typePhrase htype.derives (admits_slice hT), hn.isName hT⟩

theorem KeptStmt.wellFormed {s : Stmt} (h : T.KeptStmt i j s) :
    (Node.ofStmt s).WellFormed T.tokens := by
  cases h with
  | simple _ h => exact h.derives.wellFormed (admits_slice hT)
  | _ => trivial

/-- **What is made from tokens of a text is well-formed.** -/
theorem Derives.wellFormed {x : Node} (h : T.Derives i j x) : x.WellFormed T.tokens := by
  cases x with
  | ofClass c => exact KeptClass.wellFormed hT h
  | ofMember m => exact KeptMember.wellFormed hT h
  | ofFormal f => exact (Phrase.derives h).wellFormed (admits_slice hT)
  | ofBlock b => trivial
  | ofStmt s => exact KeptStmt.wellFormed hT h
  | ofExpr e =>
    obtain ⟨-, -, l, hphrase⟩ := h
    exact hphrase.wellFormed (slice_inside i j) hT

end Admits

end Transcript

/-! ### Programs -/

theorem mem_items_of_mem_tokensAhead {items : List Item} {t : Token} (h : t ∈ tokensAhead items) :
    .token t ∈ items := by
  induction items with
  | nil => cases h
  | cons item items ih =>
    cases item with
    | fault f => exact List.mem_cons_of_mem _ (ih h)
    | token s =>
      rw [tokensAhead] at h
      split at h
      · cases h
      · rcases List.mem_cons.1 h with rfl | h
        · exact List.mem_cons_self
        · exact List.mem_cons_of_mem _ (ih h)

/-- **The tokens of a text have values that their kinds admit**, whatever else is in it. -/
theorem Source.admits_of_text (text file : String) :
    ∀ t ∈ (Source.ofText text file).tokens, t.kind.Admits t.value := by
  intro t ht
  obtain ⟨ls, htiles⟩ := (Reader.ofText text file).tiles_items
  exact htiles.admits (mem_items_of_mem_tokensAhead ht)

/-- **Every program is well-formed**, whatever is wrong with its text. The names of classes,
parents, members, parameters, variables, methods and elements and the types of new objects are
identifiers, and no reserved words; other types are identifiers or arrays of one. Only a
variable without a receiver may be `this` or `super`, and the same holds of the target of an
assignment, which without a receiver may also be the first token of something that is neither a
variable nor an element. Integers are from 0 to the greatest one, and in string constants every
carriage return is behind a backslash. -/
theorem parse_wellFormed (text file : String) :
    ∀ x ∈ (parse text file).program.nodes, x.WellFormed (Source.ofText text file).tokens := by
  intro x hx
  let source := Source.ofText text file
  let T : Transcript := ⟨source.tokens, source.last, (parse text file).diagnostics.map (·.fault)⟩
  have hclasses : Listing T.Derives 0 T.tokens.length
      ((parse text file).program.classes.map .ofClass) :=
    (Transcript.keeps_of_source file source).map Node.ofClass fun _ _ _ h => h
  obtain ⟨y, hy, hx⟩ := List.mem_flatMap.1 hx
  obtain ⟨_, _, -, -, hderives⟩ := hclasses.mem hy
  obtain ⟨i, _, j, -, -, hsits⟩ := hderives.nodes hx
  exact hsits.derives.wellFormed (Source.admits_of_text text file)

/-- The field and the `if` of this class are dropped. The assignment that is left goes by the
parenthesis in front of its target. -/
theorem parse_wellFormed_captured :
    let text := "class A{int x=);void f(){(b+1)=c;if(}}"
    let assigned : Node := .ofExpr (.assign ⟨1, 27⟩ none "(" (.var ⟨1, 32⟩ none "c"))
    assigned ∈ (parse text "A").program.nodes ∧
      assigned.WellFormed (Source.ofText text "A").tokens ∧
      Captured (Source.ofText text "A").tokens (.var ⟨1, 32⟩ none "c") ⟨1, 27⟩ "(" := by
  intro text assigned
  have hmem : assigned ∈ (parse text "A").program.nodes := by
    have hprog : (parse text "A").program = ⟨[⟨"A", none, [.method ⟨"void", "f", [],
        ⟨[.evaluate ⟨1, 26⟩ (.assign ⟨1, 27⟩ none "(" (.var ⟨1, 32⟩ none "c"))], ⟨1, 25⟩⟩,
        ⟨1, 17⟩⟩], ⟨1, 1⟩⟩], ⟨1, 1⟩⟩ := by
      decide +kernel
    -- from the class down: the method, its body, the statement, the assignment
    rw [hprog]
    refine List.mem_flatMap.2 ⟨_, List.mem_cons_self, ?_⟩
    refine Node.mem_preorder_of_part List.mem_cons_self ?_
    refine Node.mem_preorder_of_part List.mem_cons_self ?_
    refine Node.mem_preorder_of_part List.mem_cons_self ?_
    exact Node.mem_preorder_of_part List.mem_cons_self (Node.mem_preorder_self _)
  have hformed := parse_wellFormed text "A" assigned hmem
  have hno : isVariable none "(" = false := by decide
  refine ⟨hmem, hformed, ?_⟩
  rcases hformed with hvariable | ⟨-, hcaptured⟩
  · cases hno.symm.trans hvariable
  · exact hcaptured

end BantamJava
