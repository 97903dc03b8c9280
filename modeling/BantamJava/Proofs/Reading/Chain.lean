/-
# Reading lists and chains

Names of types, lists with commas and chains of operators, with any language in
the place of their elements. Where operators chain to the left, the grammar
takes a chain apart at its last operator and the parser at its first one;
`chain_iff` says that both make the same chains.

An expression ends in front of any token that binds looser than its level says
(`Ends`). With one token of lookahead that is enough to tell where it ends,
since what follows it in a larger phrase binds looser or closes it.

Key definitions: `Starts`, `Kind.tightness`, `Ends`, `Stops`, `ChainRest`.
Key theorems: `listed_reads`, `collect_reads`, `chain_iff`, `chain_reads`,
`single_reads`.
-/
import BantamJava.Parsing.Expr
import BantamJava.Proofs.Reading.Rules

namespace BantamJava

/-! ### How words start -/

/-- The word has a first token, of one of the kinds. -/
def Starts (kinds : List Kind) (w : List Token) : Prop :=
  ∃ t v, w = t :: v ∧ t.kind ∈ kinds

theorem Starts.append {kinds : List Kind} {w : List Token} (h : Starts kinds w) (v : List Token) :
    Starts kinds (w ++ v) := by
  obtain ⟨t, x, rfl, ht⟩ := h
  exact ⟨t, x ++ v, rfl, ht⟩

theorem Starts.mono {kinds kinds' : List Kind} {w : List Token} (h : Starts kinds w)
    (hsub : kinds ⊆ kinds') : Starts kinds' w := by
  obtain ⟨t, x, rfl, ht⟩ := h
  exact ⟨t, x, rfl, hsub ht⟩

theorem Starts.ne_nil {kinds : List Kind} {w : List Token} (h : Starts kinds w) : w ≠ [] := by
  obtain ⟨t, x, rfl, -⟩ := h
  exact List.cons_ne_nil t x

theorem Starts.kind_mem {kinds : List Kind} {t : Token} {v : List Token}
    (h : Starts kinds (t :: v)) : t.kind ∈ kinds := by
  obtain ⟨t', v', heq, ht⟩ := h
  cases heq
  exact ht

theorem Chain.starts {op? : Kind → Option BinaryOp} {D : Lang Expr} {kinds : List Kind}
    (hD : ∀ w e, D w e → Starts kinds w) {w : List Token} {e : Expr} (h : Chain op? D w e) :
    Starts kinds w := by
  induction h with
  | first h => exact hD _ _ h
  | more _ _ _ ih => exact ih.append _

theorem Single.starts {op? : Kind → Option BinaryOp} {D : Lang Expr} {kinds : List Kind}
    (hD : ∀ w e, D w e → Starts kinds w) {w : List Token} {e : Expr} (h : Single op? D w e) :
    Starts kinds w := by
  cases h with
  | one h => exact hD _ _ h
  | two h _ _ => exact (hD _ _ h).append _

theorem Dotted.starts {B D : Lang Expr} {kinds : List Kind}
    (hB : ∀ w e, B w e → Starts kinds w) {w : List Token} {e : Expr} (h : Dotted B D w e) :
    Starts kinds w := by
  induction h with
  | start h => exact hB _ _ h
  | dot _ _ _ _ ih => exact ih.append _

/-! ### How expressions end -/

/-- How tightly a token binds to an expression in front of it; zero, if it does
not at all. -/
def Kind.tightness : Kind → Nat
  | .assignment => 1
  | .or => 2
  | .and => 3
  | .equals | .notEquals => 4
  | .less | .lessEquals | .greater | .greaterEquals | .instanceofWord => 5
  | .plus | .dash => 6
  | .star | .slash | .percent => 7
  | .plusPlus | .minusMinus => 8
  | .dot => 9
  | .openParen | .openBracket => 10
  | _ => 0

/-- The token, if there is one, binds looser than `m`. -/
def Ends (m : Nat) (o : Option Token) : Prop := ∀ t, o = some t → t.kind.tightness < m

theorem Ends.mono {m n : Nat} {o : Option Token} (h : Ends m o) (hmn : m ≤ n) : Ends n o :=
  fun t ht => Nat.lt_of_lt_of_le (h t ht) hmn

theorem ends_some {m : Nat} {t : Token} : Ends m (some t) ↔ t.kind.tightness < m := by
  constructor
  · intro h
    exact h t rfl
  · intro h t' ht
    cases ht
    exact h

theorem ends_of_kind {m : Nat} {k : Kind} (hk : k.tightness < m) (t : Token) (ht : t.kind = k) :
    Ends m (some t) :=
  ends_some.2 (ht ▸ hk)

theorem not_ends_of_kind {m : Nat} {k : Kind} (hk : ¬ k.tightness < m) (t : Token)
    (ht : t.kind = k) : ¬ Ends m (some t) :=
  fun h => hk (ht ▸ ends_some.1 h)

/-- The operators of the table bind as tightly as `m` says. -/
def Binding {τ : Type} (op? : Kind → Option τ) (m : Nat) : Prop :=
  op? .endOfInput = none ∧ ∀ k op, op? k = some op → k.tightness = m

theorem Binding.ends {τ : Type} {op? : Kind → Option τ} {m : Nat} (h : Binding op? m) {t : Token}
    {op : τ} (ht : op? t.kind = some op) : Ends (m + 1) (some t) ∧ ¬ Ends m (some t) := by
  have := h.2 _ _ ht
  rw [ends_some, ends_some]
  omega

theorem Binding.ne_end {τ : Type} {op? : Kind → Option τ} {m : Nat} (h : Binding op? m) {k : Kind}
    {op : τ} (hk : op? k = some op) : k ≠ .endOfInput := by
  rintro rfl
  rw [h.1] at hk
  cases hk

/-- The condition on what follows an expression of a level. -/
abbrev ends (m : Nat) : Follow Expr := fun _ => Ends m

/-! ### Names and lists -/

section Lists

open BantamJava.Parser

variable {n : Nat}

theorem identifier_bind_reads {α : Type} {H : String → Lang α} {F : Follow α}
    {f : String → Parser α} (hf : ∀ name, Reads n (H name) F (f name)) [∀ name, Viable (H name)] :
    Reads n (Lang.token .identifier fun t => H t.value) F (identifier >>= f) := by
  rw [identifier, bind_assoc]
  simp only [pure_bind]
  exact reads_expectElse_then (by decide) (fun _ _ => rfl) fun t => hf t.value

theorem Ends.avoids_bracket {m : Nat} (hm : m ≤ 10) {o : Option Token} (h : Ends m o) :
    Avoids .openBracket o := by
  intro t ht hk
  have := h t ht
  rw [hk, Kind.tightness] at this
  omega

theorem typeName_reads : Reads n TypePhrase (fun _ => Avoids .openBracket) typeName := by
  have hread : Reads n (Lang.token .identifier fun t => Lang.opt t.value
      (Lang.token .openBracket fun _ => Lang.token .closeBracket fun _ =>
        Lang.unit (t.value ++ "[]"))) (fun _ => Avoids .openBracket) typeName := by
    refine identifier_bind_reads (H := fun name => Lang.opt name (Lang.token .openBracket fun _ =>
      Lang.token .closeBracket fun _ => Lang.unit (name ++ "[]"))) fun name => ?_
    refine reads_opt (by decide) (readsIf_skip_then (by decide)
      (reads_expect_then (by decide) fun _ => reads_pure _)) fun t ht h => ?_
    exact h t rfl ht
  refine hread.congr fun w name => ⟨?_, ?_⟩
  · rintro ⟨t, v, rfl, ht, ⟨rfl, rfl⟩ | ⟨o, _, rfl, ho, c, _, rfl, hc, rfl, rfl⟩⟩
    · exact .plain ht
    · exact .array ht ho hc
  · intro h
    cases h with
    | plain ht => exact ⟨_, _, rfl, ht, .inl ⟨rfl, rfl⟩⟩
    | array ht ho hc => exact ⟨_, _, rfl, ht, .inr ⟨_, _, rfl, ho, _, _, rfl, hc, rfl, rfl⟩⟩

instance : Viable TypePhrase := ⟨_, _, .plain (t := .sample .identifier) rfl⟩

instance {α : Type} (D : Lang α) [h : Viable D] : Viable (Separated D) := by
  obtain ⟨w, a, ha⟩ := h.exists_phrase
  exact ⟨w, [a], .one ha⟩

theorem commaRound_reads {α : Type} {D : Lang α} [Viable D] {F : Follow α}
    {Q : Option Token → Prop} {p : Parser α} {again : Parser (List α)}
    (hcomma : ∀ a t, t.kind = .comma → F a (some t) ∧ ¬ Q (some t))
    (hQ : ∀ a o, Q o → F a o) (hp : Reads (n + 1) D F p)
    (ha : Reads n (Separated D) (fun _ => Q) again) :
    Reads (n + 1) (Separated D) (fun _ => Q) (commaRound p again) := by
  have hread : Reads (n + 1) (Lang.seq D fun a => Lang.opt [a]
      (Lang.token .comma fun _ => Lang.mapped (a :: ·) (Separated D))) (fun _ => Q)
      (commaRound p again) := by
    refine hp.bind (fun first => reads_opt (by decide) (readsIf_skip_bind (by decide)
      (ha.map _ fun _ _ h => h)) fun t ht => (hcomma first t ht).2) fun first => ?_
    exact leads_opt (hQ first) (leads_token fun t ht => (hcomma first t ht).1)
  refine hread.congr fun w as => ⟨?_, ?_⟩
  · rintro ⟨v, x, a, rfl, hv, ⟨rfl, rfl⟩ | ⟨t, y, rfl, ht, as, has, rfl⟩⟩
    · rw [List.append_nil]
      exact .one hv
    · exact .more hv ht has
  · intro h
    cases h with
    | one h => exact ⟨_, [], _, (List.append_nil _).symm, h, .inl ⟨rfl, rfl⟩⟩
    | more h ht hs => exact ⟨_, _, _, rfl, h, .inr ⟨_, _, rfl, ht, _, hs, rfl⟩⟩

/-- Phrases with commas between them, in front of what is no comma. -/
theorem commaSeparated_reads {α : Type} {D : Lang α} [Viable D] {F : Follow α}
    {Q : Option Token → Prop} {p : Parser α}
    (hcomma : ∀ a t, t.kind = .comma → F a (some t) ∧ ¬ Q (some t))
    (hQ : ∀ a o, Q o → F a o) (hp : Reads n D F p) :
    Reads n (Separated D) (fun _ => Q) (commaSeparated p) :=
  reads_recursive fun _ _ hm => commaRound_reads hcomma hQ (hp.mono hm)

instance {α : Type} (D : Lang α) : Viable (Listed D) := ⟨[], [], .none⟩

/-- Such phrases, or none, in front of a closing parenthesis. -/
theorem listed_reads {α : Type} {D : Lang α} [Viable D] {F : Follow α} {p : Parser α}
    (hstart : ∀ w a, D w a → ∃ t v, w = t :: v ∧ t.kind ≠ .closeParen)
    (hF : ∀ a t, t.kind = .comma ∨ t.kind = .closeParen → F a (some t)) (hp : Reads n D F p) :
    Reads n (Listed D) (fun _ => Before .closeParen)
      (kind >>= fun k => if k = .closeParen then pure [] else commaSeparated p) := by
  have hread : Reads n (Separated D) (fun _ => Before .closeParen) (commaSeparated p) := by
    refine commaSeparated_reads (fun a t ht => ⟨hF a t (.inl ht), ?_⟩) ?_ hp
    · rintro ⟨t', heq, ht'⟩
      cases heq
      rw [ht] at ht'
      cases ht'
    · rintro a o ⟨t, rfl, ht⟩
      exact hF a t (.inr ht)
  refine (reads_unless hread fun w as h => ?_).congr fun w as => ⟨?_, ?_⟩
  · cases h with
    | one h => exact hstart _ _ h
    | more h _ _ =>
      obtain ⟨t, v, rfl, ht⟩ := hstart _ _ h
      exact ⟨t, _, rfl, ht⟩
  · rintro (⟨rfl, rfl⟩ | h)
    · exact .none
    · exact .some h
  · intro h
    cases h with
    | none => exact .inl ⟨rfl, rfl⟩
    | some h => exact .inr h

/-! ### Phrases up to a token that stops them -/

instance {α : Type} (D : Lang α) : Viable (Many D) := ⟨[], [], .nil⟩

/-- The token, if there is one, stops the list. -/
def Stops (stop : Kind → Bool) (o : Option Token) : Prop := ∀ t, o = some t → stop t.kind = true

section Collect

variable {α : Type} {D : Lang α}

theorem many_iff {w : List Token} {as : List α} :
    Many D w as ↔ Lang.opt [] (Lang.seq (Lang.mapped some D) fun found : Option α =>
      Lang.mapped (found.toList ++ ·) (Many D)) w as := by
  constructor
  · intro h
    cases h with
    | nil => exact .inl ⟨rfl, rfl⟩
    | cons h hs => exact .inr ⟨_, _, _, rfl, ⟨_, h, rfl⟩, _, hs, rfl⟩
  · rintro (⟨rfl, rfl⟩ | ⟨v, x, _, rfl, ⟨a, ha, rfl⟩, as, has, rfl⟩)
    · exact .nil
    · exact .cons ha has

variable {F : Follow α} {stop : Kind → Bool} {p : Parser (Option α)}

theorem collectRound_reads (hend : stop .endOfInput = true)
    (hstart : ∀ w a, D w a → ∃ t v, w = t :: v ∧ stop t.kind = false ∧ ∀ b, F b (some t))
    (hstop : ∀ a o, Stops stop o → F a o)
    (hp : Reads (n + 1) (Lang.mapped some D) (fun o t => ∀ a, o = some a → F a t) p)
    {again : Parser (List α)} (ha : Reads n (Many D) (fun _ => Stops stop) again) :
    Reads (n + 1) (Many D) (fun _ => Stops stop) (collectRound stop p again) := by
  refine Reads.congr ?_ fun w as => many_iff.symm
  refine reads_kind fun k => ?_
  by_cases hk : stop k = true
  · simp only [hk, if_true]
    refine (reads_pure []).when.convert (fun c _ w as hw _ => .inl hw)
      fun c hc w as x hw hx hhead => ⟨?_, hx⟩
    rcases hw with hw | ⟨v, y, _, rfl, ⟨a, ha, rfl⟩, -⟩
    · exact hw
    · obtain ⟨t, v, rfl, ht, -⟩ := hstart v a ha
      rw [hc.kind_of_head? hhead.symm, hk] at ht
      cases ht
  · simp only [hk]
    have hread : Reads (n + 1) (Lang.seq (Lang.mapped some D) fun found : Option α =>
        Lang.mapped (found.toList ++ ·) (Many D)) (fun _ => Stops stop)
        (p >>= fun found => again >>= fun others => pure (found.toList ++ others)) := by
      refine ReadsIf.step hp ?_ (fun found => ha.map _ fun _ _ h => h) fun found w as x hw hx => ?_
      · rintro found ⟨a, h, -⟩
        obtain ⟨t, v, hnil, -⟩ := hstart [] a h
        cases hnil
      · rintro a rfl
        obtain ⟨as, has, rfl⟩ := hw
        cases has with
        | nil => exact hstop a _ hx
        | cons h _ =>
          obtain ⟨t, v, rfl, -, ht⟩ := hstart _ _ h
          exact ht a
    refine hread.when.convert (fun c _ w as hw _ => .inr hw) fun c hc w as x hw hx hhead => ⟨?_, hx⟩
    rcases hw with ⟨rfl, rfl⟩ | hw
    · -- the list would end here, in front of a token that does not stop it
      rw [List.nil_append] at hhead
      have hne : k ≠ .endOfInput := by
        rintro rfl
        exact hk hend
      rw [head?_upcoming_of_at hc hne] at hhead
      have hstopped := hx _ hhead
      rw [show c.current.kind = k from hc] at hstopped
      exact absurd hstopped hk
    · exact hw

/-- **Phrases one after another, up to a token that stops them.** -/
theorem collect_reads (hend : stop .endOfInput = true)
    (hstart : ∀ w a, D w a → ∃ t v, w = t :: v ∧ stop t.kind = false ∧ ∀ b, F b (some t))
    (hstop : ∀ a o, Stops stop o → F a o)
    (hp : Reads n (Lang.mapped some D) (fun o t => ∀ a, o = some a → F a t) p) :
    Reads n (Many D) (fun _ => Stops stop) (collect stop p) :=
  reads_recursive fun _ _ hm => collectRound_reads hend hstart hstop (hp.mono hm)

end Collect

/-! ### Chains of operators -/

/-- What follows the left operand of a chain. -/
inductive ChainRest (op? : Kind → Option BinaryOp) (D : Lang Expr) : Expr → Lang Expr where
  | nil {e : Expr} : ChainRest op? D e [] e
  | cons {v w : List Token} {e r b : Expr} {t : Token} {op : BinaryOp} :
      op? t.kind = some op → D v r → ChainRest op? D (.join op e r) w b →
      ChainRest op? D e (t :: (v ++ w)) b

section Chain

variable {op? : Kind → Option BinaryOp} {D : Lang Expr}

theorem ChainRest.snoc {e l r : Expr} {w v : List Token} {t : Token} {op : BinaryOp}
    (h : ChainRest op? D e w l) (hop : op? t.kind = some op) (hr : D v r) :
    ChainRest op? D e (w ++ t :: v) (.join op l r) := by
  induction h with
  | nil =>
    rw [List.nil_append, ← List.append_nil v]
    exact .cons hop hr .nil
  | cons hop' hr' _ ih =>
    rw [List.cons_append, List.append_assoc]
    exact .cons hop' hr' ih

theorem ChainRest.prepend {e b : Expr} {w : List Token} (h : ChainRest op? D e w b)
    {v : List Token} (hv : Chain op? D v e) : Chain op? D (v ++ w) b := by
  induction h generalizing v with
  | nil =>
    rw [List.append_nil]
    exact hv
  | cons hop hr _ ih =>
    have := ih (.more hv hop hr)
    rwa [List.append_assoc] at this

/-- A chain may be taken apart at its first operator. -/
theorem chain_iff {w : List Token} {e : Expr} :
    Chain op? D w e ↔ Lang.seq D (ChainRest op? D) w e := by
  constructor
  · intro h
    induction h with
    | first h => exact ⟨_, [], _, (List.append_nil _).symm, h, .nil⟩
    | more _ hop hr ih =>
      obtain ⟨v, x, a, rfl, hv, hx⟩ := ih
      exact ⟨v, _, a, List.append_assoc _ _ _, hv, hx.snoc hop hr⟩
  · rintro ⟨v, x, a, rfl, hv, hx⟩
    exact hx.prepend (.first hv)

theorem chainRest_iff {left e : Expr} {w : List Token} :
    ChainRest op? D left w e ↔ Lang.opt left (Lang.entry op? fun op =>
      Lang.seq D fun r => ChainRest op? D (.join op left r)) w e := by
  constructor
  · intro h
    cases h with
    | nil => exact .inl ⟨rfl, rfl⟩
    | cons hop hr hx => exact .inr ⟨_, _, _, rfl, hop, _, _, _, rfl, hr, hx⟩
  · rintro (⟨rfl, rfl⟩ | ⟨t, _, op, rfl, hop, v, x, r, rfl, hr, hx⟩)
    · exact .nil
    · exact .cons hop hr hx

instance (e : Expr) : Viable (ChainRest op? D e) := ⟨[], e, .nil⟩

instance [h : Viable D] : Viable (Chain op? D) := by
  obtain ⟨w, e, he⟩ := h.exists_phrase
  exact ⟨w, e, .first he⟩

theorem single_iff {w : List Token} {e : Expr} :
    Single op? D w e ↔ Lang.seq D (fun left => Lang.opt left (Lang.entry op? fun op =>
      Lang.mapped (.join op left) D)) w e := by
  constructor
  · intro h
    cases h with
    | one h => exact ⟨_, [], _, (List.append_nil _).symm, h, .inl ⟨rfl, rfl⟩⟩
    | two h hop hr => exact ⟨_, _, _, rfl, h, .inr ⟨_, _, _, rfl, hop, _, hr, rfl⟩⟩
  · rintro ⟨v, x, a, rfl, hv, ⟨rfl, rfl⟩ | ⟨t, y, op, rfl, hop, r, hr, rfl⟩⟩
    · rw [List.append_nil]
      exact .one hv
    · exact .two hv hop hr

variable [Viable D] {m : Nat} {operand : Parser Expr}

theorem chainRound_reads (hop : Binding op? m) (hD : Reads n D (ends (m + 1)) operand)
    {again : Expr → Parser Expr} (ha : ∀ e, Reads n (ChainRest op? D e) (ends m) (again e))
    (left : Expr) :
    Reads (n + 1) (ChainRest op? D left) (ends m) (chainRound op? operand again left) := by
  refine Reads.congr ?_ fun w e => chainRest_iff.symm
  refine reads_kind fun k => ?_
  cases hk : op? k with
  | none => exact readsIf_entry_none hk
  | some op =>
    refine readsIf_entry_some hop.1 hk (readsIf_skip_bind (hop.ne_end hk) ?_)
      fun t op ht => (hop.ends ht).2
    refine hD.bind (fun right => ha _) fun right w e x hw hx => ?_
    cases hw with
    | nil => exact hx.mono (Nat.le_succ m)
    | cons hop' _ _ => exact (hop.ends hop').1

/-- **A chain of operators is read from left to right.** -/
theorem chain_reads (hop : Binding op? m) (hD : Reads n D (ends (m + 1)) operand) :
    Reads n (Chain op? D) (ends m) (chain op? operand) := by
  refine Reads.congr ?_ fun w e => chain_iff.symm
  refine hD.bind (fun first => ?_) fun first w e x hw hx => ?_
  · exact reads_fix (G := ChainRest op? D) (F := fun _ => ends m) (fun _ _ hm =>
      chainRound_reads hop (hD.mono (Nat.le_of_succ_le hm))) first
  · cases hw with
    | nil => exact hx.mono (Nat.le_succ m)
    | cons hop' _ _ => exact (hop.ends hop').1

theorem single_reads (hop : Binding op? m) (hD : Reads n D (ends (m + 1)) operand) :
    Reads n (Single op? D) (ends m) (single op? operand) := by
  refine Reads.congr ?_ fun w e => single_iff.symm
  refine hD.bind (fun left => reads_kind fun k => ?_) fun left => leads_opt
    (fun o h => h.mono (Nat.le_succ m)) (leads_entry fun t op ht => (hop.ends ht).1)
  cases hk : op? k with
  | none => exact readsIf_entry_none hk
  | some op =>
    refine readsIf_entry_some hop.1 hk (readsIf_skip_then (hop.ne_end hk) ?_)
      fun t op ht => (hop.ends ht).2
    exact hD.map _ fun _ _ h => h.mono (Nat.le_succ m)

end Chain

end Lists
end BantamJava
