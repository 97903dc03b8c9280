/-
# Where the nodes of a tree are

Every node of a tree that was kept comes from an interval of the tokens, and has the
position of the first of them, or if it is an expression, of the first that opens no
parenthesis (`Transcript.Sits`). The parts of a node come from intervals inside of its own,
apart from each other and in the order of the text (`Transcript.Derives.parts`).

So if the positions of the tokens ascend, those of the parts of a node do, and those of all
nodes in preorder never go back: the tokens of a part are behind those of the parts in front
of it, and none of them that gives a position is in front of the one that gives the node its
own.

Key definitions: `Transcript.Derives`, `Transcript.Heads`, `Transcript.Sits`,
`Transcript.Ascends`.
Key theorems: `Transcript.Derives.parts`, `Transcript.Derives.sits`,
`Transcript.siblings_ascend`, `Transcript.preorder_ascends`.
-/
import BantamJava.Proofs.Positions.Phrase
import BantamJava.Proofs.SourceOrder

namespace BantamJava

/-! ### Listings -/

namespace Listing

variable {α β : Type} {K : Span α} {i m j : Nat} {xs ys : List α}

theorem append (h : Listing K i m xs) (h' : Listing K m j ys) : Listing K i j (xs ++ ys) := by
  induction h with
  | nil h => exact h'.widen_left h
  | cons hgap hspan hx _ ih => exact .cons hgap hspan hx (ih h')

theorem map {L : Span β} (f : α → β) (h : Listing K i j xs)
    (hf : ∀ a b x, K a b x → L a b (f x)) : Listing L i j (xs.map f) := by
  induction h with
  | nil h => exact .nil h
  | cons hgap hspan hx _ ih => exact .cons hgap hspan (hf _ _ _ hx) ih

theorem single {x : α} (hij : i ≤ j) (h : K i j x) : Listing K i j [x] :=
  .cons (Nat.le_refl i) hij h (.nil (Nat.le_refl j))

/-- What is listed has an interval inside. -/
theorem mem {x : α} (h : Listing K i j xs) (hx : x ∈ xs) :
    ∃ a b, i ≤ a ∧ b ≤ j ∧ K a b x := by
  induction h with
  | nil => cases hx
  | @cons i a b j y ys hgap hspan hy hys ih =>
    rcases List.mem_cons.1 hx with rfl | hx
    · exact ⟨a, b, hgap, hys.le, hy⟩
    · obtain ⟨a', b', ha, hb, hK⟩ := ih hx
      exact ⟨a', b', by omega, hb, hK⟩

/-- What is listed has intervals one behind another. -/
theorem pairwise (h : Listing K i j xs) :
    xs.Pairwise fun x y => ∃ a b c d, K a b x ∧ K c d y ∧ b ≤ c := by
  induction h with
  | nil => exact .nil
  | cons _ _ hx hys ih =>
    refine List.pairwise_cons.2 ⟨fun y hy => ?_, ih⟩
    obtain ⟨c, d, hbc, -, hK⟩ := hys.mem hy
    exact ⟨_, _, c, d, hx, hK, hbc⟩

end Listing

namespace Transcript

variable {T : Transcript} {α : Type} {i j : Nat}

/-! ### Phrases inside of an interval -/

theorem slice_length (hij : i ≤ j) (hj : j ≤ T.tokens.length) : (T.slice i j).length = j - i := by
  simp only [slice, List.length_take, List.length_drop]
  omega

theorem slice_split {u v : List Token} (hij : i ≤ j) (hj : j ≤ T.tokens.length)
    (h : T.slice i j = u ++ v) :
    i + u.length ≤ j ∧ T.slice i (i + u.length) = u ∧ T.slice (i + u.length) j = v := by
  have hlength := slice_length hij hj
  rw [h, List.length_append] at hlength
  have hle : i + u.length ≤ j := by omega
  have hfirst := slice_length (Nat.le_add_right i u.length) (Nat.le_trans hle hj)
  rw [slice_append (Nat.le_add_right i u.length) hle] at h
  obtain ⟨hu, hv⟩ := List.append_inj h (by omega)
  exact ⟨hle, hu, hv⟩

/-- A token of an interval is in its slice. -/
theorem tokenAt_mem_slice {m : Nat} (him : i ≤ m) (hmj : m < j) (hj : j ≤ T.tokens.length) :
    T.tokenAt m ∈ T.slice i j := by
  have hm : m < T.tokens.length := Nat.lt_of_lt_of_le hmj hj
  have hsplit : T.slice i j = T.slice i m ++ T.slice m j := slice_append him (Nat.le_of_lt hmj)
  have hcons : T.slice m j = T.tokenAt m :: T.slice (m + 1) j := by
    have hsign : T.Sign (T.tokenAt m).kind m (m + 1) (T.tokenAt m) := by
      refine ⟨?_, rfl, rfl⟩
      rw [tokenAt, List.getElem?_eq_getElem hm]
      rfl
    rw [slice_append (Nat.le_succ m) hmj, hsign.slice]
    rfl
  rw [hsplit, hcons]
  exact List.mem_append_right _ List.mem_cons_self

theorem lt_of_slice {t : Token} {w : List Token} (h : T.slice i j = t :: w) :
    i < j ∧ i < T.tokens.length := by
  have hlength := congrArg List.length h
  simp only [slice, List.length_take, List.length_drop, List.length_cons] at hlength
  omega

/-- **Phrases that are scattered over an interval are listed in it.** -/
theorem Phrase.listing {D : Lang α} {as : List α} (h : T.Phrase (Scattered D) i j as) :
    Listing (T.Phrase D) i j as := by
  obtain ⟨hij, hj, hw⟩ := h
  generalize hslice : T.slice i j = w at hw
  induction hw generalizing i with
  | nil => exact .nil hij
  | @cons u v w a as ha _ ih =>
    obtain ⟨hu, -, hrest⟩ := slice_split hij hj hslice
    obtain ⟨hv, hinside, hbehind⟩ := slice_split hu hj hrest
    refine .cons (Nat.le_add_right i _) (Nat.le_add_right _ _) ?_ (ih hv hbehind)
    exact ⟨Nat.le_add_right _ _, Nat.le_trans hv hj, by rwa [hinside]⟩

/-! ### Nodes and their tokens -/

variable (T)

/-- The node was made from the tokens from `i` to before `j`. -/
def Derives (i j : Nat) : Node → Prop
  | .ofClass c => T.KeptClass i j c
  | .ofMember m => T.KeptMember i j m
  | .ofFormal f => T.Phrase FormalPhrase i j f
  | .ofBlock b => ∃ o, T.Braced T.KeptStmt i j o b.stmts ∧ b.position = o.position
  | .ofStmt s => T.KeptStmt i j s
  | .ofExpr e => T.Phrase AnyExpr i j e

/-- Token `k` is the one that a node goes by which was made from the tokens from `i` on: the
first one, or for an expression the first that opens no parenthesis. -/
def Heads (i k : Nat) : Node → Prop
  | .ofClass _ => k = i ∧ (T.tokenAt k).kind = .classWord
  | .ofBlock _ => k = i ∧ (T.tokenAt k).kind = .openCurly
  | .ofMember _ | .ofFormal _ | .ofStmt _ => k = i
  | .ofExpr _ => (∀ m, i ≤ m → m < k → (T.tokenAt m).kind = .openParen) ∧
      (T.tokenAt k).kind ≠ .openParen

/-- The node was made from the tokens from `i` to before `j`, goes by token `k` of these, and
has its position. -/
structure Sits (i k j : Nat) (x : Node) : Prop where
  derives : T.Derives i j x
  heads : T.Heads i k x
  le : i ≤ k
  lt : k < j
  bound : k < T.tokens.length
  position : x.position = (T.tokenAt k).position

variable {T}

/-! ### The parts of a node -/

theorem Phrase.exprs {es : List Expr} (h : T.Phrase (Scattered AnyExpr) i j es) :
    Listing T.Derives i j (es.map .ofExpr) :=
  h.listing.map Node.ofExpr fun _ _ _ he => he

theorem Phrase.condition {test : Expr} (h : T.Phrase Condition i j test) :
    Listing T.Derives i j [.ofExpr test] := by
  have hinside : Scattered AnyExpr (T.slice i j) [test] := by
    obtain ⟨o, _, hslice, -, v, _, _, rfl, htest, c, _, rfl, -, rfl, rfl⟩ := h.derives
    rw [hslice]
    exact ((Scattered.expression htest).before [c]).behind [o]
  exact Phrase.exprs ⟨h.le, h.bound, hinside⟩

theorem Phrase.optional {o : Option Expr} (h : T.Phrase (Optional Expression) i j o) :
    Listing T.Derives i j (o.toList.map .ofExpr) :=
  Phrase.exprs ⟨h.le, h.bound, .optional h.derives⟩

theorem Braced.le {K : Span α} {o : Token} {xs : List α} (h : T.Braced K i j o xs) : i ≤ j := by
  obtain ⟨a, m, ho, hxs, hclose⟩ := h
  exact Nat.le_trans ho.le (Nat.le_trans hxs.le hclose.le)

theorem Braced.listing {K : Span α} {o : Token} {xs : List α} (h : T.Braced K i j o xs) :
    Listing K i j xs := by
  obtain ⟨a, m, ho, hxs, hclose⟩ := h
  exact (hxs.widen_left ho.le).widen_right hclose.le

theorem Braced.block {o : Token} {stmts : List Stmt} (h : T.Braced T.KeptStmt i j o stmts) :
    Listing T.Derives i j [.ofBlock ⟨stmts, o.position⟩] :=
  .single h.le ⟨o, h, rfl⟩

theorem KeptStmt.listing {s : Stmt} (h : T.KeptStmt i j s) : Listing T.Derives i j [.ofStmt s] :=
  .single (Nat.le_of_lt h.lt) h

/-- The parts of a statement have their intervals in its own. -/
theorem KeptStmt.parts {s : Stmt} (h : T.KeptStmt i j s) : Listing T.Derives i j s.parts := by
  cases h with
  | simple hs h =>
    obtain ⟨es, hparts, hes⟩ := h.derives.simple_parts hs
    rw [hparts]
    exact Phrase.exprs ⟨h.le, h.bound, hes⟩
  | block ho hstmts hclose => exact Braced.block ⟨_, _, ho, hstmts, hclose⟩
  | ifThen ht htest hyes => exact (htest.condition.append hyes.listing).widen_left ht.le
  | ifElse ht htest hyes hl hno =>
    have helse := hno.listing.widen_left hl.le
    exact (htest.condition.append (hyes.listing.append helse)).widen_left ht.le
  | whileLoop ht htest hbody => exact (htest.condition.append hbody.listing).widen_left ht.le
  | forLoop ht ho hinit hs htest hs' hupdate hr hbody =>
    have hinit' := hinit.optional.widen_left ho.le
    have htest' := htest.optional.widen_left hs.le
    have hheader := (hinit'.append htest').append (hupdate.optional.widen_left hs'.le)
    rw [← List.map_append, ← List.map_append] at hheader
    exact (hheader.append (hbody.listing.widen_left hr.le)).widen_left ht.le

theorem KeptMember.parts {m : Member} (h : T.KeptMember i j m) :
    Listing T.Derives i j m.parts := by
  cases h with
  | field h => exact Phrase.exprs ⟨h.le, h.bound, h.derives.field_init⟩
  | method htype hn ho hparams hr hbody =>
    have hformals : T.Phrase (Scattered FormalPhrase) _ _ _ :=
      ⟨hparams.le, hparams.bound, .of_listed hparams.derives⟩
    have hlisted := hformals.listing.map (L := T.Derives) Node.ofFormal fun _ _ _ hf => hf
    have hheader := Nat.le_trans htype.le (Nat.le_trans hn.le ho.le)
    exact (hlisted.append (hbody.block.widen_left hr.le)).widen_left hheader

theorem KeptClass.parts {c : Class} (h : T.KeptClass i j c) :
    Listing T.Derives i j (c.members.map .ofMember) := by
  have hmap : ∀ {i j ms}, Listing T.KeptMember i j ms →
      Listing T.Derives i j (ms.map .ofMember) :=
    fun hms => hms.map Node.ofMember fun _ _ _ hm => hm
  cases h with
  | plain ht hn hbody => exact (hmap hbody.listing).widen_left (Nat.le_trans ht.le hn.le)
  | extending ht hn hx hp hbody =>
    refine (hmap hbody.listing).widen_left ?_
    exact Nat.le_trans ht.le (Nat.le_trans hn.le (Nat.le_trans hx.le hp.le))

/-- **The parts of a node have intervals in its own**, in their order and apart from each
other. -/
theorem Derives.parts {x : Node} (h : T.Derives i j x) : Listing T.Derives i j x.parts := by
  cases x with
  | ofClass c => exact KeptClass.parts h
  | ofMember m => exact KeptMember.parts h
  | ofFormal f => exact .nil (Phrase.le h)
  | ofBlock b =>
    obtain ⟨o, hb, -⟩ := h
    exact hb.listing.map Node.ofStmt fun _ _ _ hs => hs
  | ofStmt s => exact KeptStmt.parts h
  | ofExpr e =>
    obtain ⟨hij, hj, he⟩ := h
    exact Phrase.exprs ⟨hij, hj, he.placed.operands⟩

/-! ### The token that a node goes by -/

variable (T) in
/-- The interval has a first token, which is at the position. -/
structure FirstAt (i j : Nat) (p : Position) : Prop where
  lt : i < j
  bound : i < T.tokens.length
  position : p = (T.tokenAt i).position

theorem Sign.firstAt {k : Kind} {a : Nat} {t : Token} (h : T.Sign k i a t) (ha : a ≤ j) :
    T.FirstAt i j t.position := by
  have hnext := h.next
  obtain ⟨hbound, -⟩ := List.getElem?_eq_some_iff.1 h.token
  exact ⟨by omega, hbound, by rw [h.tokenAt]⟩

theorem FirstAt.of_slice {p : Position} (h : StartsAt (T.slice i j) p) : T.FirstAt i j p := by
  obtain ⟨t, w, hslice, rfl⟩ := h
  obtain ⟨hlt, hbound⟩ := lt_of_slice hslice
  exact ⟨hlt, hbound, by rw [tokenAt_of_slice hslice]⟩

theorem Braced.firstAt {K : Span α} {o : Token} {xs : List α} (h : T.Braced K i j o xs) :
    T.FirstAt i j o.position ∧ (T.tokenAt i).kind = .openCurly := by
  obtain ⟨a, m, ho, hxs, hclose⟩ := h
  exact ⟨ho.firstAt (Nat.le_trans hxs.le hclose.le), by rw [ho.tokenAt, ho.kind]⟩

theorem KeptStmt.firstAt {s : Stmt} (h : T.KeptStmt i j s) : T.FirstAt i j s.position := by
  have hlt := h.lt
  cases h with
  | simple _ h => exact .of_slice h.derives.startsAt
  | block ho _ _ => exact ho.firstAt (ho.next ▸ hlt)
  | ifThen ht _ _ => exact ht.firstAt (ht.next ▸ hlt)
  | ifElse ht _ _ _ _ => exact ht.firstAt (ht.next ▸ hlt)
  | whileLoop ht _ _ => exact ht.firstAt (ht.next ▸ hlt)
  | forLoop ht _ _ _ _ _ _ _ _ => exact ht.firstAt (ht.next ▸ hlt)

theorem KeptMember.firstAt {m : Member} (h : T.KeptMember i j m) : T.FirstAt i j m.position := by
  cases h with
  | field h => exact .of_slice h.derives.startsAt
  | method htype hn ho hparams hr hbody =>
    obtain ⟨t, w, hslice, -⟩ := htype.derives.starts
    obtain ⟨hlt, hbound⟩ := lt_of_slice hslice
    have hbehind := Nat.le_trans hn.le (Nat.le_trans ho.le (Nat.le_trans hparams.le
      (Nat.le_trans hr.le hbody.le)))
    exact ⟨Nat.lt_of_lt_of_le hlt hbehind, hbound, rfl⟩

theorem KeptClass.firstAt {c : Class} (h : T.KeptClass i j c) :
    T.FirstAt i j c.position ∧ (T.tokenAt i).kind = .classWord := by
  cases h with
  | plain ht hn hbody =>
    exact ⟨ht.firstAt (Nat.le_trans hn.le hbody.le), by rw [ht.tokenAt, ht.kind]⟩
  | extending ht hn hx hp hbody =>
    have hbehind := Nat.le_trans hn.le (Nat.le_trans hx.le (Nat.le_trans hp.le hbody.le))
    exact ⟨ht.firstAt hbehind, by rw [ht.tokenAt, ht.kind]⟩

theorem FirstAt.sits {x : Node} (h : T.FirstAt i j x.position) (hx : T.Derives i j x)
    (hheads : T.Heads i i x) : ∃ k, T.Sits i k j x :=
  ⟨i, hx, hheads, Nat.le_refl i, h.lt, h.bound, h.position⟩

theorem Phrase.sits {e : Expr} (h : T.Phrase AnyExpr i j e) : ∃ k, T.Sits i k j (.ofExpr e) := by
  obtain ⟨u, t, v, hslice, hparens, ht, hposition⟩ := h.derives.placed.leads
  obtain ⟨hle, hfirst, hrest⟩ := slice_split h.le h.bound hslice
  obtain ⟨hlt, hbound⟩ := lt_of_slice hrest
  have htoken := tokenAt_of_slice hrest
  refine ⟨i + u.length, h, ⟨fun m him hmk => ?_, ?_⟩, Nat.le_add_right _ _, hlt, hbound, ?_⟩
  · refine hparens _ ?_
    rw [← hfirst]
    exact tokenAt_mem_slice him hmk (Nat.le_of_lt hbound)
  · rwa [htoken]
  · rw [htoken]
    exact hposition

/-- **Every node has the position of a token that it was made from**: the first one, or for an
expression the first that opens no parenthesis. -/
theorem Derives.sits {x : Node} (h : T.Derives i j x) : ∃ k, T.Sits i k j x := by
  cases x with
  | ofClass c =>
    obtain ⟨hfirst, hkind⟩ := KeptClass.firstAt h
    exact hfirst.sits h ⟨rfl, hkind⟩
  | ofMember m => exact FirstAt.sits (KeptMember.firstAt h) h rfl
  | ofFormal f => exact FirstAt.sits (.of_slice (Phrase.derives h).startsAt) h rfl
  | ofBlock b =>
    obtain ⟨o, hb, hposition⟩ := id h
    obtain ⟨hfirst, hkind⟩ := hb.firstAt
    rw [← hposition] at hfirst
    exact FirstAt.sits hfirst h ⟨rfl, hkind⟩
  | ofStmt s => exact FirstAt.sits (KeptStmt.firstAt h) h rfl
  | ofExpr e => exact Phrase.sits h

/-- All nodes of a tree were made from tokens of its interval. -/
theorem Derives.nodes {x z : Node} (h : T.Derives i j x) (hz : z ∈ x.preorder) :
    ∃ a k b, i ≤ a ∧ b ≤ j ∧ T.Sits a k b z := by
  induction x using Node.induction generalizing i j with
  | h x ih =>
    rw [Node.preorder_eq] at hz
    rcases List.mem_cons.1 hz with rfl | hz
    · obtain ⟨k, hk⟩ := h.sits
      exact ⟨i, k, j, Nat.le_refl i, Nat.le_refl j, hk⟩
    · obtain ⟨y, hy, hz⟩ := List.mem_flatMap.1 hz
      obtain ⟨a, b, ha, hb, hderives⟩ := h.parts.mem hy
      obtain ⟨a', k, b', ha', hb', hk⟩ := ih y hy hderives hz
      exact ⟨a', k, b', Nat.le_trans ha ha', Nat.le_trans hb' hb, hk⟩

/-! ### Positions in order -/

variable (T) in
/-- The tokens are one behind another in the text. -/
def Ascends : Prop := (T.tokens.map Token.position).Pairwise (· < ·)

section Ascends

variable {k m : Nat} {x y : Node} {ys : List Node}

theorem Ascends.lt (hT : T.Ascends) (hkm : k < m) (hm : m < T.tokens.length) :
    (T.tokenAt k).position < (T.tokenAt m).position := by
  have hpairwise := List.pairwise_iff_getElem.1 (List.pairwise_map.1 hT) k m (by omega) hm hkm
  unfold tokenAt
  rw [List.getElem?_eq_getElem (by omega), List.getElem?_eq_getElem hm]
  exact hpairwise

theorem Ascends.le (hT : T.Ascends) (hkm : k ≤ m) (hm : m < T.tokens.length) :
    (T.tokenAt k).position ≤ (T.tokenAt m).position := by
  rcases Nat.eq_or_lt_of_le hkm with rfl | hlt
  · exact Position.le_refl _
  · exact Position.le_of_lt (hT.lt hlt hm)

/-- No part goes by a token in front of the one that the node goes by: what is in front of
that one opens parentheses. -/
theorem Sits.le_part {a b : Nat} (hx : T.Sits i k j x) (hpart : y ∈ x.parts) (hia : i ≤ a)
    (hy : T.Sits a m b y) : k ≤ m := by
  have ham := hy.le
  cases x with
  | ofExpr e =>
    obtain ⟨d, -, rfl⟩ := List.mem_map.1 hpart
    refine Nat.le_of_not_lt fun hmk => ?_
    exact hy.heads.2 (hx.heads.1 m (Nat.le_trans hia ham) hmk)
  | ofClass c =>
    have hfirst := hx.heads.1
    omega
  | ofBlock b =>
    have hfirst := hx.heads.1
    omega
  | ofMember _ | ofFormal _ | ofStmt _ =>
    have hfirst : k = i := hx.heads
    omega

/-- **Nodes one behind another have positions one behind another.** -/
theorem siblings_ascend (hT : T.Ascends) (h : Listing T.Derives i j ys) :
    ys.Pairwise fun y z => y.position < z.position := by
  refine h.pairwise.imp ?_
  rintro y z ⟨a, b, c, d, hy, hz, hbc⟩
  obtain ⟨k, hk⟩ := hy.sits
  obtain ⟨m, hm⟩ := hz.sits
  have hlt := hk.lt
  have hle := hm.le
  rw [hk.position, hm.position]
  exact hT.lt (by omega) hm.bound

/-- All nodes of a tree are in front of all nodes of a tree behind it. -/
theorem trees_ascend (hT : T.Ascends) (h : Listing T.Derives i j ys)
    (hys : ∀ y ∈ ys, y.preorder.Pairwise fun u v => u.position ≤ v.position) :
    (ys.flatMap Node.preorder).Pairwise fun u v => u.position ≤ v.position := by
  refine List.pairwise_flatMap.2 ⟨hys, h.pairwise.imp ?_⟩
  rintro y z ⟨a, b, c, d, hy, hz, hbc⟩ u hu v hv
  obtain ⟨_, k, b', -, hb', hk⟩ := hy.nodes hu
  obtain ⟨c', m, _, hc', -, hm⟩ := hz.nodes hv
  have hlt := hk.lt
  have hle := hm.le
  rw [hk.position, hm.position]
  exact hT.le (by omega) hm.bound

/-- **No position in a tree goes back in preorder.** -/
theorem preorder_ascends (hT : T.Ascends) (h : T.Derives i j x) :
    x.preorder.Pairwise fun u v => u.position ≤ v.position := by
  induction x using Node.induction generalizing i j with
  | h x ih =>
    have hparts : ∀ y ∈ x.parts, y.preorder.Pairwise fun u v => u.position ≤ v.position := by
      intro y hy
      obtain ⟨a, b, -, -, hderives⟩ := h.parts.mem hy
      exact ih y hy hderives
    rw [Node.preorder_eq]
    refine List.pairwise_cons.2 ⟨fun z hz => ?_, trees_ascend hT h.parts hparts⟩
    obtain ⟨y, hy, hz⟩ := List.mem_flatMap.1 hz
    obtain ⟨a, b, hia, -, hderives⟩ := h.parts.mem hy
    obtain ⟨k, hk⟩ := h.sits
    obtain ⟨m, hm⟩ := hderives.sits
    -- the part is not in front of the node, and what is in the part is not in front of it
    have hpart : x.position ≤ y.position := by
      rw [hk.position, hm.position]
      exact hT.le (hk.le_part hy hia hm) hm.bound
    have hinside := hparts y hy
    rw [Node.preorder_eq] at hz hinside
    rcases List.mem_cons.1 hz with rfl | hz
    · exact hpart
    · exact Position.le_trans hpart ((List.pairwise_cons.1 hinside).1 z hz)

end Ascends

end Transcript

end BantamJava
