/-
# Reading classes and programs

Members, classes and whole programs are read as the grammar says. A member
starts with a name and a class with `class`, so neither is taken for the brace
or the end of the input that ends the list it stands in.

Key theorems: `member_reads`, `classDecl_reads`, `classes_reads`.
-/
import BantamJava.Parsing.Program
import BantamJava.Proofs.Reading.Stmt

namespace BantamJava

open BantamJava.Parser

variable {n : Nat}

theorem TypePhrase.starts {w : List Token} {type : String} (h : TypePhrase w type) :
    Starts [.identifier] w := by
  cases h with
  | plain ht => exact ⟨_, _, rfl, by simp [ht]⟩
  | array ht _ _ => exact ⟨_, _, rfl, by simp [ht]⟩

/-- A phrase that starts with the name of a type, taken apart behind it. -/
theorem typed_iff {α : Type} {H : String → Lang α} {t : Token} {v : List Token} {a : α} :
    Lang.seq TypePhrase H (t :: v) a ↔
      ∃ w x type, v = w ++ x ∧ TypePhrase (t :: w) type ∧ H type x a := by
  constructor
  · rintro ⟨w, x, type, heq, hw, hx⟩
    obtain ⟨t', w, rfl, -⟩ := hw.starts
    rw [List.cons_append] at heq
    obtain ⟨rfl, rfl⟩ := List.cons.inj heq
    exact ⟨w, x, type, rfl, hw, hx⟩
  · rintro ⟨w, x, type, rfl, hw, hx⟩
    exact ⟨t :: w, x, type, rfl, hw, hx⟩

/-- A parser that looks at the first token, and then starts with a type. -/
theorem typed_reads {α : Type} {G : Lang α} [Viable G] {H : Token → String → Lang α}
    [∀ t type, Viable (H t type)] {F : Follow α} {f : Token → String → Parser α}
    (hf : ∀ t type, Reads n (H t type) F (f t type))
    (hlead : ∀ t type, Leads (H t type) F (Avoids .openBracket)) (hne : ∀ a, ¬ G [] a)
    (hiff : ∀ t v a, G (t :: v) a ↔
      ∃ w x type, v = w ++ x ∧ TypePhrase (t :: w) type ∧ H t type x a) :
    Reads n G F (current >>= fun t => typeName >>= f t) := by
  refine reads_current (H := fun t => Lang.seq TypePhrase (H t)) (fun t => ?_) (fun t a h => ?_)
    hne fun t v a => ?_
  · exact Reads.when (typeName_reads.bind (hf t) (hlead t))
  · obtain ⟨w, x, type, heq, hw, -⟩ := h
    rw [(List.append_eq_nil_iff.1 heq.symm).1] at hw
    exact hw.starts.ne_nil rfl
  · rw [typed_iff, hiff]

/-! ### Parameters -/

instance : Viable FormalPhrase := by
  let t : Token := .sample .identifier
  exact ⟨_, _, .mk (t := t) (n := t) (.plain rfl) rfl⟩

theorem FormalPhrase.starts {w : List Token} {p : Formal} (h : FormalPhrase w p) :
    Starts [.identifier] w := by
  cases h with
  | mk ht _ => exact ht.starts.append _

theorem formal_reads {F : Follow Formal} : Reads n FormalPhrase F formal := by
  refine typed_reads (H := fun t type => Lang.token .identifier fun m =>
    Lang.unit (⟨type, m.value, t.position⟩ : Formal)) (fun t type => ?_)
    (fun t type => leads_token (avoids_of_kind (by decide))) (fun p h => ?_) fun t v p => ⟨?_, ?_⟩
  · exact identifier_bind_reads (H := fun name => Lang.unit (⟨type, name, t.position⟩ : Formal))
      fun name => reads_pure _
  · exact h.starts.ne_nil rfl
  · intro h
    cases h with
    | mk ht hm => exact ⟨_, _, _, rfl, ht, _, _, rfl, hm, rfl, rfl⟩
  · rintro ⟨w, _, type, rfl, ht, m, _, rfl, hm, rfl, rfl⟩
    exact .mk ht hm

theorem parameters_reads :
    Reads n (Listed FormalPhrase) (fun _ => Before .closeParen) parameters := by
  refine listed_reads (F := fun _ _ => True) (fun w p h => ?_) (fun _ _ _ => trivial) formal_reads
  obtain ⟨t, v, rfl, ht⟩ := h.starts
  refine ⟨t, v, rfl, ?_⟩
  rw [List.mem_singleton.1 ht]
  decide

/-! ### Members -/

/-- The rest of a method, from its opening parenthesis on. -/
abbrev methodLang (p : Position) (type name : String) : Lang Member :=
  Lang.token .openParen fun _ => Lang.seq (Listed FormalPhrase) fun params =>
    Lang.token .closeParen fun _ => Lang.mapped (fun body => .method ⟨type, name, params, body, p⟩)
      BlockPhrase

/-- The rest of a field, from its initial value or its `;` on. -/
abbrev fieldLang (p : Position) (type name : String) : Lang Field :=
  Lang.either
    (Lang.token .assignment fun _ => Lang.seq Expression fun init =>
      Lang.token .semicolon fun _ => Lang.unit ⟨type, name, some init, p⟩)
    (Lang.token .semicolon fun _ => Lang.unit ⟨type, name, none, p⟩)

theorem methodRest_reads {F : Follow Member} (p : Position) (type name : String) :
    ReadsIf n (Cursor.At .openParen) (methodLang p type name) F
      (methodRest .standard p type name >>= fun m => pure (.method m)) := by
  simp only [methodRest, bind_assoc, pure_bind]
  refine readsIf_note_bind rfl (readsIf_skip_then (by decide) ?_)
  refine parameters_reads.bind (fun params => reads_expect_then (by decide) fun _ => ?_)
    fun params => leads_token before_of_kind
  exact (block_reads (F := fun _ _ => True)).map _ fun _ _ _ => trivial

theorem fieldRest_reads {F : Follow Field} (p : Position) (type name : String) :
    Reads n (fieldLang p type name) F (fieldRest p type name) := by
  refine reads_either (by decide) (readsIf_skip_then (by decide) ?_)
    (reads_expect_then (by decide) fun _ => reads_pure _)
    (leads_token (avoids_of_kind (by decide)))
  exact expr_reads.bind (fun init => reads_expect_then (by decide) fun _ => reads_pure _)
    fun init => leads_token (ends_of_kind (by decide))

/-- A member from behind its name on. -/
abbrev memberRest (p : Position) (type name : String) : Lang Member :=
  Lang.either (methodLang p type name) (Lang.mapped .field (fieldLang p type name))

instance : Viable MemberPhrase := by
  let t : Token := .sample .identifier
  exact ⟨_, _, .field (t := t) (n := t) (s := .sample .semicolon) (.plain rfl) rfl rfl⟩

theorem MemberPhrase.starts {w : List Token} {m : Member} (h : MemberPhrase w m) :
    Starts [.identifier] w := by
  cases h with
  | field ht _ _ => exact ht.starts.append _
  | initialField ht _ _ _ _ => exact ht.starts.append _
  | method ht _ _ _ _ _ => exact ht.starts.append _

theorem memberPhrase_iff {t : Token} {v : List Token} {m : Member} :
    MemberPhrase (t :: v) m ↔ ∃ w x type, v = w ++ x ∧ TypePhrase (t :: w) type ∧
      Lang.token .identifier (fun k => memberRest t.position type k.value) x m := by
  constructor
  · intro h
    cases h with
    | field ht hm hs =>
      exact ⟨_, _, _, rfl, ht, _, _, rfl, hm, .inr ⟨_, .inr ⟨_, _, rfl, hs, rfl, rfl⟩, rfl⟩⟩
    | initialField ht hm ha he hs =>
      exact ⟨_, _, _, rfl, ht, _, _, rfl, hm,
        .inr ⟨_, .inl ⟨_, _, rfl, ha, _, _, _, rfl, he, _, _, rfl, hs, rfl, rfl⟩, rfl⟩⟩
    | method ht hm ho hp hc hb =>
      exact ⟨_, _, _, rfl, ht, _, _, rfl, hm,
        .inl ⟨_, _, rfl, ho, _, _, _, rfl, hp, _, _, rfl, hc, _, hb, rfl⟩⟩
  · rintro ⟨w, _, type, rfl, ht, k, _, rfl, hk, hrest | ⟨f, hrest | hrest, rfl⟩⟩
    · obtain ⟨o, _, rfl, ho, v, _, params, rfl, hv, c, _, rfl, hc, body, hbody, rfl⟩ := hrest
      exact .method ht hk ho hv hc hbody
    · obtain ⟨a, _, rfl, ha, v, _, init, rfl, hv, s, _, rfl, hs, rfl, rfl⟩ := hrest
      exact .initialField ht hk ha hv hs
    · obtain ⟨s, _, rfl, hs, rfl, rfl⟩ := hrest
      exact .field ht hk hs

theorem member_reads {F : Follow Member} : Reads n MemberPhrase F (member .standard) := by
  refine typed_reads (H := fun t type => Lang.token .identifier fun m =>
    memberRest t.position type m.value) (fun t type => ?_)
    (fun t type => leads_token (avoids_of_kind (by decide))) (fun m h => ?_)
    fun t v m => memberPhrase_iff
  · refine identifier_bind_reads (H := fun name => memberRest t.position type name) fun name => ?_
    refine reads_either (by decide) (methodRest_reads t.position type name)
      ((fieldRest_reads (F := fun _ _ => True) t.position type name).map _ fun _ _ _ => trivial) ?_
    rintro w m x ⟨f, ⟨a, v, rfl, ha, -⟩ | ⟨s, v, rfl, hs, -⟩, -⟩ -
    · exact avoids_of_kind (by decide) a ha
    · exact avoids_of_kind (by decide) s hs
  · exact h.starts.ne_nil rfl

/-! ### Classes -/

theorem members_reads :
    Reads n (Many MemberPhrase) (fun _ => Stops endsBody) (members .standard) := by
  refine collect_reads (F := fun _ _ => True) rfl (fun w m h => ?_) (fun _ _ _ => trivial)
    (reads_recovering member_reads)
  obtain ⟨t, v, rfl, ht⟩ := h.starts
  refine ⟨t, v, rfl, ?_, fun _ => trivial⟩
  rw [List.mem_singleton.1 ht]
  rfl

/-- The class that a class extends, if it names one. -/
abbrev extendsLang : Lang (Option String) :=
  Lang.opt none (Lang.token .extendsWord fun _ => Lang.token .identifier fun m =>
    Lang.unit (some m.value))

theorem extendsClause_reads : Reads n extendsLang (fun _ => Avoids .extendsWord) extendsClause := by
  refine reads_opt (by decide) (readsIf_skip_then (by decide) ?_) fun t ht h => h t rfl ht
  exact identifier_bind_reads (H := fun name => Lang.unit (some name)) fun name => reads_pure _

theorem classPhrase_iff {w : List Token} {k : Class} :
    ClassPhrase w k ↔ Lang.token .classWord (fun t => Lang.token .identifier fun m =>
      Lang.seq extendsLang fun parent => Lang.token .openCurly fun _ =>
        Lang.seq (Many MemberPhrase) fun ms => Lang.token .closeCurly fun _ =>
          Lang.unit ⟨m.value, parent, ms, t.position⟩) w k := by
  constructor
  · intro h
    cases h with
    | plain ht hm ho hs hc =>
      exact ⟨_, _, rfl, ht, _, _, rfl, hm, [], _, _, rfl, .inl ⟨rfl, rfl⟩, _, _, rfl, ho,
        _, _, _, rfl, hs, _, _, rfl, hc, rfl, rfl⟩
    | extending ht hm hx hp ho hs hc =>
      exact ⟨_, _, rfl, ht, _, _, rfl, hm, [_, _], _, _, rfl,
        .inr ⟨_, _, rfl, hx, _, _, rfl, hp, rfl, rfl⟩, _, _, rfl, ho,
        _, _, _, rfl, hs, _, _, rfl, hc, rfl, rfl⟩
  · rintro ⟨t, _, rfl, ht, m, _, rfl, hm, _, _, _, rfl, hparent, o, _, rfl, ho, v, _, ms, rfl, hv,
      c, _, rfl, hc, rfl, rfl⟩
    rcases hparent with ⟨rfl, rfl⟩ | ⟨x, _, rfl, hx, p, _, rfl, hp, rfl, rfl⟩
    · exact .plain ht hm ho hv hc
    · exact .extending ht hm hx hp ho hv hc

instance : Viable ClassPhrase := by
  refine ⟨_, _, .plain (t := .sample .classWord) (n := .sample .identifier)
    (o := .sample .openCurly) (c := .sample .closeCurly) rfl rfl rfl .nil rfl⟩

theorem classDecl_reads {F : Follow Class} : Reads n ClassPhrase F (classDecl .standard) := by
  refine Reads.congr ?_ fun w k => classPhrase_iff.symm
  refine reads_expect_then (by decide) fun t => ?_
  refine identifier_bind_reads (H := fun name => Lang.seq extendsLang fun parent =>
    Lang.token .openCurly fun _ => Lang.seq (Many MemberPhrase) fun ms =>
      Lang.token .closeCurly fun _ => Lang.unit (⟨name, parent, ms, t.position⟩ : Class))
    fun name => ?_
  refine extendsClause_reads.bind (fun parent => readsIf_note_bind rfl ?_)
    fun parent => leads_token (avoids_of_kind (by decide))
  refine reads_expect_then (by decide) fun _ => ?_
  refine members_reads.bind (fun ms => closeBody_bind_reads (reads_pure _)) fun ms =>
    leads_token fun c hc t ht => ?_
  cases ht
  rw [hc]
  rfl

/-- **Programs are read as the grammar says.** -/
theorem classes_reads :
    Reads n (Many ClassPhrase) (fun _ => Stops (· == .endOfInput)) (classes .standard) := by
  refine collect_reads (F := fun _ _ => True) rfl (fun w k h => ?_) (fun _ _ _ => trivial)
    (reads_recovering classDecl_reads)
  obtain ⟨t, v, rfl, ht, -⟩ := classPhrase_iff.1 h
  refine ⟨t, v, rfl, ?_, fun _ => trivial⟩
  rw [ht]
  rfl

end BantamJava
