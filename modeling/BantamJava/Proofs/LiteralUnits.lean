/-
# The units of a string constant

The body of a string constant is a sequence of units, each a character other than a
backslash, or a backslash with the character after it. Two scans go over a body without
knowing of each other: `closeLiteral` looks for the quote that ends it, and `unescape`
works out its value. Both take it unit by unit. A backslash is either the first character
of a unit or the second one, and which of the two is settled by what stands in front of
it, so a body is cut into units in one way only (`eq_of_written_eq`), however many
backslashes stand in a row.

`unescape` looks at an unknown escape in two steps: the backslash stands for itself, and
the character after it is looked at again. As that character is no backslash it stands
for itself too, and the scan is back at the start of a unit. So the scan never comes to a
backslash with nothing behind it; what `unescape` would do there has no effect
(`unescapeWith_written`).

Key definitions: `LiteralUnit`, `written`, `LiteralUnit.meaning`, `matchUnits`,
`unescapeWith`.
Key theorems: `closeLiteral_eq_matchUnits`, `eq_of_written_eq`, `unescapeWith_written`,
`literal_cut_into_units`.
-/
import BantamJava.Lexeme.Item
import BantamJava.Proofs.LexicalGrammar

namespace BantamJava

/-- A piece of the body of a string constant. -/
inductive LiteralUnit where
  | plain (c : Char)
  /-- A backslash and the character after it. -/
  | escape (c : Char)
deriving DecidableEq

namespace LiteralUnit

/-- The characters of a unit. -/
def chars : LiteralUnit → List Char
  | plain c => [c]
  | escape c => ['\\', c]

/-- A single character is no backslash, and none takes a line feed with it. -/
def WellCut : LiteralUnit → Prop
  | plain c => c ≠ '\\'
  | escape c => c ≠ '\n'

/-- What may stand between the quotes of a constant. -/
def Allowed : LiteralUnit → Prop
  | plain c => c ≠ '"' ∧ c ≠ '\\' ∧ c ≠ '\r' ∧ c ≠ '\n'
  | escape c => c ≠ '\n'

/-- The text that a unit stands for. -/
def meaning : LiteralUnit → List Char
  | escape 'n' => ['\n']
  | escape 't' => ['\t']
  | escape 'f' => ['\x0c']
  | escape '"' => ['"']
  | escape '\\' => ['\\']
  | escape c => ['\\', c]
  | plain c => [c]

theorem Allowed.wellCut {u : LiteralUnit} (h : u.Allowed) : u.WellCut := by
  cases u with
  | plain c => exact h.2.1
  | escape c => exact h

theorem chars_ne_nil (u : LiteralUnit) : u.chars ≠ [] := by
  cases u <;> exact List.cons_ne_nil _ _

theorem meaning_escape (c : Char) :
    (escape c).meaning = (escaped? c).elim ['\\', c] fun e => [e] := by
  unfold meaning escaped?
  split <;> simp_all

end LiteralUnit

/-- The characters of units one after another. -/
def written (us : List LiteralUnit) : List Char := us.flatMap LiteralUnit.chars

@[simp] theorem written_nil : written [] = [] := rfl

@[simp] theorem written_cons (u : LiteralUnit) (us : List LiteralUnit) :
    written (u :: us) = u.chars ++ written us := rfl

/-! ### The units that are matched -/

/-- The units from here to the closing quote of a constant, and the text behind the quote;
nothing if the constant is not closed on its line. -/
def matchUnits : List Char → Option (List LiteralUnit × List Char)
  | [] => none
  | c :: cs =>
    if c = '"' then some ([], cs)
    else if c = '\\' then
      match cs with
      | [] => none
      | d :: ds =>
        if d = '\n' then none
        else (matchUnits ds).map fun m => (LiteralUnit.escape d :: m.1, m.2)
    else if c = '\r' ∨ c = '\n' then none
    else (matchUnits cs).map fun m => (LiteralUnit.plain c :: m.1, m.2)

/-- **A constant is closed behind the units that are matched.** -/
theorem closeLiteral_eq_matchUnits (cs : List Char) :
    closeLiteral cs = (matchUnits cs).map fun m => (written m.1 ++ ['"'], m.2) := by
  fun_induction matchUnits cs with
  | case1 => rfl
  | case2 cs => rw [closeLiteral.eq_def]; rfl
  | case3 => rfl
  | case4 => rfl
  | case5 d ds hfeed _ ih =>
    rw [closeLiteral.eq_def]
    simp only [if_neg hfeed, ih]
    cases matchUnits ds <;> rfl
  | case6 c cs hquote hslash hbreak =>
    rw [closeLiteral.eq_def]
    simp only [if_neg hquote, if_neg hslash, if_pos hbreak]
    rfl
  | case7 c cs hquote hslash hbreak ih =>
    rw [closeLiteral.eq_def]
    simp only [if_neg hquote, if_neg hslash, if_neg hbreak, ih]
    cases matchUnits cs <;> rfl

theorem allowed_of_matchUnits {cs rest : List Char} {us : List LiteralUnit}
    (h : matchUnits cs = some (us, rest)) :
    (∀ u ∈ us, u.Allowed) ∧ cs = written us ++ '"' :: rest := by
  fun_induction matchUnits cs generalizing us with
  | case1 => cases h
  | case2 =>
    cases h
    exact ⟨nofun, rfl⟩
  | case3 => cases h
  | case4 => cases h
  | case5 d ds hfeed _ ih =>
    obtain ⟨m, hm, he⟩ := Option.map_eq_some_iff.1 h
    cases he
    obtain ⟨hallowed, hds⟩ := ih hm
    exact ⟨List.forall_mem_cons.2 ⟨hfeed, hallowed⟩, by rw [hds]; rfl⟩
  | case6 => cases h
  | case7 c cs hquote hslash hbreak ih =>
    obtain ⟨m, hm, he⟩ := Option.map_eq_some_iff.1 h
    cases he
    obtain ⟨hreturn, hfeed⟩ := not_or.1 hbreak
    obtain ⟨hallowed, hcs⟩ := ih hm
    exact ⟨List.forall_mem_cons.2 ⟨⟨hquote, hslash, hreturn, hfeed⟩, hallowed⟩, by rw [hcs]; rfl⟩

theorem matchUnits_written {us : List LiteralUnit} (h : ∀ u ∈ us, u.Allowed) (rest : List Char) :
    matchUnits (written us ++ '"' :: rest) = some (us, rest) := by
  induction us with
  | nil =>
    rw [written_nil, List.nil_append, matchUnits.eq_def]
    rfl
  | cons u us ih =>
    obtain ⟨hu, hus⟩ := List.forall_mem_cons.1 h
    rw [written_cons, List.append_assoc, matchUnits.eq_def]
    cases u with
    | plain c =>
      obtain ⟨hquote, hslash, hreturn, hfeed⟩ := hu
      simp [LiteralUnit.chars, hquote, hslash, hreturn, hfeed, ih hus]
    | escape c =>
      have hfeed : c ≠ '\n' := hu
      simp [LiteralUnit.chars, hfeed, ih hus]

/-- **The units that are matched** are the allowed ones that a quote closes. -/
theorem matchUnits_eq_some_iff {cs rest : List Char} {us : List LiteralUnit} :
    matchUnits cs = some (us, rest) ↔
      (∀ u ∈ us, u.Allowed) ∧ cs = written us ++ '"' :: rest := by
  constructor
  · exact allowed_of_matchUnits
  · rintro ⟨hallowed, rfl⟩
    exact matchUnits_written hallowed rest

/-! ### There is one cut -/

/-- **A text is cut into units in one way.** -/
theorem eq_of_written_eq {us vs : List LiteralUnit} (hus : ∀ u ∈ us, u.WellCut)
    (hvs : ∀ v ∈ vs, v.WellCut) (h : written us = written vs) : us = vs := by
  induction us generalizing vs with
  | nil =>
    cases vs with
    | nil => rfl
    | cons v vs => exact absurd (List.append_eq_nil_iff.1 h.symm).1 v.chars_ne_nil
  | cons u us ih =>
    obtain ⟨hu, hrest⟩ := List.forall_mem_cons.1 hus
    cases vs with
    | nil => exact absurd (List.append_eq_nil_iff.1 h).1 u.chars_ne_nil
    | cons v vs =>
      obtain ⟨hv, hrest'⟩ := List.forall_mem_cons.1 hvs
      cases u with
      | plain c =>
        cases v with
        | plain d =>
          obtain ⟨rfl, hsame⟩ := List.cons.inj h
          rw [ih hrest hrest' hsame]
        | escape d => exact absurd (List.cons.inj h).1 hu
      | escape c =>
        cases v with
        | plain d => exact absurd (List.cons.inj h).1.symm hv
        | escape d =>
          obtain ⟨rfl, hsame⟩ := List.cons.inj (List.cons.inj h).2
          rw [ih hrest hrest' hsame]

/-! ### The value -/

/-- The text that the body of a string constant stands for, if a backslash with nothing
behind it stood for `lone`. -/
def unescapeWith (lone : List Char) : List Char → List Char
  | [] => []
  | [c] => if c = '\\' then lone else [c]
  | c :: d :: cs =>
    if c = '\\' then
      match escaped? d with
      | some e => e :: unescapeWith lone cs
      | none => c :: unescapeWith lone (d :: cs)
    else c :: unescapeWith lone (d :: cs)

/-- Such a backslash stands for itself. -/
theorem unescapeWith_slash (cs : List Char) : unescapeWith ['\\'] cs = unescape cs := by
  fun_induction unescape cs with
  | case1 => rfl
  | case2 c =>
    unfold unescapeWith
    split
    · next h => rw [h]
    · rfl
  | case3 d cs e he ih => rw [unescapeWith, if_pos rfl, he, ← ih]
  | case4 d cs he ih => rw [unescapeWith, if_pos rfl, he, ← ih]
  | case5 c d cs hslash ih => rw [unescapeWith, if_neg hslash, ih]

theorem unescapeWith_plain (lone : List Char) {c : Char} (h : c ≠ '\\') (cs : List Char) :
    unescapeWith lone (c :: cs) = c :: unescapeWith lone cs := by
  cases cs with
  | nil => exact if_neg h
  | cons d ds => rw [unescapeWith, if_neg h]

/-- A unit adds its meaning, and the scan goes on behind it. -/
theorem unescapeWith_unit (lone : List Char) {u : LiteralUnit} (h : u.WellCut) (cs : List Char) :
    unescapeWith lone (u.chars ++ cs) = u.meaning ++ unescapeWith lone cs := by
  cases u with
  | plain c => exact unescapeWith_plain lone h cs
  | escape c =>
    have hstep : unescapeWith lone ('\\' :: c :: cs) =
        match escaped? c with
        | some e => e :: unescapeWith lone cs
        | none => '\\' :: unescapeWith lone (c :: cs) := by
      rw [unescapeWith, if_pos rfl]
    rw [LiteralUnit.meaning_escape]
    refine hstep.trans ?_
    cases he : escaped? c with
    | some e => rfl
    | none =>
      have hslash : c ≠ '\\' := by
        rintro rfl
        cases he
      simp only [unescapeWith_plain lone hslash]
      rfl

/-- **The value of a body is made of the meanings of its units**, whatever a backslash at
its end would stand for. -/
theorem unescapeWith_written (lone : List Char) {us : List LiteralUnit}
    (h : ∀ u ∈ us, u.WellCut) :
    unescapeWith lone (written us) = us.flatMap LiteralUnit.meaning := by
  induction us with
  | nil => rfl
  | cons u us ih =>
    obtain ⟨hu, hus⟩ := List.forall_mem_cons.1 h
    rw [written_cons, unescapeWith_unit lone hu, ih hus]
    rfl

theorem unescape_written {us : List LiteralUnit} (h : ∀ u ∈ us, u.WellCut) :
    unescape (written us) = us.flatMap LiteralUnit.meaning := by
  rw [← unescapeWith_slash]
  exact unescapeWith_written _ h

/-! ### String constants of a text -/

/-- What is cut off as a string constant has been closed. -/
theorem closeLiteral_of_cut {s rest : List Char} {l : Lexeme} (h : cut s = some (l, rest))
    (hshape : l.shape = .literal) :
    ∃ closed, l.chars = '"' :: closed ∧ closeLiteral s.tail = some (closed, rest) := by
  obtain ⟨rfl, hfits⟩ := cut_eq_some_iff.1 h
  rcases hfits with hregular | ⟨c, rfl, -⟩
  · cases hregular with
    | @literal cs _ hcs =>
      refine ⟨cs ++ ['"'], rfl, ?_⟩
      simpa using hcs.closeLiteral rest
    | _ => cases hshape
  · cases hshape

/-- **Both scans of a string constant go by the same units.** The body of a string constant
is cut into units, and there is no other way to cut it: these are the units up to its
closing quote. The value of its token is made of their meanings, and it would be the same if
a backslash with nothing behind it stood for anything else. -/
theorem literal_cut_into_units {s rest : List Char} {l : Lexeme} (h : cut s = some (l, rest))
    (hshape : l.shape = .literal) :
    ∃ us : List LiteralUnit,
      l.chars = '"' :: (written us ++ ['"']) ∧
      (∀ u ∈ us, u.WellCut) ∧
      (∀ vs : List LiteralUnit, (∀ v ∈ vs, v.WellCut) → written vs = written us → vs = us) ∧
      matchUnits s.tail = some (us, rest) ∧
      (∀ p, l.item? p =
        some (.token ⟨.string, String.ofList (us.flatMap LiteralUnit.meaning), p⟩)) ∧
      ∀ lone, unescapeWith lone (written us) = us.flatMap LiteralUnit.meaning := by
  obtain ⟨closed, hchars, hclose⟩ := closeLiteral_of_cut h hshape
  rw [closeLiteral_eq_matchUnits] at hclose
  obtain ⟨⟨us, after⟩, hmatch, hsame⟩ := Option.map_eq_some_iff.1 hclose
  obtain ⟨rfl, rfl⟩ := Prod.mk.inj hsame
  obtain ⟨hallowed, -⟩ := matchUnits_eq_some_iff.1 hmatch
  have hus : ∀ u ∈ us, u.WellCut := fun u hu => (hallowed u hu).wellCut
  refine ⟨us, hchars, hus, ?_, hmatch, ?_, fun lone => unescapeWith_written lone hus⟩
  · exact fun vs hvs hwritten => eq_of_written_eq hvs hus hwritten
  · intro p
    have hbody : l.chars.tail.dropLast = written us := by rw [hchars]; simp
    rw [Lexeme.item?, hshape]
    simp only [hbody, unescape_written hus]

/-- Three backslashes in front of a quote, an escape that means nothing, and a backslash in
front of a carriage return. -/
theorem literal_cut_into_units_of_backslashes :
    (∀ vs : List LiteralUnit, (∀ v ∈ vs, v.WellCut) →
      written vs = ['\\', '\\', '\\', '"', '\\', 'q', '\\', '\r'] →
      vs = [.escape '\\', .escape '"', .escape 'q', .escape '\r']) ∧
    Lexeme.item? ⟨.literal, ['"', '\\', '\\', '\\', '"', '\\', 'q', '\\', '\r', '"']⟩ ⟨1, 1⟩ =
      some (.token ⟨.string, "\\\"\\q\\\r", ⟨1, 1⟩⟩) := by
  have hcut : cut ['"', '\\', '\\', '\\', '"', '\\', 'q', '\\', '\r', '"', ';'] =
      some (⟨.literal, ['"', '\\', '\\', '\\', '"', '\\', 'q', '\\', '\r', '"']⟩, [';']) := by
    decide
  obtain ⟨us, -, -, honly, hmatch, hitem, -⟩ := literal_cut_into_units hcut rfl
  obtain rfl : [.escape '\\', .escape '"', .escape 'q', .escape '\r'] = us :=
    (Prod.mk.inj (Option.some.inj hmatch)).1
  exact ⟨honly, hitem ⟨1, 1⟩⟩

end BantamJava
