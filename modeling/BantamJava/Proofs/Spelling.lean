/-
# Spelling tokens

Every token has a spelling that is read back as that token. Tokens of most kinds are
spelled in one way; a word, a number and a boolean constant are spelled as their value
says. A string constant is spelled with its line feeds, quotes and backslashes escaped,
except that a backslash in front of a carriage return is left as it is: the two are read
as themselves, and a carriage return can stand in a constant in no other way.

A text in which each token follows the one before it after a space is read as these
tokens again, if the values are such as tokens of their kinds can have
(`Kind.Admits`). The tokens of a text are always like this.

Key definitions: `Kind.Admits`, `escapeLiteral`, `Token.spelling`, `spelled`.
Key theorems: `unescape_escapeLiteral`, `literalBody_escapeLiteral`, `Token.cut_spelling`,
`itemsAt_spelled`, `Lexeme.Fits.admits`, `spelling_inverts_tokenize`.
-/
import BantamJava.Proofs.JoinedLines

namespace BantamJava

/-! ### Values and spellings -/

/-- Whether all tokens of the kind are spelled the same. -/
def Kind.isFixed (k : Kind) : Bool :=
  !([.endOfInput, .number, .string, .boolean, .identifier] : List Kind).contains k

/-- A letter, followed by letters, digits and underscores. -/
def IsWord (cs : List Char) : Prop :=
  cs.head?.any isLetter = true ∧ cs.tail.all isWordChar = true

instance (cs : List Char) : Decidable (IsWord cs) := inferInstanceAs (Decidable (_ ∧ _))

/-- Every carriage return stands directly behind a backslash. The first character stands
behind the quote that opens the constant. -/
def ReturnsEscaped (cs : List Char) : Prop :=
  ('"' :: cs).IsChain fun c d => d = '\r' → c = '\\'

instance (cs : List Char) : Decidable (ReturnsEscaped cs) :=
  inferInstanceAs (Decidable (List.IsChain _ _))

/-- The values that tokens of a kind may have. -/
inductive Kind.Admits : Kind → String → Prop where
  | fixed {k : Kind} {value : String} (hfixed : k.isFixed = true) (hvalue : value = k.describe) :
      Admits k value
  | identifier {value : String} (hword : IsWord value.toList)
      (hfree : reservedKind? value = none) : Admits .identifier value
  | number {value : String} (hne : value ≠ "") (hdigits : ∀ c ∈ value.toList, isDigit c = true) :
      Admits .number value
  | boolean {value : String} (h : value = "true" ∨ value = "false") : Admits .boolean value
  | string {value : String} (h : ReturnsEscaped value.toList) : Admits .string value

/-- How a character is written inside a string constant. -/
def escapeChar (c : Char) : List Char :=
  if c = '\n' then ['\\', 'n']
  else if c = '"' then ['\\', '"']
  else if c = '\\' then ['\\', '\\']
  else [c]

/-- How a text is written inside a string constant. A backslash directly in front of a
carriage return is left single. -/
def escapeLiteral : List Char → List Char
  | [] => []
  | [c] => escapeChar c
  | c :: d :: cs =>
    if c = '\\' ∧ d = '\r' then c :: d :: escapeLiteral cs
    else escapeChar c ++ escapeLiteral (d :: cs)

/-- The spelling of a token. -/
def Token.spelling (t : Token) : String :=
  match t.kind with
  | .identifier | .number | .boolean => t.value
  | .string => String.ofList ('"' :: (escapeLiteral t.value.toList ++ ['"']))
  | kind => kind.describe

/-- The spellings of tokens, with a space between each two. -/
def spelled (ts : List Token) : String :=
  " ".intercalate (ts.map Token.spelling)

/-- What a token says, wherever it stands. -/
def Token.content (t : Token) : Kind × String := (t.kind, t.value)

/-! ### String constants -/

theorem unescape_plain {c : Char} (h : c ≠ '\\') (cs : List Char) :
    unescape (c :: cs) = c :: unescape cs := by
  cases cs with
  | nil => rfl
  | cons d ds => rw [unescape, if_neg h]

theorem unescape_escaped {c e : Char} (h : escaped? c = some e) (cs : List Char) :
    unescape ('\\' :: c :: cs) = e :: unescape cs := by
  rw [unescape, if_pos rfl, h]

/-- A backslash that starts no escape stands for itself, and so does the next character. -/
theorem unescape_unknown {c : Char} (h : escaped? c = none) (cs : List Char) :
    unescape ('\\' :: c :: cs) = '\\' :: c :: unescape cs := by
  have hslash : c ≠ '\\' := by
    rintro rfl
    cases h
  rw [unescape, if_pos rfl, h]
  simp only
  rw [unescape_plain hslash]

theorem unescape_escapeChar (c : Char) (cs : List Char) :
    unescape (escapeChar c ++ cs) = c :: unescape cs := by
  unfold escapeChar
  split
  · next h => rw [h]; exact unescape_escaped rfl cs
  split
  · next h => rw [h]; exact unescape_escaped rfl cs
  split
  · next h => rw [h]; exact unescape_escaped rfl cs
  · next h => exact unescape_plain h cs

/-- **Escaping is undone.** -/
theorem unescape_escapeLiteral (cs : List Char) : unescape (escapeLiteral cs) = cs := by
  fun_induction escapeLiteral cs with
  | case1 => rfl
  | case2 c => simpa [unescape] using unescape_escapeChar c []
  | case3 c d cs h ih =>
    obtain ⟨rfl, rfl⟩ := h
    rw [unescape_unknown rfl, ih]
  | case4 c d cs _ ih => rw [unescape_escapeChar, ih]

/-- No carriage return stands in front, and the others go by the character before them. -/
theorem returnsEscaped_cons {c : Char} {cs : List Char} :
    ReturnsEscaped (c :: cs) ↔ c ≠ '\r' ∧ (c :: cs).IsChain fun c d => d = '\r' → c = '\\' := by
  rw [ReturnsEscaped, List.isChain_cons_cons]
  simp

/-- Whatever stands in front of such a text, its first character is no carriage return. -/
theorem ReturnsEscaped.chain {cs : List Char} (h : ReturnsEscaped cs) (c : Char) :
    (c :: cs).IsChain fun c d => d = '\r' → c = '\\' := by
  cases cs with
  | nil => exact .singleton c
  | cons d ds =>
    obtain ⟨hd, hds⟩ := returnsEscaped_cons.1 h
    exact .cons_cons (fun hr => absurd hr hd) hds

theorem returnsEscaped_of_chain {c : Char} {cs : List Char} (hc : c ≠ '\\')
    (h : (c :: cs).IsChain fun c d => d = '\r' → c = '\\') : ReturnsEscaped cs := by
  cases cs with
  | nil => exact .singleton _
  | cons d ds =>
    obtain ⟨hd, hds⟩ := List.isChain_cons_cons.1 h
    exact returnsEscaped_cons.2 ⟨fun hr => hc (hd hr), hds⟩

theorem LiteralBody.escapeChar_append {c : Char} {body : List Char} (hc : c ≠ '\r')
    (h : LiteralBody body) : LiteralBody (escapeChar c ++ body) := by
  unfold escapeChar
  split
  · exact .escape (by decide) h
  split
  · exact .escape (by decide) h
  split
  · exact .escape (by decide) h
  · next hfeed hquote hslash => exact .plain hquote hslash (staysOnLine_iff.2 ⟨hc, hfeed⟩) h

/-- **What is escaped can stand in a string constant.** -/
theorem literalBody_escapeLiteral {cs : List Char} (h : ReturnsEscaped cs) :
    LiteralBody (escapeLiteral cs) := by
  fun_induction escapeLiteral cs with
  | case1 => exact .nil
  | case2 c =>
    rw [← List.append_nil (escapeChar c)]
    exact .escapeChar_append (returnsEscaped_cons.1 h).1 .nil
  | case3 c d cs hpair ih =>
    obtain ⟨rfl, rfl⟩ := hpair
    obtain ⟨-, hchain⟩ := returnsEscaped_cons.1 h
    have hcs : ReturnsEscaped cs :=
      returnsEscaped_of_chain (by decide) (List.isChain_cons_cons.1 hchain).2
    exact .escape (by decide) (ih hcs)
  | case4 c d cs hpair ih =>
    obtain ⟨hc, hchain⟩ := returnsEscaped_cons.1 h
    obtain ⟨hd, hcs⟩ := List.isChain_cons_cons.1 hchain
    have hdcs : ReturnsEscaped (d :: cs) :=
      returnsEscaped_cons.2 ⟨fun hr => hpair ⟨hd hr, hr⟩, hcs⟩
    exact .escapeChar_append hc (ih hdcs)

/-- **In the value of a string constant every carriage return is behind a backslash.** -/
theorem LiteralBody.returnsEscaped {body : List Char} (h : LiteralBody body) :
    ReturnsEscaped (unescape body) := by
  induction h with
  | nil => exact .singleton _
  | @plain c cs _ hslash hline _ ih =>
    rw [unescape_plain hslash]
    exact returnsEscaped_cons.2 ⟨(staysOnLine_iff.1 hline).1, ih.chain c⟩
  | @escape c cs _ _ ih =>
    cases he : escaped? c with
    | none =>
      rw [unescape_unknown he]
      exact returnsEscaped_cons.2 ⟨by decide, .cons_cons (fun _ => rfl) (ih.chain c)⟩
    | some e =>
      rw [unescape_escaped he]
      have hreturn : e ≠ '\r' := by
        rintro rfl
        unfold escaped? at he
        split_ifs at he <;> simp at he
      exact returnsEscaped_cons.2 ⟨hreturn, ih.chain e⟩

/-! ### Reading a spelling -/

/-- What may come behind a spelling: a space, or nothing at all. -/
def Apart (rest : List Char) : Prop := ∀ c ∈ rest.head?, c = ' '

theorem Apart.maximal {rest : List Char} (h : Apart rest) {within : Char → Bool}
    (hspace : within ' ' = false) {run : List Char} (hall : ∀ c ∈ run, within c = true) :
    Maximal within run rest where
  all := hall
  stops c hc := by rw [h c hc]; exact hspace

/-- A text without spaces does not reach over the end of a spelling. -/
theorem Apart.prefix_iff {rest : List Char} (h : Apart rest) {xs : List Char} (hxs : ' ' ∉ xs)
    (text : List Char) : xs <+: text ++ rest ↔ xs <+: text := by
  cases rest with
  | nil => rw [List.append_nil]
  | cons c cs =>
    obtain rfl : c = ' ' := h c rfl
    exact prefix_append_cons_iff hxs text cs

theorem IsWord.cut {cs rest : List Char} (h : IsWord cs) (hrest : Apart rest) :
    cut (cs ++ rest) = some (⟨.word, cs⟩, rest) := by
  obtain ⟨hhead, htail⟩ := h
  cases cs with
  | nil => cases hhead
  | cons c cs =>
    have hmax := hrest.maximal (by decide) (List.all_eq_true.1 htail)
    exact (Lexeme.Regular.word hhead hmax).cut

theorem operators_without_space : ∀ o ∈ operators, ' ' ∉ o.1 := by
  decide

theorem operators_start_no_comment :
    ∀ o ∈ operators, ¬ ['/', '/'] <+: o.1 ∧ ¬ ['/', '*'] <+: o.1 := by
  decide

theorem cut_operator {chars rest : List Char} {kind : Kind} (h : (chars, kind) ∈ operators)
    (hrest : Apart rest) : cut (chars ++ rest) = some (⟨.operator kind, chars⟩, rest) := by
  obtain ⟨hline, hblock⟩ := operators_start_no_comment _ h
  have hregular : Lexeme.Regular ⟨.operator kind, chars⟩ rest := by
    refine .operator h ?_ ?_ ?_
    · intro o ho hfits
      exact ((hrest.prefix_iff (operators_without_space o ho) chars).1 hfits).length_le
    · rwa [hrest.prefix_iff (by decide)]
    · rwa [hrest.prefix_iff (by decide)]
  exact hregular.cut

/-- A kind whose spelling is fixed is that of a reserved word or an operator. -/
theorem Kind.reserved_or_operator {k : Kind} (h : k.isFixed = true) :
    (k.describe, k) ∈ reservedWords ∨ (k.describe.toList, k) ∈ operators := by
  revert h
  cases k <;> decide

theorem reservedWords_isWord : ∀ r ∈ reservedWords, IsWord r.1.toList := by
  decide

/-- The word is read as a token of the kind that the table gives it. -/
theorem cut_reserved {word : String} {kind : Kind} (h : (word, kind) ∈ reservedWords)
    {rest : List Char} (hrest : Apart rest) :
    ∃ l, cut (word.toList ++ rest) = some (l, rest) ∧
      ∀ p, l.item? p = some (.token ⟨kind, word, p⟩) := by
  refine ⟨_, (reservedWords_isWord _ h).cut hrest, fun p => ?_⟩
  simp [Lexeme.item?, wordKind, reservedKind?_of_mem _ h]

theorem Token.spelling_of_isFixed {t : Token} (h : t.kind.isFixed = true) :
    t.spelling = t.kind.describe := by
  unfold spelling
  split <;> simp_all [Kind.isFixed]

/-- **A spelling is read as its token.** -/
theorem Token.cut_spelling {t : Token} (h : t.kind.Admits t.value) {rest : List Char}
    (hrest : Apart rest) :
    ∃ l, cut (t.spelling.toList ++ rest) = some (l, rest) ∧
      ∀ p, l.item? p = some (.token ⟨t.kind, t.value, p⟩) := by
  obtain ⟨kind, value, position⟩ := t
  cases h with
  | fixed hfixed hvalue =>
    rw [spelling_of_isFixed hfixed, hvalue]
    rcases Kind.reserved_or_operator hfixed with hword | hop
    · exact cut_reserved hword hrest
    · exact ⟨_, cut_operator hop hrest, fun p => by simp [Lexeme.item?]⟩
  | identifier hword hfree =>
    refine ⟨_, hword.cut hrest, fun p => ?_⟩
    simp [Lexeme.item?, wordKind, hfree]
  | number hne hdigits =>
    cases hchars : value.toList with
    | nil => exact absurd (String.toList_eq_nil_iff.1 hchars) hne
    | cons c cs =>
      rw [hchars] at hdigits
      obtain ⟨hc, hcs⟩ := List.forall_mem_cons.1 hdigits
      have hregular := Lexeme.Regular.number hc (hrest.maximal (by decide) hcs)
      refine ⟨⟨.number, c :: cs⟩, ?_, fun p => ?_⟩
      · rw [spelling, hchars]
        exact hregular.cut
      · simp [Lexeme.item?, ← hchars]
  | boolean hvalue =>
    have htrue : ("true", Kind.boolean) ∈ reservedWords := by decide
    have hfalse : ("false", Kind.boolean) ∈ reservedWords := by decide
    rcases hvalue with rfl | rfl
    · exact cut_reserved htrue hrest
    · exact cut_reserved hfalse hrest
  | string hreturns =>
    let l : Lexeme := ⟨.literal, '"' :: (escapeLiteral value.toList ++ ['"'])⟩
    have hregular : l.Regular rest := .literal (literalBody_escapeLiteral hreturns)
    refine ⟨l, ?_, fun p => ?_⟩
    · rw [spelling, String.toList_ofList]
      exact hregular.cut
    · simp [l, Lexeme.item?, unescape_escapeLiteral]

/-! ### Reading spellings one after another -/

theorem tokensOf_map_token (ts : List Token) : tokensOf (ts.map .token) = .ok ts := by
  induction ts with
  | nil => rfl
  | cons t ts ih => rw [List.map_cons, tokensOf, ih]; rfl

theorem eq_map_of_tokensOf {items : List Item} {ts : List Token} (h : tokensOf items = .ok ts) :
    items = ts.map .token := by
  induction items generalizing ts with
  | nil =>
    cases h
    rfl
  | cons item items ih =>
    cases item with
    | fault f => cases h
    | token t =>
      rw [tokensOf] at h
      cases hitems : tokensOf items with
      | error f =>
        rw [hitems] at h
        cases h
      | ok us =>
        rw [hitems] at h
        cases h
        rw [List.map_cons, ih hitems]

theorem toList_spelled_cons (t : Token) (ts : List Token) :
    (spelled (t :: ts)).toList =
      t.spelling.toList ++ if ts = [] then [] else ' ' :: (spelled ts).toList := by
  cases ts with
  | nil => simp [spelled]
  | cons u us => simp [spelled]

/-- **Spellings with a space between each two are read as their tokens.** -/
theorem itemsAt_spelled {ts : List Token} (h : ∀ t ∈ ts, t.kind.Admits t.value) (p : Place) :
    ∃ us : List Token, itemsAt p (spelled ts).toList = us.map .token ∧
      us.map Token.content = ts.map Token.content := by
  induction ts generalizing p with
  | nil => exact ⟨[], by simp [spelled], rfl⟩
  | cons t ts ih =>
    obtain ⟨ht, hts⟩ := List.forall_mem_cons.1 h
    have hapart : Apart (if ts = [] then [] else ' ' :: (spelled ts).toList) := by
      unfold Apart
      split <;> simp
    obtain ⟨l, hcut, hitem⟩ := Token.cut_spelling ht hapart
    rw [toList_spelled_cons, itemsAt_cut hcut, hitem]
    by_cases hnil : ts = []
    · refine ⟨[⟨t.kind, t.value, p.position⟩], ?_, ?_⟩
      · simp [hnil]
      · simp [hnil, Token.content]
    · rw [if_neg hnil, itemsAt_blank (by decide)]
      obtain ⟨us, hus, hcontent⟩ := ih hts ((p.after l.chars).step ' ')
      refine ⟨⟨t.kind, t.value, p.position⟩ :: us, ?_, ?_⟩
      · rw [hus]
        rfl
      · rw [List.map_cons, hcontent]
        rfl

theorem tokenize_eq (text : String) :
    tokenize text = (tokensOf (itemsAt .start text.toList)).map
      (· ++ [.atEnd (Place.start.after text.toList).position]) := by
  unfold tokenize
  simp only [Reader.items_eq]
  rfl

theorem tokenize_spelled {ts : List Token} (h : ∀ t ∈ ts, t.kind.Admits t.value) :
    ∃ read, tokenize (spelled ts) = .ok read ∧
      read.map Token.content = ts.map Token.content ++ [(.endOfInput, "EOF")] := by
  obtain ⟨us, hus, hcontent⟩ := itemsAt_spelled h .start
  rw [tokenize_eq, hus, tokensOf_map_token]
  refine ⟨_, rfl, ?_⟩
  rw [List.map_append, hcontent]
  rfl

/-! ### The tokens of a text -/

theorem reservedWords_fixed_or_boolean : ∀ r ∈ reservedWords,
    (r.2.isFixed = true ∧ r.1 = r.2.describe) ∨
      (r.2 = .boolean ∧ (r.1 = "true" ∨ r.1 = "false")) := by
  decide

theorem operators_describe : ∀ o ∈ operators,
    o.2.isFixed = true ∧ String.ofList o.1 = o.2.describe := by
  decide

theorem admits_reserved {word : String} {kind : Kind} (h : (word, kind) ∈ reservedWords) :
    kind.Admits word := by
  rcases reservedWords_fixed_or_boolean _ h with ⟨hfixed, hword⟩ | ⟨hkind, hword⟩
  · exact .fixed hfixed hword
  · obtain rfl : kind = .boolean := hkind
    exact .boolean hword

theorem admits_word {cs : List Char} (h : IsWord cs) :
    (wordKind (String.ofList cs)).Admits (String.ofList cs) := by
  cases hk : reservedKind? (String.ofList cs) with
  | none =>
    rw [wordKind, hk]
    exact .identifier (by rwa [String.toList_ofList]) hk
  | some kind =>
    rw [wordKind, hk]
    exact admits_reserved (mem_of_reservedKind? hk)

/-- **The token of a lexeme has a value that its kind admits.** -/
theorem Lexeme.Fits.admits {l : Lexeme} {rest : List Char} (h : l.Fits rest) {p : Position}
    {t : Token} (hitem : l.item? p = some (.token t)) : t.kind.Admits t.value := by
  rcases h with hregular | ⟨c, rfl, -⟩
  · cases hregular with
    | word hc hcs =>
      cases hitem
      exact admits_word ⟨hc, List.all_eq_true.2 hcs.all⟩
    | number hc hcs =>
      cases hitem
      refine .number ?_ ?_
      · rw [Ne, ← String.toList_eq_nil_iff, String.toList_ofList]
        exact List.cons_ne_nil _ _
      · rw [String.toList_ofList]
        exact List.forall_mem_cons.2 ⟨hc, hcs.all⟩
    | literal hbody =>
      cases hitem
      refine .string ?_
      simp only [List.tail_cons, List.dropLast_concat, String.toList_ofList]
      exact hbody.returnsEscaped
    | operator hmem _ _ _ =>
      cases hitem
      obtain ⟨hfixed, hchars⟩ := operators_describe _ hmem
      exact .fixed hfixed hchars
    | _ => cases hitem
  · cases hitem

theorem Tiles.admits {p : Place} {text : List Char} {ls : List Lexeme} {items : List Item}
    (h : Tiles p text ls items) {t : Token} (ht : .token t ∈ items) :
    t.kind.Admits t.value := by
  induction h with
  | nil => cases ht
  | cons hfits hyields _ ih =>
    rcases List.mem_append.1 ht with hhere | hrest
    · rw [hyields.eq_item?, Option.mem_toList] at hhere
      exact hfits.admits hhere
    · exact ih hrest

theorem admits_of_tokenize {text : String} {read : List Token} (h : tokenize text = .ok read) :
    ∃ ts : List Token, ∃ p, read = ts ++ [.atEnd p] ∧ ∀ t ∈ ts, t.kind.Admits t.value := by
  rw [tokenize_eq] at h
  cases hitems : tokensOf (itemsAt .start text.toList) with
  | error f =>
    rw [hitems] at h
    cases h
  | ok ts =>
    rw [hitems] at h
    obtain rfl := Except.ok.inj h
    refine ⟨ts, _, rfl, fun t ht => ?_⟩
    obtain ⟨ls, htiles⟩ := tiles_itemsAt .start text.toList
    refine htiles.admits ?_
    rw [eq_map_of_tokensOf hitems]
    exact List.mem_map_of_mem ht

/-- **Spelling and reading are inverse.** Tokens whose values are such as their kinds admit
are spelled as a text that is read as these tokens again, in their order, and then the end
token. The tokens of a text that has no faults are all like this, so the text of their
spellings is read as they were. -/
theorem spelling_inverts_tokenize :
    (∀ ts : List Token, (∀ t ∈ ts, t.kind.Admits t.value) →
      ∃ read, tokenize (spelled ts) = .ok read ∧
        read.map Token.content = ts.map Token.content ++ [(.endOfInput, "EOF")]) ∧
    (∀ (text : String) (read : List Token), tokenize text = .ok read →
      ∃ ts p, read = ts ++ [.atEnd p] ∧ (∀ t ∈ ts, t.kind.Admits t.value) ∧
        ∃ again, tokenize (spelled ts) = .ok again ∧
          again.map Token.content = read.map Token.content) := by
  refine ⟨fun ts h => tokenize_spelled h, fun text read h => ?_⟩
  obtain ⟨ts, p, rfl, hts⟩ := admits_of_tokenize h
  obtain ⟨again, hagain, hcontent⟩ := tokenize_spelled hts
  refine ⟨ts, p, rfl, hts, again, hagain, ?_⟩
  rw [hcontent, List.map_append]
  rfl

/-- A string constant that holds a carriage return and every character that is escaped,
behind a word that starts like a reserved one; and a text with an escape that means
nothing. -/
theorem spelling_inverts_tokenize_escapes :
    (∃ read, tokenize (spelled [⟨.identifier, "classy", ⟨1, 1⟩⟩,
        ⟨.string, "\\\r\"\n\\", ⟨1, 1⟩⟩]) = .ok read ∧
      read.map Token.content =
        [(.identifier, "classy"), (.string, "\\\r\"\n\\"), (.endOfInput, "EOF")]) ∧
    ∃ ts p, [⟨.plusPlus, "++", ⟨1, 1⟩⟩, ⟨.string, "\\z", ⟨1, 3⟩⟩, .atEnd ⟨1, 7⟩] =
        ts ++ [Token.atEnd p] ∧ (∀ t ∈ ts, t.kind.Admits t.value) ∧
      ∃ again, tokenize (spelled ts) = .ok again ∧
        again.map Token.content = [(.plusPlus, "++"), (.string, "\\z"), (.endOfInput, "EOF")] := by
  obtain ⟨hspelled, hread⟩ := spelling_inverts_tokenize
  constructor
  · refine hspelled _ ?_
    simp only [List.forall_mem_cons]
    exact ⟨.identifier (by decide) (by decide), .string (by decide), nofun⟩
  · exact hread "++\"\\z\"" _ (by decide +kernel)

end BantamJava
