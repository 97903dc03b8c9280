/-
# The positions of a program

Whatever a text is, every node of the program that is parsed from it has the position of a
token that it was made from, and these positions are in the order of the text: along the tree
in preorder they never go back, and from one part of a node to the next they move on.

Faulty lexemes between the tokens change nothing in this, since the tree is that of the tokens
alone (`Transcript.keeps_of_source`). And the tokens of a text are one behind another
(`Transcript.ascends_of_text`), for what yields an item starts with a character that is no
line break.

Key theorems: `Transcript.ascends_of_text`, `Transcript.keeps_of_source`, `parse_positions`.
-/
import BantamJava.Proofs.Positions.Nodes
import BantamJava.Proofs.ReaderPlace
import BantamJava.Proofs.Reading.Complete

namespace BantamJava

open BantamJava.Parser

/-! ### Tokens one behind another -/

theorem positions_tokensAhead (items : List Item) :
    ((tokensAhead items).map Token.position).Sublist (items.map Source.itemPosition) := by
  induction items with
  | nil => exact .slnil
  | cons item items ih =>
    cases item with
    | fault f => exact ih.cons _
    | token t =>
      simp only [tokensAhead]
      split
      · exact List.nil_sublist _
      · exact ih.cons_cons _

theorem Transcript.ascends_of_text {text : String} (hlength : text.length < UInt32.size)
    (file : String) (last : Token) (told : List Fault) :
    (⟨(Source.ofText text file).tokens, last, told⟩ : Transcript).Ascends := by
  rw [← String.length_toList] at hlength
  have hascend := (Reader.Behind.ofText text file).items_ascend hlength
  exact hascend.sublist (positions_tokensAhead _)

/-! ### The tree of the tokens alone -/

theorem Interleaves.mem_right {α : Type} {xs ys zs : List α} {a : α} (h : Interleaves xs ys zs)
    (ha : a ∈ ys) : a ∈ zs := by
  induction h with
  | nil => exact ha
  | left x _ ih => exact List.mem_cons_of_mem x (ih ha)
  | right y _ ih =>
    rcases List.mem_cons.1 ha with rfl | ha
    · exact List.mem_cons_self
    · exact List.mem_cons_of_mem y (ih ha)

theorem endAhead_withoutFaults (finish : EndToken) (items : List Item) :
    endAhead finish (withoutFaults items) = endAhead finish items := by
  induction items with
  | nil => rfl
  | cons item items ih => cases item <;> simp [endAhead, ih]

namespace Transcript

theorem along_cleared (s : Source) (told : List Fault) :
    (⟨s.tokens, s.last, told⟩ : Transcript).Along (Cursor.ofSource s).1.cleared := by
  have halong := along_ofSource (s := ⟨withoutFaults s.items, s.finish⟩)
    (faultsAhead_withoutFaults s.items) told
  rw [(Cursor.ofSource_cleared s.items s.finish).1] at halong
  have htokens : (⟨withoutFaults s.items, s.finish⟩ : Source).tokens = s.tokens :=
    tokensAhead_withoutFaults s.items
  have hlast : (⟨withoutFaults s.items, s.finish⟩ : Source).last = s.last :=
    endAhead_withoutFaults s.finish s.items
  rwa [htokens, hlast] at halong

/-- **The classes of a program were kept with intervals of the tokens**, whatever is wrong
between these. -/
theorem keeps_of_source (file : String) (s : Source) :
    let parsed := (Session.start file s).parse
    let T : Transcript := ⟨s.tokens, s.last, parsed.2.diagnostics.map (·.fault)⟩
    Listing T.KeptClass 0 T.tokens.length parsed.1.classes := by
  intro parsed T
  let c := (Session.start file s).cursor
  obtain ⟨cs, hcs⟩ := (classes_ends .standard c).1
  obtain ⟨houtcome, hmixed⟩ := World.classes_cleared .standard c
  have hfaults : T.told = _ := Session.faults_parse (s := Session.start file s) hcs
  have halong : T.Along c.cleared := along_cleared s T.told
  have hlisting := keeps_classes _ halong trivial (fun f hf => ?_) cs (houtcome.trans hcs)
  · rw [show parsed.1.classes = cs from Session.classes_parse hcs]
    exact hlisting.widen_right (halong.reaches ((classes .standard).reaches _)).bound
  · rw [hfaults]
    exact List.mem_append_right _ (hmixed.mem_right hf)

end Transcript

/-! ### Positions -/

/-- **Every node is where its tokens are, in the order of the text.** A program has the
position of the first token, or of the end if there is none. Every node in it was made from
an interval of the tokens and has the position of one of them: a class that of its word
`class`, a block that of its opening brace, a member, a parameter and a statement that of the
first token, and an expression that of the first token that opens no parenthesis. So the
positions never go back in preorder, and the classes of the program and the parts of a node
are one behind another. -/
theorem parse_positions (text file : String) (hlength : text.length < UInt32.size) :
    let source := Source.ofText text file
    let parsed := parse text file
    let T : Transcript := ⟨source.tokens, source.last, parsed.diagnostics.map (·.fault)⟩
    parsed.program.position = (T.tokenAt 0).position ∧
      (∀ x ∈ parsed.program.nodes, ∃ i k j, T.Sits i k j x) ∧
      (parsed.program.position :: parsed.program.nodes.map Node.position).Pairwise (· ≤ ·) ∧
      (parsed.program.classes.map Class.position).Pairwise (· < ·) ∧
      ∀ x ∈ parsed.program.nodes, (x.parts.map Node.position).Pairwise (· < ·) := by
  intro source parsed T
  have hclasses : Listing T.Derives 0 T.tokens.length (parsed.program.classes.map .ofClass) :=
    (Transcript.keeps_of_source file source).map Node.ofClass fun _ _ _ h => h
  have hT : T.Ascends := Transcript.ascends_of_text hlength file _ _
  have hposition : parsed.program.position = (T.tokenAt 0).position := by
    have hcurrent := (Transcript.along_cleared source T.told).current
    rw [show parsed.program.position = _ from Session.position_parse (Session.start file source)]
    exact congrArg Token.position hcurrent
  have hsits : ∀ x ∈ parsed.program.nodes, ∃ i k j, T.Sits i k j x := by
    intro x hx
    obtain ⟨y, hy, hx⟩ := List.mem_flatMap.1 hx
    obtain ⟨a, b, -, -, hderives⟩ := hclasses.mem hy
    obtain ⟨i, k, j, -, -, hk⟩ := hderives.nodes hx
    exact ⟨i, k, j, hk⟩
  refine ⟨hposition, hsits, List.pairwise_cons.2 ⟨?_, ?_⟩, ?_, ?_⟩
  · intro p hp
    obtain ⟨x, hx, rfl⟩ := List.mem_map.1 hp
    obtain ⟨i, k, j, hk⟩ := hsits x hx
    rw [hposition, hk.position]
    exact hT.le (Nat.zero_le k) hk.bound
  · refine List.pairwise_map.2 (Transcript.trees_ascend hT hclasses fun y hy => ?_)
    obtain ⟨a, b, -, -, hderives⟩ := hclasses.mem hy
    exact Transcript.preorder_ascends hT hderives
  · have hascend := List.pairwise_map.1 (Transcript.siblings_ascend hT hclasses)
    exact List.pairwise_map.2 hascend
  · intro x hx
    obtain ⟨i, k, j, hk⟩ := hsits x hx
    exact List.pairwise_map.2 (Transcript.siblings_ascend hT hk.derives.parts)

/-- In `class A { int f = a + b; }` the four nodes under the class stand where their own tokens
do, and the operator's node with its left operand. -/
theorem parse_positions_sum :
    let text := "class A \x7b int f = a + b; \x7d"
    let nodes := (parse text "a").program.nodes
    text.length < UInt32.size ∧ nodes.length = 5 ∧
      (nodes.map Node.position).Pairwise (· ≤ ·) ∧
      ∀ x ∈ nodes, (x.parts.map Node.position).Pairwise (· < ·) := by
  intro text nodes
  have hlength : text.length < UInt32.size := by decide +kernel
  obtain ⟨-, -, hpreorder, -, hparts⟩ := parse_positions text "a" hlength
  exact ⟨hlength, by decide +kernel, (List.pairwise_cons.1 hpreorder).2, hparts⟩

end BantamJava
