/-
# Classes in lockstep

The parsers of members and classes keep two runs in lockstep, recovery
included. Recovery inside a class counts the braces it opens and passes over a
`class` between them, so here the two runs rely on the braces of the first
run's input being closed before it ends.

Key theorems: `World.skipMember_lockstep`, `World.member_lockstep`,
`World.classDecl_lockstep`, `World.classTurn_lockstep`.
-/
import BantamJava.Proofs.Lockstep.Stmt

namespace BantamJava
namespace World

open BantamJava.Parser

variable {W : World} {n : Nat}

/-! ### Members -/

theorem formal_lockstep : W.Lockstep n formal formal := by
  refine lockstep_current (fun t => Lockstep.when ?_) fun _ _ _ _ =>
    typeName_lockstep.dead typeName_consuming
  exact typeName_lockstep.bind fun type => identifier_lockstep.bind fun name => lockstep_pure _

theorem parameters_lockstep : W.Lockstep n parameters parameters := by
  refine lockstep_kind rfl fun k => ?_
  by_cases hk : k = .closeParen
  · simp only [if_pos hk]
    exact (lockstep_pure _).when
  · simp only [if_neg hk]
    exact (commaSeparated_lockstep formal_lockstep).when

theorem fieldRest_lockstep (p : Position) (type name : String) :
    W.Lockstep n (fieldRest p type name) (fieldRest p type name) := by
  refine lockstep_kind rfl fun k => ?_
  by_cases hk : k = .assignment
  · subst hk
    exact lockstep_skip_then (by decide) (expr_lockstep.bind fun init =>
      (lockstep_expect (by decide) (by decide)).bind fun _ => lockstep_pure _)
  · simp only [if_neg hk]
    exact Lockstep.when ((lockstep_expect (by decide) (by decide)).bind fun _ => lockstep_pure _)

section Table

variable {table : StmtTable}

theorem methodRest_lockstep (ht : W.Allows table) (p : Position) (type name : String) :
    W.LockstepIf n (At .openParen) (methodRest table p type name) (methodRest table p type name) :=
  lockstep_note_bind rfl rfl (lockstep_skip_then (by decide) (parameters_lockstep.bind fun _ =>
    (lockstep_expect (by decide) (by decide)).bind fun _ =>
    (block_lockstep ht).bind fun _ => lockstep_pure _))

theorem member_lockstep (ht : W.Allows table) : W.Lockstep n (member table) (member table) := by
  refine lockstep_current (fun t => Lockstep.when ?_) fun _ _ _ _ =>
    typeName_lockstep.dead typeName_consuming
  refine typeName_lockstep.bind fun type => identifier_lockstep.bind fun name =>
    lockstep_kind rfl fun k => ?_
  by_cases hk : k = .openParen
  · subst hk
    exact (methodRest_lockstep ht _ _ _).bind fun m => lockstep_pure _
  · simp only [if_neg hk]
    exact Lockstep.when ((fieldRest_lockstep _ _ _).bind fun f => lockstep_pure _)

end Table

/-! ### Recovery -/

theorem skipMemberRound_lockstep {again again' : Nat → Parser Unit}
    (ha : ∀ k, W.LockstepIf n (fun c _ => W.closes c k) (again k) (again' k)) (depth : Nat) :
    W.LockstepIf (n + 1) (fun c _ => W.closes c depth) (skipMemberRound again depth)
      (skipMemberRound again' depth) := by
  intro c d hcd hm hcl
  rw [skipMemberRound, run_kind_bind, skipMemberRound, run_kind_bind]
  rcases W.current_or hcd with he | ⟨hc, hd⟩
  · -- past the current token, with `k` braces open
    have hskip : W.Matches c (skip c) (skip d) := lockstep_skip c d hcd hm he
    have hagain : ∀ k, c.current.kind ≠ .endOfInput → W.closes c.advance.1 k →
        W.Matches (skip c).cursor (again k (skip c).cursor) (again' k (skip d).cursor) := by
      intro k hk hcl'
      have := left_skip_lt hk
      exact ha k _ _ hskip.near (by omega) hcl'
    have hpure : W.Matches (skip c).cursor ((pure () : Parser Unit) (skip c).cursor)
        ((pure () : Parser Unit) (skip d).cursor) :=
      lockstep_pure () _ _ hskip.near (Nat.lt_of_le_of_lt (Parser.left_le _ c) hm) trivial
    rw [he]
    split
    · exact lockstep_pure () c d hcd hm trivial
    · next hk =>
      split
      · exact lockstep_pure () c d hcd hm trivial
      · have hcl' := W.closes_other hcd (by simp [hk]) (by simp [hk]) (by simp [hk]) hcl
        exact hskip.bind fun _ _ => hagain _ (by simp [hk]) hcl'
    · next hk =>
      have hcl' := W.closes_other hcd (by simp [hk]) (by simp [hk]) (by simp [hk]) hcl
      refine hskip.bind fun _ _ => ?_
      split
      · exact hagain _ (by simp [hk]) hcl'
      · exact hpure
    · next hk =>
      exact hskip.bind fun _ _ => hagain _ (by simp [hk]) (W.closes_open hcd hk hcl)
    · next hk =>
      cases depth with
      | zero => exact lockstep_pure () c d hcd hm trivial
      | succ depth =>
        simp only [Nat.add_one_ne_zero, if_false]
        refine hskip.bind fun _ _ => ?_
        split
        · exact hagain _ (by simp [hk]) (W.closes_close hcd hk hcl)
        · exact hpure
    · next hend _ _ hopen hclose =>
      exact hskip.bind fun _ _ => hagain _ hend (W.closes_other hcd hend hopen hclose hcl)
  · -- the first run is at its end, so no brace is open and the `class` stops the second
    obtain rfl := W.closes_end hcd hc hd hcl
    rw [hc, hd]
    exact lockstep_pure () c d hcd hm trivial

theorem skipMember_lockstep (depth : Nat) :
    W.LockstepIf n (fun c _ => W.closes c depth) (skipMember depth) (skipMember depth) := by
  refine LockstepIf.weaken (lockstep_fix
    (J := fun depth depth' c _ => depth' = depth ∧ W.closes c depth) (Q := fun _ => True) trivial
    (fun _ _ => trivial) (fun m again again' _ _ ha => ?_) depth depth) fun _ _ _ h => ⟨rfl, h⟩
  rintro depth depth' c d hcd hm ⟨rfl, hcl⟩
  exact skipMemberRound_lockstep (fun k => (ha k k).weaken fun _ _ _ h => ⟨rfl, h⟩) _ c d hcd hm hcl

theorem skipMember_zero_lockstep : W.Lockstep n (skipMember 0) (skipMember 0) :=
  (skipMember_lockstep 0).weaken fun _ _ hcd _ => W.closes_zero hcd

theorem resumeMember_lockstep (start : Nat) :
    W.LockstepIf n (fun c _ => c.consumed = start → endsBody c.current.kind = false)
      (resumeMember start) (resumeMember (start + W.offset)) := by
  refine lockstep_consumed fun m => ?_
  by_cases hm : m = start
  · simp only [hm, if_true]
    rintro c d hcd hn ⟨hc, hP⟩
    have he := together_of_endsBody hcd (hP hc)
    have hskip : W.Matches c (skip c) (skip d) := lockstep_skip c d hcd hn he
    have hl : (skip c).cursor.left < n := Nat.lt_of_le_of_lt (Parser.left_le _ c) hn
    rw [run_kind_bind, run_kind_bind, he]
    split
    · exact hskip
    · next hk =>
      refine hskip.bind fun _ _ => skipMember_lockstep 1 _ _ hskip.near hl ?_
      exact W.closes_open hcd hk (W.closes_zero hcd)
    · exact hskip.bind fun _ _ => skipMember_zero_lockstep _ _ hskip.near hl trivial
  · have : m + W.offset ≠ start + W.offset := fun h => hm (Nat.add_right_cancel h)
    simp only [if_neg hm, if_neg this]
    exact skipMember_zero_lockstep.when

/-! ### Classes -/

theorem extendsClause_lockstep : W.Lockstep n extendsClause extendsClause := by
  refine lockstep_kind rfl fun k => ?_
  by_cases hk : k = .extendsWord
  · subst hk
    exact lockstep_skip_then (by decide) (identifier_lockstep.bind fun parent => lockstep_pure _)
  · simp only [if_neg hk]
    exact (lockstep_pure _).when

theorem skipClassRound_lockstep {again again' : Parser Unit} (ha : W.Lockstep n again again') :
    W.Lockstep (n + 1) (skipClassRound again) (skipClassRound again') := by
  refine lockstep_kind (by simp) fun k => ?_
  split
  · exact (lockstep_pure _).when
  · next hk => exact lockstep_skip_bind (fun he => hk (.inl he)) ha

theorem skipClass_lockstep : W.Lockstep n skipClass skipClass :=
  lockstep_recursive_any fun _ _ _ _ => skipClassRound_lockstep

theorem resumeClass_lockstep (start : Nat) :
    W.LockstepIf n (fun c d => c.consumed = start → Together c d) (resumeClass start)
      (resumeClass (start + W.offset)) :=
  (forceStep_lockstep start).bind fun _ => skipClass_lockstep

section Table

variable {table : StmtTable}

theorem members_lockstep (ht : W.Allows table) : W.Lockstep n (members table) (members table) :=
  collect_lockstep (.inr rfl)
    (recovering_lockstep (member_lockstep ht).when fun start => resumeMember_lockstep start)
    fun _ => left_memberTurn_lt table

theorem classDecl_lockstep (ht : W.Allows table) :
    W.LockstepIf n Together (classDecl table) (classDecl table) :=
  (lockstep_expectElse_together (spelling_expected _)).bind fun _ =>
    identifier_lockstep.bind fun _ => extendsClause_lockstep.bind fun _ =>
    lockstep_note_bind rfl rfl ((lockstep_expect (by decide) (by decide)).bind fun _ =>
    (members_lockstep ht).bind fun _ => closeBody_lockstep.bind fun _ => lockstep_pure _)

/-- **A turn of the loop over the classes keeps lockstep**, where both runs are
at the same token. -/
theorem classTurn_lockstep (ht : W.Allows table) :
    W.LockstepIf n Together (recovering (classDecl table) resumeClass)
      (recovering (classDecl table) resumeClass) :=
  recovering_lockstep (classDecl_lockstep ht) fun start => resumeClass_lockstep start

end Table

end World
end BantamJava
