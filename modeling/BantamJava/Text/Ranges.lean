/-
# Sets of characters given by ranges

A set of characters is written as an ascending list of closed, disjoint
ranges of code points. The membership test stops at the first range that
starts beyond the code point, so a small code point is decided quickly.

Key definitions: `Ranges`, `Ranges.contains`, `Ranges.ascending`.
Key theorems: `Ranges.contains_iff`.
-/
namespace BantamJava

/-- Ascending, disjoint, closed ranges of code points. -/
abbrev Ranges := List (Nat × Nat)

namespace Ranges

/-- Whether one of the ranges holds `n`. -/
def contains : Ranges → Nat → Bool
  | [], _ => false
  | (lo, hi) :: rest, n =>
    if n < lo then false
    else if n ≤ hi then true
    else contains rest n

/-- Whether the ranges ascend, with a gap between each two. -/
def ascending : Ranges → Bool
  | [] => true
  | [(lo, hi)] => decide (lo ≤ hi)
  | (lo, hi) :: (lo', hi') :: rest =>
    decide (lo ≤ hi) && decide (hi + 1 < lo') && ascending ((lo', hi') :: rest)

theorem ascending_tail {r : Nat × Nat} {rest : Ranges} (h : ascending (r :: rest) = true) :
    ascending rest = true := by
  cases rest with
  | nil => rfl
  | cons r' rest => simp_all [ascending]

/-- No range of an ascending list lies below the first one. -/
theorem le_of_mem_ascending {lo hi : Nat} {rest : Ranges}
    (h : ascending ((lo, hi) :: rest) = true) : ∀ r ∈ rest, lo ≤ r.1 := by
  induction rest generalizing lo hi with
  | nil => simp
  | cons r' rest ih =>
    obtain ⟨lo', hi'⟩ := r'
    simp only [ascending, Bool.and_eq_true, decide_eq_true_eq] at h
    intro r hr
    rcases List.mem_cons.1 hr with rfl | hr
    · simp only
      omega
    · have := ih h.2 r hr
      omega

/-- **Stopping early is right.** In an ascending list the test finds a code
point exactly if some range holds it. -/
theorem contains_iff {ranges : Ranges} (h : ascending ranges = true) (n : Nat) :
    contains ranges n = true ↔ ∃ r ∈ ranges, r.1 ≤ n ∧ n ≤ r.2 := by
  induction ranges with
  | nil => simp [contains]
  | cons r rest ih =>
    obtain ⟨lo, hi⟩ := r
    have ih := ih (ascending_tail h)
    have hle := le_of_mem_ascending h
    unfold contains
    split
    · simp only [Bool.false_eq_true, List.mem_cons, false_iff]
      rintro ⟨r, rfl | hr, h1, _⟩
      · simp only at h1
        omega
      · have := hle r hr
        omega
    split
    · simp only [List.mem_cons, true_iff]
      exact ⟨(lo, hi), .inl rfl, by simp only; omega, by simp only; omega⟩
    · rw [ih]
      constructor
      · rintro ⟨r, hr, h1⟩
        exact ⟨r, .inr hr |> List.mem_cons.2, h1⟩
      · rintro ⟨r, hr, h1, h2⟩
        rcases List.mem_cons.1 hr with rfl | hr
        · simp only at h2
          omega
        · exact ⟨r, hr, h1, h2⟩

end Ranges
end BantamJava
