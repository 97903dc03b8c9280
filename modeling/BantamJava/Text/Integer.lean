/-
# Integer constants

Integers are signed and 32 bits wide. Their text is an optional sign and at
least one decimal digit; leading zeros are allowed, and nothing else is.

Key definitions: `digitsValue?`, `readInteger?`.
Key theorems: `readInteger?_toString`.
-/
namespace BantamJava

/-- The least integer. -/
def minInteger : Int := -2147483648

/-- The greatest integer. -/
def maxInteger : Int := 2147483647

/-- Whether a character is one of the ten decimal digits. -/
def isDigit (c : Char) : Bool :=
  '0'.toNat ≤ c.toNat && c.toNat ≤ '9'.toNat

/-- The number that a text of decimal digits writes, if it is one. -/
def digitsValue? (cs : List Char) : Option Nat :=
  if !cs.isEmpty && cs.all isDigit then
    some (cs.foldl (fun n c => 10 * n + (c.toNat - '0'.toNat)) 0)
  else none

/-- The value of a text with an optional sign, whatever its size. -/
def signedValue? : List Char → Option Int
  | [] => none
  | c :: cs =>
    if c = '-' then (digitsValue? cs).map fun n => -(n : Int)
    else if c = '+' then (digitsValue? cs).map fun n => (n : Int)
    else (digitsValue? (c :: cs)).map fun n => (n : Int)

/-- The integer that a text writes, if it is one and in range. -/
def readInteger? (s : String) : Option Int :=
  (signedValue? s.toList).filter fun n => decide (minInteger ≤ n ∧ n ≤ maxInteger)

/-! ### Reading what is written -/

theorem toList_toString (n : Nat) : (toString n).toList = Nat.toDigits 10 n := by
  rw [Nat.toString_eq_ofList_toDigits, String.toList_ofList]

theorem isDigit_of_mem_toString {n : Nat} {c : Char} (h : c ∈ (toString n).toList) :
    isDigit c = true := by
  rw [toList_toString] at h
  have hdigit := Nat.isDigit_of_mem_toDigits (by decide) (by decide) h
  simpa [isDigit] using Char.isDigit_iff_toNat.1 hdigit

theorem digitsValue?_toString (n : Nat) : digitsValue? (toString n).toList = some n := by
  have hall : (toString n).toList.all isDigit = true :=
    List.all_eq_true.2 fun c hc => isDigit_of_mem_toString hc
  have hne : (toString n).toList.isEmpty = false := by
    rw [toList_toString, List.isEmpty_eq_false_iff]
    exact Nat.toDigits_ne_nil
  have hvalue : (toString n).toList.foldl (fun n c => 10 * n + (c.toNat - '0'.toNat)) 0 = n := by
    rw [toList_toString, ← Nat.ofDigitChars_eq_foldl]
    exact Nat.ofDigitChars_ten_toDigits
  rw [digitsValue?, hall, hne, hvalue]
  rfl

/-- **An integer without a sign is read as it is written**, if it is in range. -/
theorem readInteger?_toString {n : Nat} (h : n ≤ maxInteger) :
    readInteger? (toString n) = some (n : Int) := by
  have hsigned : signedValue? (toString n).toList = some (n : Int) := by
    have hvalue := digitsValue?_toString n
    have hdigit := fun c hc => isDigit_of_mem_toString (n := n) (c := c) hc
    generalize (toString n).toList = cs at hvalue hdigit
    cases cs with
    | nil => cases hvalue
    | cons c cs =>
      have hminus : c ≠ '-' := by
        rintro rfl
        exact absurd (hdigit _ List.mem_cons_self) (by decide)
      have hplus : c ≠ '+' := by
        rintro rfl
        exact absurd (hdigit _ List.mem_cons_self) (by decide)
      rw [signedValue?, if_neg hminus, if_neg hplus, hvalue]
      rfl
  have hrange : minInteger ≤ (n : Int) ∧ (n : Int) ≤ maxInteger := by
    refine ⟨?_, h⟩
    unfold minInteger
    omega
  rw [readInteger?, hsigned]
  exact Option.filter_some_pos (by simpa using hrange)

end BantamJava
