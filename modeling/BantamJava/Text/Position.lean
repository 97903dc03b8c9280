/-
# Positions in a source text

A position is a line and a column, both counted from one, columns in
characters. Both counts are 32 bits wide, and start again at zero behind the
greatest number. A carriage return, a line feed and the pair of the two each
end one line. So that a pair may be walked over in two steps, the walk
remembers whether the last character was a carriage return (`Place`).

Key definitions: `Position`, `Place.step`, `Place.after`.
-/
namespace BantamJava

/-- A line and a column, both counted from one. -/
structure Position where
  line : UInt32
  column : UInt32
deriving DecidableEq, Inhabited

namespace Position

/-- The position of the first character of a text. -/
def start : Position := ⟨1, 1⟩

/-- Positions are ordered by line, and within a line by column. -/
instance : LT Position where
  lt a b := a.line < b.line ∨ a.line = b.line ∧ a.column < b.column

instance : LE Position where
  le a b := a.line < b.line ∨ a.line = b.line ∧ a.column ≤ b.column

theorem lt_def (a b : Position) :
    a < b ↔ a.line.toNat < b.line.toNat ∨
      a.line.toNat = b.line.toNat ∧ a.column.toNat < b.column.toNat := by
  rw [UInt32.toNat_inj]
  rfl

theorem le_def (a b : Position) :
    a ≤ b ↔ a.line.toNat < b.line.toNat ∨
      a.line.toNat = b.line.toNat ∧ a.column.toNat ≤ b.column.toNat := by
  rw [UInt32.toNat_inj]
  rfl

theorem le_refl (a : Position) : a ≤ a := by
  rw [le_def]
  omega

theorem le_trans {a b c : Position} (h : a ≤ b) (h' : b ≤ c) : a ≤ c := by
  rw [le_def] at h h' ⊢
  omega

theorem le_of_lt {a b : Position} (h : a < b) : a ≤ b := by
  rw [lt_def] at h
  rw [le_def]
  omega

instance (a b : Position) : Decidable (a < b) :=
  inferInstanceAs (Decidable (_ ∨ _))

instance (a b : Position) : Decidable (a ≤ b) :=
  inferInstanceAs (Decidable (_ ∨ _))

instance : Ord Position where
  compare a b := compareOfLessAndEq a b

/-- The position as text, `line:column`. -/
def text (p : Position) : String :=
  toString p.line ++ ":" ++ toString p.column

end Position

/-- Where a walk over a text stands: the position of the next character, and
whether the character just passed was a carriage return. -/
structure Place where
  position : Position
  afterReturn : Bool
deriving DecidableEq, Inhabited

namespace Place

/-- The place before the first character of a text. -/
def start : Place := ⟨Position.start, false⟩

/-- The place one character on. A line feed right after a carriage return
belongs to the line break that the carriage return made. -/
def step (p : Place) (c : Char) : Place :=
  if c = '\r' then ⟨⟨p.position.line + 1, 1⟩, true⟩
  else if c = '\n' then
    ⟨⟨if p.afterReturn then p.position.line else p.position.line + 1, 1⟩, false⟩
  else ⟨⟨p.position.line, p.position.column + 1⟩, false⟩

/-- The place after the characters `cs`. -/
def after (p : Place) (cs : List Char) : Place :=
  cs.foldl step p

@[simp] theorem after_nil (p : Place) : p.after [] = p := rfl

@[simp] theorem after_cons (p : Place) (c : Char) (cs : List Char) :
    p.after (c :: cs) = (p.step c).after cs := rfl

/-- A walk may be split anywhere, even inside a line break. -/
theorem after_append (p : Place) (xs ys : List Char) :
    p.after (xs ++ ys) = (p.after xs).after ys :=
  List.foldl_append

end Place
end BantamJava
