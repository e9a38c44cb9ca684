/-!
# Positions and ranges

A position is a line and a byte column, both counted from zero; lines end at a line feed only. A
range is a pair of positions, and ranges are joined by `Range.merge`, which covers both
(`covers_merge_left`, `covers_merge_right`). Reading on never steps back (`le_after`).
-/

namespace BrighterCheck

/--
The index after `n`. Lines and columns are counted in 32 bits, so the last index is followed by the
first one.
-/
def nextIndex (n : Nat) : Nat :=
  if n + 1 = 0x100000000 then 0 else n + 1

theorem nextIndex_of_lt {n : Nat} (h : n + 1 < 0x100000000) : nextIndex n = n + 1 :=
  if_neg (Nat.ne_of_lt h)

/-- Different indices have different ones after them. -/
theorem nextIndex_inj {m n : Nat} : nextIndex m = nextIndex n ↔ m = n := by
  unfold nextIndex
  split <;> split <;> omega

/-- A place in a source: a line, and the number of UTF-8 bytes before it on that line. -/
structure Position where
  line : Nat
  column : Nat
deriving DecidableEq, Inhabited

namespace Position

/-- Positions are ordered by line, and within a line by column. -/
protected def le (p q : Position) : Prop :=
  p.line < q.line ∨ p.line = q.line ∧ p.column ≤ q.column

instance : LE Position := ⟨Position.le⟩

instance (p q : Position) : Decidable (p ≤ q) :=
  inferInstanceAs (Decidable (_ ∨ _))

theorem le_iff {p q : Position} :
    p ≤ q ↔ p.line < q.line ∨ p.line = q.line ∧ p.column ≤ q.column :=
  .rfl

protected theorem le_refl (p : Position) : p ≤ p :=
  .inr ⟨rfl, Nat.le_refl _⟩

protected theorem le_trans {p q r : Position} (h : p ≤ q) (h' : q ≤ r) : p ≤ r := by
  rw [le_iff] at *
  omega

protected theorem le_antisymm {p q : Position} (h : p ≤ q) (h' : q ≤ p) : p = q := by
  cases p; cases q
  simp only [le_iff, Position.mk.injEq] at *
  omega

protected theorem le_total (p q : Position) : p ≤ q ∨ q ≤ p := by
  simp only [le_iff]
  omega

instance : Min Position := ⟨fun p q => if p ≤ q then p else q⟩

instance : Max Position := ⟨fun p q => if p ≤ q then q else p⟩

/-- The start of every source. -/
def origin : Position := ⟨0, 0⟩

/-- The position after the character `c` at `p`. -/
def step (p : Position) (c : Char) : Position :=
  if c = '\n' then ⟨p.line + 1, 0⟩ else ⟨p.line, p.column + c.utf8Size⟩

/-- The position after the text `cs` that starts at `p`. -/
def after (p : Position) (cs : List Char) : Position :=
  cs.foldl step p

/-- A character never leads back. -/
theorem le_step (p : Position) (c : Char) : p ≤ p.step c := by
  unfold step
  split
  · exact .inl (Nat.lt_succ_self _)
  · exact .inr ⟨rfl, Nat.le_add_right _ _⟩

/-- Passing over two texts is passing over the first and then over the second. -/
theorem after_append (p : Position) (cs ds : List Char) :
    p.after (cs ++ ds) = (p.after cs).after ds := by
  simp [after]

/-- A text never leads back. -/
theorem le_after (p : Position) (cs : List Char) : p ≤ p.after cs := by
  induction cs generalizing p with
  | nil => exact p.le_refl
  | cons c cs ih => exact Position.le_trans (p.le_step c) (ih (p.step c))

/-- A position is shown as line and column counted from one. -/
def display (p : Position) : String :=
  s!"{nextIndex p.line}:{nextIndex p.column}"

end Position

/-- The part of a source from `start` up to, not including, `finish`. -/
structure Range where
  start : Position
  finish : Position
deriving DecidableEq, Inhabited

namespace Range

/-- The smallest range that covers both. -/
def merge (r s : Range) : Range :=
  ⟨min r.start s.start, max r.finish s.finish⟩

/-- The range `r` covers the range `s`. -/
def Covers (r s : Range) : Prop :=
  r.start ≤ s.start ∧ s.finish ≤ r.finish

instance (r s : Range) : Decidable (r.Covers s) :=
  inferInstanceAs (Decidable (_ ∧ _))

theorem covers_merge_left (r s : Range) : (r.merge s).Covers r := by
  constructor
  · show (if r.start ≤ s.start then r.start else s.start) ≤ r.start
    split
    · exact Position.le_refl _
    · exact (Position.le_total _ _).resolve_left ‹_›
  · show r.finish ≤ (if r.finish ≤ s.finish then s.finish else r.finish)
    split
    · assumption
    · exact Position.le_refl _

theorem covers_merge_right (r s : Range) : (r.merge s).Covers s := by
  constructor
  · show (if r.start ≤ s.start then r.start else s.start) ≤ s.start
    split
    · assumption
    · exact Position.le_refl _
  · show s.finish ≤ (if r.finish ≤ s.finish then s.finish else r.finish)
    split
    · exact Position.le_refl _
    · exact (Position.le_total _ _).resolve_left ‹_›

/-- The smallest range that covers every range present, or none if none is present. -/
def bounding (rs : List (Option Range)) : Option Range :=
  rs.foldl (Option.merge merge) none

/-- A range is shown by its two ends. -/
def display (r : Range) : String :=
  s!"{r.start.display}-{r.finish.display}"

end Range

end BrighterCheck
