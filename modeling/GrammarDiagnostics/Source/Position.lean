import GrammarDiagnostics.Text.Literal

/-! # Positions and ranges

* `Position`: a line and a character in it, both counted from zero and both integers of any size;
  `Position.lt` orders positions by line, then by character.
* `Range`: a start and an end; `Range.empty` starts and ends at one position.
* `Position.sort`: positions in ascending order.
* `Position.literal`, `Range.literal`: their written forms.
-/

set_option autoImplicit false

namespace GrammarDiagnostics

/-- A line and a character in that line, both counted from zero. -/
structure Position where
  line : Int
  character : Int
  deriving DecidableEq, Repr

namespace Position

/-- Positions are ordered by line, and on one line by character. -/
protected def compare (p q : Position) : Ordering :=
  (compare p.line q.line).then (compare p.character q.character)

instance : Ord Position := ⟨Position.compare⟩

instance : LT Position := ⟨fun p q => p.line < q.line ∨ p.line = q.line ∧ p.character < q.character⟩

instance : LE Position := ⟨fun p q => p.line < q.line ∨ p.line = q.line ∧ p.character ≤ q.character⟩

instance (p q : Position) : Decidable (p < q) :=
  inferInstanceAs (Decidable (p.line < q.line ∨ p.line = q.line ∧ p.character < q.character))

instance (p q : Position) : Decidable (p ≤ q) :=
  inferInstanceAs (Decidable (p.line < q.line ∨ p.line = q.line ∧ p.character ≤ q.character))

theorem lt_def {p q : Position} :
    p < q ↔ p.line < q.line ∨ p.line = q.line ∧ p.character < q.character :=
  Iff.rfl

theorem le_def {p q : Position} :
    p ≤ q ↔ p.line < q.line ∨ p.line = q.line ∧ p.character ≤ q.character :=
  Iff.rfl

/-- Positions in ascending order. -/
def sort (positions : List Position) : List Position :=
  positions.mergeSort fun p q => decide (p ≤ q)

/-- The written form of a position. -/
def literal (p : Position) : String :=
  "Position(" ++ decimal p.line ++ ", " ++ decimal p.character ++ ")"

end Position

/-- The stretch of a text between two positions. -/
structure Range where
  start : Position
  stop : Position
  deriving DecidableEq, Repr

namespace Range

/-- The range that starts and ends at one position. -/
def empty (p : Position) : Range := ⟨p, p⟩

/-- Whether a range starts where it ends. -/
def isEmpty (r : Range) : Bool := r.start = r.stop

/-- The written form of a range. -/
def literal (r : Range) : String :=
  "Range(" ++ r.start.literal ++ ", " ++ r.stop.literal ++ ")"

@[simp] theorem isEmpty_iff {r : Range} : r.isEmpty = true ↔ r.start = r.stop := by
  simp [isEmpty]

end Range

end GrammarDiagnostics
