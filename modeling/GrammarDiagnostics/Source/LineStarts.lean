/-! # Where the lines of a text start

A line ends at a line feed, a carriage return, a line separator, a paragraph separator or a next
line character; a carriage return and the line feed right after it end one line together.

* `isLineBreak c`: `c` is one of the five; `isLineBreakText s`: `s` is one of the five and nothing
  else.
* `endsLine c rest`: the line ends right after `c` when `rest` follows it.
* `lineStarts text`: zero, and the offset after every line end, also after one at the very end.
* `lineStarts_ne_nil`, `lineStarts_pairwise`, `le_length_of_mem_lineStarts`: there is a first line,
  the starts ascend, and none lies behind the end of the text.
-/

set_option autoImplicit false

namespace GrammarDiagnostics

/-- The five characters that break lines. -/
def isLineBreak (c : Char) : Bool :=
  c == '\n' || c == '\r' || c == '\u2028' || c == '\u2029' || c == '\u0085'

/-- Whether a text is a single line break character. -/
def isLineBreakText (s : String) : Bool :=
  match s.toList with
  | [c] => isLineBreak c
  | _ => false

/-- Whether a line ends right after `c`, which is followed by `rest`: a carriage return before a
line feed leaves the end to the line feed. -/
def endsLine (c : Char) (rest : List Char) : Bool :=
  isLineBreak c && !(c == '\r' && rest.head? == some '\n')

/-- The starts of the lines after the first one, when `pos` is the offset of the first character
given. -/
def startsAfter (pos : Nat) : List Char → List Nat
  | [] => []
  | c :: rest =>
    if endsLine c rest then
      (pos + 1) :: startsAfter (pos + 1) rest
    else
      startsAfter (pos + 1) rest

/-- The offset of the first character of every line. -/
def lineStarts (text : List Char) : List Nat :=
  0 :: startsAfter 0 text

theorem lineStarts_ne_nil (text : List Char) : lineStarts text ≠ [] :=
  List.cons_ne_nil _ _

/-! ## The starts ascend -/

theorem lt_of_mem_startsAfter {pos p : Nat} {text : List Char} (h : p ∈ startsAfter pos text) :
    pos < p := by
  induction text generalizing pos with
  | nil => simp [startsAfter] at h
  | cons c rest ih =>
    simp only [startsAfter] at h
    split at h
    · rcases List.mem_cons.1 h with rfl | h
      · exact Nat.lt_succ_self _
      · exact Nat.lt_of_succ_lt (ih h)
    · exact Nat.lt_of_succ_lt (ih h)

theorem startsAfter_pairwise (pos : Nat) (text : List Char) :
    (startsAfter pos text).Pairwise (· < ·) := by
  induction text generalizing pos with
  | nil => exact List.Pairwise.nil
  | cons c rest ih =>
    simp only [startsAfter]
    split
    · exact List.pairwise_cons.2 ⟨fun p hp => lt_of_mem_startsAfter hp, ih _⟩
    · exact ih _

theorem lineStarts_pairwise (text : List Char) : (lineStarts text).Pairwise (· < ·) :=
  List.pairwise_cons.2 ⟨fun _ hp => lt_of_mem_startsAfter hp, startsAfter_pairwise 0 text⟩

/-! ## The starts lie in the text or at its end -/

theorem le_of_mem_startsAfter {pos p : Nat} {text : List Char} (h : p ∈ startsAfter pos text) :
    p ≤ pos + text.length := by
  induction text generalizing pos with
  | nil => simp [startsAfter] at h
  | cons c rest ih =>
    have hrest : p ∈ startsAfter (pos + 1) rest → p ≤ pos + (c :: rest).length := fun hp => by
      have := ih hp
      simp only [List.length_cons]
      omega
    simp only [startsAfter] at h
    split at h
    · rcases List.mem_cons.1 h with rfl | h
      · simp only [List.length_cons]
        omega
      · exact hrest h
    · exact hrest h

theorem le_length_of_mem_lineStarts {p : Nat} {text : List Char} (h : p ∈ lineStarts text) :
    p ≤ text.length := by
  rcases List.mem_cons.1 h with rfl | h
  · exact Nat.zero_le _
  · simpa using le_of_mem_startsAfter h

end GrammarDiagnostics
