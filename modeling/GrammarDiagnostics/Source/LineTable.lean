import GrammarDiagnostics.Fault
import GrammarDiagnostics.Search
import GrammarDiagnostics.Source.LineStarts
import GrammarDiagnostics.Source.Position

/-! # Offsets and positions of one text

* `LineTable`: a text with the starts of its lines; `LineTable.ofText` computes it.
* `LineTable.locate`: the position of an offset, on the last line that starts at or before it.
  Offsets before the text lie on the first line, at a negative character.
* `LineTable.offset?`: the offset of a position, when the position is that of a character inside a
  line; the characters that end a line are outside.
* `LineTable.formatPosition`: the position of an offset as it is printed, counted from one; at the
  largest offsets this may have too many digits to be written.
-/

set_option autoImplicit false

namespace GrammarDiagnostics

/-- A text with the offsets at which its lines start. -/
structure LineTable where
  text : String
  starts : Array Nat
  /-- The starts are those of this very text. -/
  toList_starts : starts.toList = lineStarts text.toList

namespace LineTable

/-- The table of a text. -/
def ofText (text : String) : LineTable where
  text := text
  starts := (lineStarts text.toList).toArray
  toList_starts := rfl

/-- A text has one table. -/
theorem ext_text {t u : LineTable} (h : t.text = u.text) : t = u := by
  obtain ⟨text, starts, ht⟩ := t
  obtain ⟨text', starts', hu⟩ := u
  obtain rfl : text = text' := h
  obtain rfl : starts = starts' := Array.toList_inj.1 (ht.trans hu.symm)
  rfl

@[simp] theorem text_ofText (text : String) : (ofText text).text = text := rfl

@[simp] theorem ofText_text (t : LineTable) : ofText t.text = t := ext_text rfl

/-- The number of lines. -/
def lineCount (t : LineTable) : Nat := t.starts.size

theorem lineCount_pos (t : LineTable) : 0 < t.starts.size := by
  rw [← Array.length_toList, t.toList_starts]
  exact Nat.succ_pos _

theorem getElem_starts (t : LineTable) {i : Nat} (h : i < t.starts.size) :
    (lineStarts t.text.toList)[i]? = some t.starts[i] := by
  rw [← t.toList_starts, Array.getElem?_toList, Array.getElem?_eq_getElem h]

theorem starts_ascending (t : LineTable) : Ascending id t.starts := by
  intro i j hi hj hij
  have hp := t.toList_starts ▸ lineStarts_pairwise t.text.toList
  rcases Nat.eq_or_lt_of_le hij with rfl | hlt
  · exact Nat.le_refl _
  · have := List.pairwise_iff_getElem.1 hp i j (by simpa using hi) (by simpa using hj) hlt
    simpa using Nat.le_of_lt this

/-! ## From an offset to a position -/

/-- The line of an offset: the last one that starts at or before it, or the first line when none
does. -/
def lineOf (t : LineTable) (pos : Int) : Nat := upperBound id t.starts pos - 1

theorem lineOf_lt (t : LineTable) (pos : Int) : t.lineOf pos < t.starts.size := by
  have h := upperBound_le_size id t.starts pos
  have := t.lineCount_pos
  unfold lineOf
  omega

/-- The position of an offset. -/
def locate (t : LineTable) (pos : Int) : Position :=
  have := t.lineOf_lt pos
  ⟨t.lineOf pos, pos - t.starts[t.lineOf pos]⟩

/-- The position of an offset as it is printed: line and character counted from one. -/
def formatPosition (t : LineTable) (pos : Int) : Except Fault String := do
  let line ← writeNumber ((t.locate pos).line + 1)
  let character ← writeNumber ((t.locate pos).character + 1)
  return line ++ "," ++ character

/-! ## From a position to an offset -/

/-- Where a line stops: at the start of the next one, or at the end of the text. -/
def lineStop (t : LineTable) (line : Nat) : Nat :=
  if h : line + 1 < t.starts.size then t.starts[line + 1] else t.text.length

theorem lineStop_le_length (t : LineTable) (line : Nat) : t.lineStop line ≤ t.text.length := by
  unfold lineStop
  split
  case isTrue h =>
    have hm := List.mem_of_getElem? (t.getElem_starts h)
    exact String.length_toList (s := t.text) ▸ le_length_of_mem_lineStarts hm
  case isFalse => exact Nat.le_refl _

/-- The offset that a position stands for by counting from the start of its line, when the line
exists and does not stop before it. -/
def offsetInLine? (t : LineTable) (p : Position) : Option (Fin t.text.length) :=
  if 0 ≤ p.line ∧ 0 ≤ p.character then
    if h : p.line.toNat < t.starts.size then
      let pos := t.starts[p.line.toNat] + p.character.toNat
      if hstop : pos < t.lineStop p.line.toNat then
        some ⟨pos, Nat.lt_of_lt_of_le hstop (t.lineStop_le_length _)⟩
      else none
    else none
  else none

/-- The character at an offset of the text. -/
def charAt (t : LineTable) (pos : Fin t.text.length) : Char :=
  t.text.toList.get (pos.cast String.length_toList.symm)

/-- The offset of a position inside a line; the characters that break lines are outside. -/
def offset? (t : LineTable) (p : Position) : Option Nat :=
  match t.offsetInLine? p with
  | none => none
  | some pos => if isLineBreak (t.charAt pos) then none else some pos.val

end LineTable

end GrammarDiagnostics
