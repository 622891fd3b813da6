import GrammarDiagnostics.Proofs.Source.LineOrder
import Mathlib.Order.Bounds.Basic

/-! # The line that is found for an offset

* `startedLines starts pos`: the lines that start at or before an offset.
* `LineTable.isGreatest_lineOf`: from zero on, the line of an offset is the last of them.
* `LineTable.locate_congr`: an offset has the same position in two texts whose lines start alike up
  to it.
* `locate_greatest`: what is found for an offset, for every text and every integer.
-/

set_option autoImplicit false

namespace GrammarDiagnostics

/-- The lines that start at or before an offset. -/
def startedLines (starts : List Nat) (pos : Int) : Set Nat :=
  {i | ∃ start, starts[i]? = some start ∧ (start : Int) ≤ pos}

namespace LineTable

variable {t u : LineTable} {pos : Int} {i start : Nat}

theorem getElem?_starts_iff :
    (lineStarts t.text.toList)[i]? = some start ↔ ∃ h : i < t.starts.size, t.starts[i] = start := by
  rw [← t.toList_starts, Array.getElem?_toList, Array.getElem?_eq_some_iff]

theorem getElem?_lineStart (t : LineTable) (pos : Int) :
    (lineStarts t.text.toList)[t.lineOf pos]? = some (t.lineStart pos) :=
  t.getElem_starts (t.lineOf_lt pos)

theorem lt_of_lineOf_lt (hstart : (lineStarts t.text.toList)[i]? = some start)
    (h : t.lineOf pos < i) : pos < start := by
  obtain ⟨hi, rfl⟩ := getElem?_starts_iff.1 hstart
  exact t.lt_start_of_lineOf_lt hi h

theorem isGreatest_lineOf (t : LineTable) (h : 0 ≤ pos) :
    IsGreatest (startedLines (lineStarts t.text.toList) pos) (t.lineOf pos) := by
  refine ⟨⟨t.lineStart pos, t.getElem?_lineStart pos, t.lineStart_le h⟩, ?_⟩
  rintro i ⟨start, hstart, hle⟩
  apply Nat.le_of_not_lt
  intro hlt
  have hbehind := lt_of_lineOf_lt hstart hlt
  omega

theorem locate_congr (h : ∀ (i start : Nat), (start : Int) ≤ pos →
      ((lineStarts t.text.toList)[i]? = some start ↔ (lineStarts u.text.toList)[i]? = some start)) :
    t.locate pos = u.locate pos := by
  rcases Int.lt_or_le pos 0 with hneg | hpos
  · rw [t.locate_eq_lineStart, u.locate_eq_lineStart, t.lineOf_of_neg hneg, u.lineOf_of_neg hneg,
      t.lineStart_of_neg hneg, u.lineStart_of_neg hneg]
  · have hstarted : startedLines (lineStarts t.text.toList) pos
        = startedLines (lineStarts u.text.toList) pos := by
      ext i
      exact exists_congr fun start => and_congr_left (h i start)
    have hline : t.lineOf pos = u.lineOf pos :=
      (hstarted ▸ t.isGreatest_lineOf hpos).unique (u.isGreatest_lineOf hpos)
    have hstart := (h _ _ (t.lineStart_le hpos)).1 (t.getElem?_lineStart pos)
    rw [hline, u.getElem?_lineStart] at hstart
    rw [t.locate_eq_lineStart, u.locate_eq_lineStart, hline, Option.some.inj hstart]

end LineTable

/-- In every text an offset from zero on lies on the last line that starts at or before it, and an
offset before the text on the first line; its character is counted from the start of that line. -/
theorem locate_greatest (text : String) (pos : Int) :
    let m := LineMap.ofText text
    let starts := lineStarts text.toList
    m.ask .lineStarts = .ok (.offsets starts) ∧ m.ask .lineCount = .ok (.count starts.length) ∧
      ∃ (line start : Nat) (character : Int),
        m.ask (.locate pos) = .ok (.position ⟨line, character⟩) ∧
        m.table.locateChecked pos = .ok ⟨line, character⟩ ∧
        line < starts.length ∧ starts[line]? = some start ∧ start + character = pos ∧
        (0 ≤ pos ∧ IsGreatest (startedLines starts pos) line ∧ 0 ≤ character ∧
            (∀ next, starts[line + 1]? = some next → pos < next) ∨
          pos < 0 ∧ line = 0 ∧ character = pos) := by
  intro m starts
  let t := LineTable.ofText text
  have hstart : starts[t.lineOf pos]? = some (t.lineStart pos) := t.getElem?_lineStart pos
  refine ⟨rfl, congrArg (Except.ok ∘ LineMap.Reply.count) List.size_toArray,
    t.lineOf pos, t.lineStart pos, pos - t.lineStart pos, rfl, t.locateChecked_eq pos,
    (List.getElem?_eq_some_iff.1 hstart).1, hstart, by omega, ?_⟩
  rcases Int.lt_or_le pos 0 with hneg | hpos
  · rw [t.lineOf_of_neg hneg, t.lineStart_of_neg hneg]
    exact .inr ⟨hneg, rfl, Int.sub_zero pos⟩
  · have hle := t.lineStart_le hpos
    exact .inl ⟨hpos, t.isGreatest_lineOf hpos, by omega,
      fun next hnext => LineTable.lt_of_lineOf_lt (t := t) hnext (Nat.lt_succ_self _)⟩

theorem locate_greatest_atStart :
    let m := LineMap.ofText "a\r\nb\n"
    let starts := lineStarts "a\r\nb\n".toList
    m.ask (.locate 3) = .ok (.position ⟨1, 0⟩) ∧ IsGreatest (startedLines starts 3) 1 ∧
      starts[1 + 1]? = some 5 ∧ (3 : Int) < 5 := by
  intro m starts
  have hask : m.ask (.locate 3) = .ok (.position ⟨1, 0⟩) := by decide +kernel
  have hnext : starts[1 + 1]? = some 5 := by decide
  obtain ⟨_, _, line, _, _, hlocate, _, _, _, _, hcase⟩ := locate_greatest "a\r\nb\n" 3
  obtain rfl : line = 1 := by
    rw [hask] at hlocate
    simp only [Except.ok.injEq, LineMap.Reply.position.injEq, Position.mk.injEq] at hlocate
    omega
  rcases hcase with ⟨_, hgreatest, _, hbefore⟩ | ⟨hneg, _⟩
  · exact ⟨hask, hgreatest, hnext, hbefore 5 hnext⟩
  · exact absurd hneg (by decide)

end GrammarDiagnostics
