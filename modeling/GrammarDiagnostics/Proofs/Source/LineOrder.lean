import GrammarDiagnostics.Proofs.Source.LineLookup

/-! # Positions keep the order of offsets

* `Position.lt_irrefl`, `Position.lt_asymm`, `Position.le_iff_lt_or_eq`: the order of positions.
* `LineTable.lineOf_of_neg`: an offset before the text is on the first line.
* `LineTable.lineOf_mono`: a later offset is not on an earlier line.
* `LineTable.locate_lt_locate`: a later offset has a later position, also before the text and past
  its end.
* `lt_iff_of_lt_imp`: so offsets and positions are ordered alike.
* `LineTable.lineOf_le_length`, `LineTable.natAbs_character_le`: how large a position can be.
-/

set_option autoImplicit false

namespace GrammarDiagnostics

namespace Position

theorem lt_irrefl (p : Position) : ¬ p < p := by
  rw [lt_def]
  omega

theorem lt_asymm {p q : Position} (h : p < q) : ¬ q < p := by
  rw [lt_def] at *
  omega

theorem le_iff_lt_or_eq {p q : Position} : p ≤ q ↔ p < q ∨ p = q := by
  obtain ⟨line, character⟩ := p
  obtain ⟨line', character'⟩ := q
  simp only [le_def, lt_def, mk.injEq]
  omega

end Position

/-- A map into positions that keeps the strict order keeps the order in both directions. -/
theorem lt_iff_of_lt_imp {place : Int → Position} (h : ∀ p q, p < q → place p < place q)
    (p q : Int) : (p < q ↔ place p < place q) ∧ (p = q ↔ place p = place q) := by
  rcases Int.lt_trichotomy p q with hlt | rfl | hgt
  · have hplace := h p q hlt
    have hne : place p ≠ place q := fun heq => Position.lt_irrefl (place q) (heq ▸ hplace)
    exact ⟨iff_of_true hlt hplace, iff_of_false (Int.ne_of_lt hlt) hne⟩
  · exact ⟨iff_of_false (Int.lt_irrefl p) (Position.lt_irrefl _), iff_of_true rfl rfl⟩
  · have hplace := h q p hgt
    have hne : place p ≠ place q := fun heq => Position.lt_irrefl (place q) (heq ▸ hplace)
    exact ⟨iff_of_false (Int.lt_asymm hgt) (Position.lt_asymm hplace),
      iff_of_false (Int.ne_of_gt hgt) hne⟩

namespace LineTable

/-- An offset on a line behind the first one is not before the start of that line. -/
theorem lineStart_le_of_lineOf_pos (t : LineTable) {pos : Int} (h : 0 < t.lineOf pos) :
    (t.lineStart pos : Int) ≤ pos := by
  have hlt : t.lineOf pos < upperBound id t.starts pos := by
    unfold lineOf at *
    omega
  exact key_le_of_lt_upperBound t.starts_ascending (t.lineOf_lt pos) hlt

theorem lineOf_of_neg (t : LineTable) {pos : Int} (h : pos < 0) : t.lineOf pos = 0 := by
  apply Nat.eq_zero_of_not_pos
  intro hline
  have hle := t.lineStart_le_of_lineOf_pos hline
  omega

theorem lineStart_of_neg (t : LineTable) {pos : Int} (h : pos < 0) : t.lineStart pos = 0 := by
  unfold lineStart
  simp only [t.lineOf_of_neg h, t.starts_zero t.lineCount_pos]

theorem lt_lineStart_of_lineOf_lt (t : LineTable) {p q : Int} (h : t.lineOf p < t.lineOf q) :
    p < t.lineStart q :=
  t.lt_start_of_lineOf_lt (t.lineOf_lt q) h

theorem lineOf_mono (t : LineTable) {p q : Int} (h : p ≤ q) : t.lineOf p ≤ t.lineOf q := by
  apply Nat.le_of_not_lt
  intro hlt
  have hbefore := t.lt_lineStart_of_lineOf_lt hlt
  have hafter := t.lineStart_le_of_lineOf_pos (Nat.lt_of_le_of_lt (Nat.zero_le _) hlt)
  omega

/-- On one line it is the characters that are compared, on different lines the lines. -/
theorem locate_lt_locate (t : LineTable) {p q : Int} (h : p < q) : t.locate p < t.locate q := by
  rw [Position.lt_def, locate_eq_lineStart, locate_eq_lineStart]
  have hline := t.lineOf_mono (Int.le_of_lt h)
  rcases Nat.lt_or_eq_of_le hline with hlt | heq
  · left
    exact Int.ofNat_lt.2 hlt
  · right
    have hstart : t.lineStart p = t.lineStart q := by
      unfold lineStart
      simp only [heq]
    refine ⟨congrArg Int.ofNat heq, ?_⟩
    dsimp only
    rw [hstart]
    omega

/-! ## How large positions are -/

theorem le_start (t : LineTable) {i : Nat} (h : i < t.starts.size) : i ≤ t.starts[i] := by
  induction i with
  | zero => exact Nat.zero_le _
  | succ i ih =>
    have hi : i < t.starts.size := Nat.lt_of_succ_lt h
    have hpairwise : t.starts.toList.Pairwise (· < ·) :=
      t.toList_starts ▸ lineStarts_pairwise t.text.toList
    have hlt : t.starts[i] < t.starts[i + 1] :=
      List.pairwise_iff_getElem.1 hpairwise i (i + 1) (by simpa using hi) (by simpa using h)
        (Nat.lt_succ_self i)
    have hle := ih hi
    omega

/-- There are no more lines before an offset than the text has characters. -/
theorem lineOf_le_length (t : LineTable) (pos : Int) : t.lineOf pos ≤ t.text.length := by
  have hle := t.le_start (t.lineOf_lt pos)
  have hlength := le_length_of_mem_lineStarts
    (List.mem_of_getElem? (t.getElem_starts (t.lineOf_lt pos)))
  rw [String.length_toList] at hlength
  exact Nat.le_trans hle hlength

/-- An offset is at no later character of its line than of the text. -/
theorem natAbs_character_le (t : LineTable) (pos : Int) :
    ((t.locate pos).character + 1).natAbs ≤ (pos + 1).natAbs := by
  rw [locate_eq_lineStart]
  dsimp only
  rcases Int.lt_or_le pos 0 with hneg | hpos
  · rw [t.lineStart_of_neg hneg]
    omega
  · have hle := t.lineStart_le hpos
    omega

end LineTable

end GrammarDiagnostics
