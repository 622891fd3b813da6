import GrammarDiagnostics.Proofs.Source.LineOrder
import GrammarDiagnostics.Proofs.Text.Delimited
import Mathlib.Data.List.Basic

/-! # Offsets that are read off printed positions

* `Position.printed`: the text of a position; `Position.printed_inj`: it tells the position.
* `LineTable.formatPosition_eq`: this is what is printed for an offset, unless a number has more
  digits than are written.
* `LineTable.locate_inj`: an offset is told by its position.
* `printed_position_leads_back`: so it is told by what is printed, in every text.
-/

set_option autoImplicit false

namespace GrammarDiagnostics

namespace Position

/-- The text of a position: line and character, both counted from one. -/
def printed (p : Position) : String := decimal (p.line + 1) ++ "," ++ decimal (p.character + 1)

theorem printed_inj {p q : Position} : p.printed = q.printed ↔ p = q := by
  constructor
  · intro h
    obtain ⟨line, character⟩ := p
    obtain ⟨line', character'⟩ := q
    obtain ⟨hline, hcharacter⟩ := decimals_inj h
    simp only [mk.injEq] at *
    omega
  · rintro rfl
    rfl

end Position

namespace LineTable

variable {t : LineTable} {p q pos : Int}

theorem formatPosition_eq (t : LineTable) (pos : Int) : t.formatPosition pos
    = if digitCount ((t.locate pos).line + 1) ≤ digitLimit ∧
        digitCount ((t.locate pos).character + 1) ≤ digitLimit
      then .ok (t.locate pos).printed else .error .numberTooLong := by
  unfold formatPosition
  by_cases hline : digitCount ((t.locate pos).line + 1) ≤ digitLimit
  · rw [writeNumber_of_le hline]
    by_cases hcharacter : digitCount ((t.locate pos).character + 1) ≤ digitLimit
    · rw [writeNumber_of_le hcharacter, if_pos ⟨hline, hcharacter⟩]
      rfl
    · rw [writeNumber_of_lt (Nat.lt_of_not_le hcharacter),
        if_neg (not_and_of_not_right _ hcharacter)]
      rfl
  · rw [writeNumber_of_lt (Nat.lt_of_not_le hline), if_neg (not_and_of_not_left _ hline)]
    rfl

theorem formatPosition_eq_ok_iff {s : String} : t.formatPosition pos = .ok s ↔
    (digitCount ((t.locate pos).line + 1) ≤ digitLimit ∧
      digitCount ((t.locate pos).character + 1) ≤ digitLimit) ∧ (t.locate pos).printed = s := by
  rw [formatPosition_eq]
  split
  case isTrue h => simp [h]
  case isFalse h => simp [h]

theorem locate_inj : t.locate p = t.locate q ↔ p = q :=
  (lt_iff_of_lt_imp (fun _ _ h => t.locate_lt_locate h) p q).2.symm

theorem offset?_locate (h : t.IsBodyOffset pos) : t.offset? (t.locate pos) = some pos.toNat := by
  obtain ⟨n, hn, hpos⟩ :=
    Option.map_eq_some_iff.1 ((t.map_offset?_eq_some_iff (t.locate pos) pos).2 ⟨h, rfl⟩)
  rw [hn, ← hpos]
  rfl

end LineTable

namespace LineMap

variable {m : LineMap} {p q pos : Int} {s : String}

theorem ask_formatPosition (m : LineMap) (pos : Int) : m.ask (.formatPosition pos)
    = if digitCount ((m.table.locate pos).line + 1) ≤ digitLimit ∧
        digitCount ((m.table.locate pos).character + 1) ≤ digitLimit
      then .ok (.text (m.table.locate pos).printed) else .error .numberTooLong := by
  change (m.table.formatPosition pos).map Reply.text = _
  rw [LineTable.formatPosition_eq]
  split <;> rfl

theorem printed_of_ask (h : m.ask (.formatPosition pos) = .ok (.text s)) :
    (m.table.locate pos).printed = s := by
  rw [ask_formatPosition] at h
  split at h
  case isTrue => exact Reply.text.inj (Except.ok.inj h)
  case isFalse => cases h

/-- An offset that is printed is not printed like any other. -/
theorem ask_formatPosition_inj (h : m.ask (.formatPosition p) = .ok (.text s)) :
    m.ask (.formatPosition p) = m.ask (.formatPosition q) ↔ p = q := by
  refine ⟨fun heq => ?_, fun heq => heq ▸ rfl⟩
  have hprinted := (printed_of_ask h).trans (printed_of_ask (heq.symm.trans h)).symm
  exact LineTable.locate_inj.1 (Position.printed_inj.1 hprinted)

end LineMap

/-! ## The theorem -/

/-- What is printed for an offset are two numbers with a comma between them, which can be told from
it: they are the position of the offset, from which it is found again if it is that of a character
inside a line. No two offsets are printed alike. Only a number with too many digits is not
printed. -/
theorem printed_position_leads_back (text : String) :
    let m := LineMap.ofText text
    (∀ pos : Int, ∃ line character : Int,
        m.ask (.locate pos) = .ok (.position ⟨line - 1, character - 1⟩) ∧
        m.ask (.formatPosition pos)
          = (if digitCount line ≤ 4300 ∧ digitCount character ≤ 4300 then
              .ok (.text (decimal line ++ "," ++ decimal character))
            else .error .numberTooLong) ∧
        (decimal line ++ "," ++ decimal character).toList.count ',' = 1 ∧
        (∀ line' character' : Int,
          decimal line' ++ "," ++ decimal character' = decimal line ++ "," ++ decimal character →
            line' = line ∧ character' = character) ∧
        (m.table.IsBodyOffset pos →
          m.ask (.offset ⟨line - 1, character - 1⟩) = .ok (.offset (some pos.toNat)))) ∧
      (∀ p q : Int, (m.table.locate p).printed = (m.table.locate q).printed ↔ p = q) ∧
      ∀ (p q : Int) (s : String), m.ask (.formatPosition p) = .ok (.text s) →
        (m.ask (.formatPosition p) = m.ask (.formatPosition q) ↔ p = q) := by
  intro m
  refine ⟨fun pos => ⟨(m.table.locate pos).line + 1, (m.table.locate pos).character + 1, ?_,
    m.ask_formatPosition pos, count_comma_decimals _ _, fun _ _ h => decimals_inj h,
    fun hbody => ?_⟩, fun p q => Position.printed_inj.trans LineTable.locate_inj,
    fun p q s h => LineMap.ask_formatPosition_inj h⟩
  · simp only [Int.add_sub_cancel]
    rfl
  · simp only [Int.add_sub_cancel]
    exact congrArg (Except.ok ∘ LineMap.Reply.offset) (LineTable.offset?_locate hbody)

/-- A character behind a line end of two characters, and an offset before the text. -/
theorem printed_position_leads_back_secondLine :
    let m := LineMap.ofText "a\r\nb"
    (m.table.IsBodyOffset 3 ∧ m.ask (.offset ⟨1, 0⟩) = .ok (.offset (some 3))) ∧
      m.ask (.formatPosition 3) = .ok (.text "2,1") ∧
      m.ask (.formatPosition (-5)) = .ok (.text "1,-4") ∧
      m.ask (.formatPosition 3) ≠ m.ask (.formatPosition (-5)) := by
  intro m
  have hbody : m.table.IsBodyOffset 3 := ⟨by decide, by decide, 'b', by decide, by decide⟩
  have hthree : m.ask (.formatPosition 3) = .ok (.text "2,1") := by decide +kernel
  have hfive : m.ask (.formatPosition (-5)) = .ok (.text "1,-4") := by decide +kernel
  obtain ⟨heach, _, hinj⟩ := printed_position_leads_back "a\r\nb"
  obtain ⟨line, character, hlocate, _, _, _, hoffset⟩ := heach 3
  have hplace : m.ask (.locate 3) = .ok (.position ⟨1, 0⟩) := by decide +kernel
  rw [← LineMap.Reply.position.inj (Except.ok.inj (hplace.symm.trans hlocate))] at hoffset
  exact ⟨⟨hbody, hoffset hbody⟩, hthree, hfive, fun heq =>
    absurd ((hinj 3 (-5) "2,1" hthree).1 heq) (by decide)⟩

end GrammarDiagnostics
