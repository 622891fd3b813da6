import GrammarDiagnostics.Source.LineMap

/-! # Looking up offsets and positions

* `LineTable.lineOf_eq`: the line of an offset is the one between whose start and the next start it
  lies; `LineTable.lineStart_le`, `LineTable.lt_start_of_lineOf_lt`: it does lie there.
* `LineTable.offsetInLine?_eq_some_iff`: counting from the start of a line undoes the lookup, on the
  offsets of the text.
* `LineTable.offset?_eq_some_iff`: the offset of a position is the one that has this position, among
  the characters that break no line.
* `fetch`: an element by its index, where an index outside is a fault; `LineTable.locateChecked` and
  `LineTable.offsetChecked` are the two lookups with every access made this way.
* `LineTable.offset?_partial_inverse_locate`: all of this for every text and all integers.
-/

set_option autoImplicit false

namespace GrammarDiagnostics

namespace LineTable

/-! ## The line of an offset -/

theorem starts_zero (t : LineTable) (h : 0 < t.starts.size) : t.starts[0] = 0 :=
  (Option.some.inj (t.getElem_starts h)).symm

def lineStart (t : LineTable) (pos : Int) : Nat :=
  have := t.lineOf_lt pos
  t.starts[t.lineOf pos]

theorem locate_eq_lineStart (t : LineTable) (pos : Int) :
    t.locate pos = ⟨t.lineOf pos, pos - t.lineStart pos⟩ := rfl

/-- An offset between the start of a line and that of the next one, if there is one, is on that
line. -/
theorem lineOf_eq (t : LineTable) {pos : Int} {i : Nat} (hi : i < t.starts.size)
    (hle : (t.starts[i] : Int) ≤ pos)
    (hlt : ∀ h : i + 1 < t.starts.size, pos < (t.starts[i + 1] : Int)) : t.lineOf pos = i := by
  have hbound : upperBound id t.starts pos = i + 1 := by
    apply upperBound_eq t.starts_ascending hi
    · intro j hj hji
      have := t.starts_ascending j i hj hi (by omega)
      simp only [id_eq] at this ⊢
      omega
    · intro j hj hij
      have := t.starts_ascending (i + 1) j (by omega) hj hij
      have := hlt (by omega)
      simp only [id_eq] at *
      omega
  unfold lineOf
  rw [hbound, Nat.add_sub_cancel]

theorem upperBound_pos (t : LineTable) {pos : Int} (h : 0 ≤ pos) :
    0 < upperBound id t.starts pos := by
  apply Nat.pos_of_ne_zero
  intro hzero
  have := lt_key_of_upperBound_le t.starts_ascending t.lineCount_pos (Nat.le_of_eq hzero)
  simp only [id_eq, t.starts_zero t.lineCount_pos] at this
  omega

theorem lineStart_le (t : LineTable) {pos : Int} (h : 0 ≤ pos) : (t.lineStart pos : Int) ≤ pos := by
  have hpos := t.upperBound_pos h
  have hlt : t.lineOf pos < upperBound id t.starts pos := by
    unfold lineOf
    omega
  exact key_le_of_lt_upperBound t.starts_ascending (t.lineOf_lt pos) hlt

theorem lt_start_of_lineOf_lt (t : LineTable) {pos : Int} {i : Nat} (hi : i < t.starts.size)
    (h : t.lineOf pos < i) : pos < (t.starts[i] : Int) := by
  have hle : upperBound id t.starts pos ≤ i := by
    unfold lineOf at h
    omega
  exact lt_key_of_upperBound_le t.starts_ascending hi hle

theorem lt_lineStop_lineOf (t : LineTable) {n : Nat} (h : n < t.text.length) :
    n < t.lineStop (t.lineOf n) := by
  unfold lineStop
  split
  case isTrue hnext => exact Int.ofNat_lt.1 (t.lt_start_of_lineOf_lt hnext (Nat.lt_succ_self _))
  case isFalse => exact h

/-! ## The two lookups undo each other -/

theorem locate_eq (t : LineTable) {pos : Int} {i : Nat} (hi : i < t.starts.size)
    (hline : t.lineOf pos = i) : t.locate pos = ⟨i, pos - t.starts[i]⟩ := by
  subst hline
  rfl

/-- A position is outside of the lines, or it is at a place of one of them. -/
theorem out_or_inLine (t : LineTable) (p : Position) :
    (p.line < 0 ∨ p.character < 0 ∨ (t.lineCount : Int) ≤ p.line) ∨
      ∃ n k : Nat, n < t.starts.size ∧ p = ⟨n, k⟩ := by
  by_cases hout : p.line < 0 ∨ p.character < 0 ∨ (t.lineCount : Int) ≤ p.line
  · exact .inl hout
  · obtain ⟨line, character⟩ := p
    simp only [lineCount] at hout
    obtain ⟨n, rfl⟩ := Int.eq_ofNat_of_zero_le (a := line) (by omega)
    obtain ⟨k, rfl⟩ := Int.eq_ofNat_of_zero_le (a := character) (by omega)
    exact .inr ⟨n, k, by omega, rfl⟩

theorem offsetInLine?_of_out (t : LineTable) {p : Position}
    (h : p.line < 0 ∨ p.character < 0 ∨ (t.lineCount : Int) ≤ p.line) :
    t.offsetInLine? p = none := by
  unfold offsetInLine?
  by_cases hnonneg : 0 ≤ p.line ∧ 0 ≤ p.character
  · unfold lineCount at h
    rw [if_pos hnonneg, dif_neg (by omega)]
  · rw [if_neg hnonneg]

theorem offsetInLine?_natCast (t : LineTable) {n : Nat} (hn : n < t.starts.size) (k : Nat) :
    t.offsetInLine? ⟨n, k⟩ = if h : t.starts[n] + k < t.lineStop n then
      some ⟨t.starts[n] + k, Nat.lt_of_lt_of_le h (t.lineStop_le_length _)⟩ else none := by
  unfold offsetInLine?
  rw [if_pos ⟨Int.natCast_nonneg n, Int.natCast_nonneg k⟩]
  simp only [Int.toNat_natCast, hn, dif_pos]

theorem offsetInLine?_eq_some_iff (t : LineTable) (p : Position) (pos : Fin t.text.length) :
    t.offsetInLine? p = some pos ↔ t.locate pos.val = p := by
  constructor
  · intro h
    obtain hout | ⟨n, k, hn, rfl⟩ := t.out_or_inLine p
    · rw [t.offsetInLine?_of_out hout] at h
      cases h
    rw [t.offsetInLine?_natCast hn] at h
    obtain ⟨hstop, hpos⟩ := Option.dite_none_right_eq_some.1 h
    obtain rfl := Option.some.inj hpos
    have hline : t.lineOf (t.starts[n] + k : Nat) = n := by
      apply t.lineOf_eq hn (by omega)
      intro hnext
      unfold lineStop at hstop
      rw [dif_pos hnext] at hstop
      omega
    rw [t.locate_eq hn hline]
    congr 1
    omega
  · rintro rfl
    have hstart := t.lineStart_le (Int.natCast_nonneg pos.val)
    have hstop := t.lt_lineStop_lineOf pos.isLt
    obtain ⟨k, hk⟩ := Nat.exists_eq_add_of_le (Int.ofNat_le.1 hstart)
    have hlocate : t.locate pos.val = ⟨t.lineOf pos.val, k⟩ := by
      rw [t.locate_eq_lineStart]
      congr 1
      omega
    unfold lineStart at hk
    rw [hlocate, t.offsetInLine?_natCast (t.lineOf_lt _)]
    simp only [← hk, hstop, dif_pos]

theorem getElem?_toList_charAt (t : LineTable) (pos : Fin t.text.length) :
    t.text.toList[pos.val]? = some (t.charAt pos) :=
  List.getElem?_eq_getElem _

/-- The offset of a position is the one that has this position, among the characters that break no
line. -/
theorem offset?_eq_some_iff (t : LineTable) (p : Position) (n : Nat) :
    t.offset? p = some n ↔
      ∃ c, t.text.toList[n]? = some c ∧ isLineBreak c = false ∧ t.locate n = p := by
  unfold offset?
  constructor
  · intro h
    split at h
    case h_1 => cases h
    case h_2 pos hpos =>
      split at h
      case isTrue => cases h
      case isFalse hbreak =>
        obtain rfl := Option.some.inj h
        exact ⟨t.charAt pos, t.getElem?_toList_charAt pos, by simpa using hbreak,
          (t.offsetInLine?_eq_some_iff p pos).1 hpos⟩
  · rintro ⟨c, hc, hbreak, hlocate⟩
    have hn : n < t.text.length := by
      rw [← String.length_toList]
      exact (List.getElem?_eq_some_iff.1 hc).1
    have hchar : t.charAt ⟨n, hn⟩ = c :=
      Option.some.inj ((t.getElem?_toList_charAt ⟨n, hn⟩).symm.trans hc)
    rw [(t.offsetInLine?_eq_some_iff p ⟨n, hn⟩).2 hlocate]
    simp only [hchar, hbreak]
    rfl

end LineTable

/-! ## Every access is inside -/

/-- An access outside of a sequence: the index, and how long the sequence is. -/
structure OutOfRange where
  index : Int
  length : Nat
  deriving DecidableEq, Repr

/-- The element of an index, which must lie inside of the sequence. -/
def fetch {α : Type} (xs : List α) (i : Int) : Except OutOfRange α :=
  if 0 ≤ i then
    match xs[i.toNat]? with
    | some a => .ok a
    | none => .error ⟨i, xs.length⟩
  else
    .error ⟨i, xs.length⟩

theorem fetch_eq_ok {α : Type} {xs : List α} {i : Int} {a : α} (h0 : 0 ≤ i)
    (h : xs[i.toNat]? = some a) : fetch xs i = .ok a := by
  unfold fetch
  rw [if_pos h0, h]

namespace LineTable

/-- The lookup of an offset, with every access to the line starts checked. -/
def locateChecked (t : LineTable) (pos : Int) : Except OutOfRange Position := do
  let start ← fetch t.starts.toList (max (upperBound id t.starts pos - 1) 0)
  return ⟨max (upperBound id t.starts pos - 1) 0, pos - start⟩

def lineStopChecked (t : LineTable) (line : Int) : Except OutOfRange Nat :=
  if line + 1 < t.lineCount then fetch t.starts.toList (line + 1) else .ok t.text.length

/-- The lookup of a position, with every access to the line starts and to the text checked. -/
def offsetChecked (t : LineTable) (p : Position) : Except OutOfRange (Option Int) := do
  if p.line < 0 ∨ p.character < 0 ∨ (t.lineCount : Int) ≤ p.line then
    return none
  else
    let start ← fetch t.starts.toList p.line
    let stop ← t.lineStopChecked p.line
    if (stop : Int) ≤ start + p.character then
      return none
    else
      let c ← fetch t.text.toList (start + p.character)
      return if isLineBreak c then none else some (start + p.character)

theorem fetch_starts (t : LineTable) {i : Int} {n : Nat} (hi : i = n) (hn : n < t.starts.size) :
    fetch t.starts.toList i = .ok t.starts[n] := by
  subst hi
  apply fetch_eq_ok (Int.natCast_nonneg n)
  rw [Int.toNat_natCast, Array.getElem?_toList, Array.getElem?_eq_getElem hn]

theorem locateChecked_eq (t : LineTable) (pos : Int) :
    t.locateChecked pos = .ok (t.locate pos) := by
  have hline : max ((upperBound id t.starts pos : Int) - 1) 0 = t.lineOf pos := by
    unfold lineOf
    omega
  unfold locateChecked
  rw [hline, t.fetch_starts rfl (t.lineOf_lt pos)]
  rfl

theorem lineStopChecked_eq (t : LineTable) (n : Nat) :
    t.lineStopChecked n = .ok (t.lineStop n) := by
  unfold lineStopChecked lineStop lineCount
  by_cases hnext : n + 1 < t.starts.size
  · rw [dif_pos hnext, if_pos (by omega), t.fetch_starts (n := n + 1) (by omega) hnext]
  · rw [dif_neg hnext, if_neg (by omega)]

theorem offset?_of_offsetInLine?_none {t : LineTable} {p : Position}
    (h : t.offsetInLine? p = none) : t.offset? p = none := by
  unfold offset?
  rw [h]

theorem offsetChecked_eq (t : LineTable) (p : Position) :
    t.offsetChecked p = .ok ((t.offset? p).map Int.ofNat) := by
  unfold offsetChecked
  obtain hout | ⟨n, k, hn, rfl⟩ := t.out_or_inLine p
  · rw [if_pos hout, offset?_of_offsetInLine?_none (t.offsetInLine?_of_out hout)]
    rfl
  have hinside : ¬ ((n : Int) < 0 ∨ (k : Int) < 0 ∨ (t.lineCount : Int) ≤ n) := by
    unfold lineCount
    omega
  rw [if_neg hinside]
  simp only [t.fetch_starts rfl hn, t.lineStopChecked_eq, bind, Except.bind]
  by_cases hlt : t.starts[n] + k < t.lineStop n
  · have hlen := Nat.lt_of_lt_of_le hlt (t.lineStop_le_length n)
    have hchar : fetch t.text.toList ((t.starts[n] : Int) + k)
        = .ok (t.charAt ⟨t.starts[n] + k, hlen⟩) :=
      fetch_eq_ok (by omega) (t.getElem?_toList_charAt ⟨t.starts[n] + k, hlen⟩)
    unfold offset?
    rw [if_neg (by omega), hchar, t.offsetInLine?_natCast hn k, dif_pos hlt]
    dsimp only
    split <;> rfl
  · have hnone : t.offsetInLine? ⟨n, k⟩ = none := by
      rw [t.offsetInLine?_natCast hn k, dif_neg hlt]
    rw [if_pos (by omega), offset?_of_offsetInLine?_none hnone]
    rfl

/-! ## The partial inverse -/

/-- The offset of a character of the text that breaks no line. -/
def IsBodyOffset (t : LineTable) (p : Int) : Prop :=
  0 ≤ p ∧ p < t.text.length ∧
    ∃ c, t.text.toList[p.toNat]? = some c ∧ c ∉ ['\n', '\r', '\u2028', '\u2029', '\u0085']

theorem isLineBreak_eq_false_iff {c : Char} :
    isLineBreak c = false ↔ c ∉ ['\n', '\r', '\u2028', '\u2029', '\u0085'] := by
  simp [isLineBreak, and_assoc]

theorem map_offset?_eq_some_iff (t : LineTable) (q : Position) (p : Int) :
    (t.offset? q).map Int.ofNat = some p ↔ t.IsBodyOffset p ∧ t.locate p = q := by
  constructor
  · intro h
    obtain ⟨n, hn, rfl⟩ := Option.map_eq_some_iff.1 h
    obtain ⟨c, hc, hbreak, hlocate⟩ := (t.offset?_eq_some_iff q n).1 hn
    have hlen : n < t.text.length := by
      rw [← String.length_toList]
      exact (List.getElem?_eq_some_iff.1 hc).1
    exact ⟨⟨Int.natCast_nonneg n, Int.ofNat_lt.2 hlen, c, hc, isLineBreak_eq_false_iff.1 hbreak⟩,
      hlocate⟩
  · rintro ⟨⟨h0, _, c, hc, hbreak⟩, hlocate⟩
    obtain ⟨n, rfl⟩ := Int.eq_ofNat_of_zero_le h0
    rw [(t.offset?_eq_some_iff q n).2 ⟨c, hc, isLineBreak_eq_false_iff.2 hbreak, hlocate⟩]
    rfl

/-- The lookup of a position is the inverse of the lookup of an offset on the characters that break
no line, and finds nothing elsewhere. Neither lookup leaves the line starts or the text. -/
theorem offset?_partial_inverse_locate (text : String) (l c : Int) :
    let t := (LineMap.ofText text).table
    (∀ p : Int, (t.offset? ⟨l, c⟩).map Int.ofNat = some p ↔
        t.IsBodyOffset p ∧ t.locate p = ⟨l, c⟩) ∧
      (t.offset? ⟨l, c⟩ = none ↔ ¬ ∃ p, t.IsBodyOffset p ∧ t.locate p = ⟨l, c⟩) ∧
      t.offsetChecked ⟨l, c⟩ = .ok ((t.offset? ⟨l, c⟩).map Int.ofNat) ∧
      ∀ p : Int, t.locateChecked p = .ok (t.locate p) := by
  intro t
  refine ⟨fun p => t.map_offset?_eq_some_iff ⟨l, c⟩ p, ?_, t.offsetChecked_eq ⟨l, c⟩,
    fun p => t.locateChecked_eq p⟩
  constructor
  · rintro hnone ⟨p, hp⟩
    have hsome := (t.map_offset?_eq_some_iff ⟨l, c⟩ p).2 hp
    rw [hnone] at hsome
    cases hsome
  · intro hno
    cases hoffset : t.offset? ⟨l, c⟩ with
    | none => rfl
    | some n =>
      refine absurd ⟨(n : Int), ?_⟩ hno
      rw [← t.map_offset?_eq_some_iff, hoffset]
      rfl

end LineTable

end GrammarDiagnostics
