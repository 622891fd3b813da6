import GrammarDiagnostics.Proofs.Source.LineLookup
import GrammarDiagnostics.Proofs.Source.Lineation

/-! # Which offsets are line starts

* `EndsLineAt text n`: a line ends with the character at `n`.
* `mem_startsAfter_iff`, `mem_lineStarts_iff`: lines start at zero and right after the characters
  that end one, and nowhere else; `exists_lineStart_iff`: the same for integers.
* `not_isLineBreak_of_getLast?`: behind the last line start there is no line break.
* `scanLines`: the starts by a scan that enters a line when it is ended, and passes a carriage
  return and its line feed in one step; `toList_scanLines`: what it enters from any point on.
* `lineStarts_complete`: all of this for every text.
-/

set_option autoImplicit false

namespace GrammarDiagnostics

theorem isLineBreak_iff {c : Char} :
    isLineBreak c = true ↔ c ∈ ['\n', '\r', '\u2028', '\u2029', '\u0085'] := by
  rw [← not_iff_not, Bool.not_eq_true, LineTable.isLineBreak_eq_false_iff]

/-- A line ends with the character at the offset `n`: it breaks lines, and it is no carriage return
that leaves the end to the line feed after it. -/
def EndsLineAt (text : List Char) (n : Nat) : Prop :=
  ∃ c, text[n]? = some c ∧ c ∈ ['\n', '\r', '\u2028', '\u2029', '\u0085'] ∧
    ¬ (c = '\r' ∧ text[n + 1]? = some '\n')

theorem EndsLineAt.lt_length {text : List Char} {n : Nat} (h : EndsLineAt text n) :
    n < text.length := by
  obtain ⟨c, hc, _⟩ := h
  exact (List.getElem?_eq_some_iff.1 hc).1

theorem endsLineAt_zero_iff {c : Char} {rest : List Char} :
    EndsLineAt (c :: rest) 0 ↔ endsLine c rest = true := by
  unfold EndsLineAt endsLine
  rw [List.getElem?_cons_zero, List.getElem?_cons_succ, ← List.head?_eq_getElem?]
  simp only [Option.some.injEq, exists_eq_left', ← isLineBreak_iff, Bool.and_eq_true,
    Bool.not_eq_true', Bool.and_eq_false_iff, beq_eq_false_iff_ne, not_and_or, ne_eq]

theorem endsLineAt_succ_iff {c : Char} {rest : List Char} {n : Nat} :
    EndsLineAt (c :: rest) (n + 1) ↔ EndsLineAt rest n := by
  unfold EndsLineAt
  rw [List.getElem?_cons_succ, List.getElem?_cons_succ]

/-! ## Where lines start -/

theorem mem_startsAfter_iff {text : List Char} {pos p : Nat} :
    p ∈ startsAfter pos text ↔ ∃ n, p = pos + n + 1 ∧ EndsLineAt text n := by
  induction text generalizing pos with
  | nil =>
    refine iff_of_false List.not_mem_nil ?_
    rintro ⟨n, _, h⟩
    exact absurd h.lt_length (Nat.not_lt_zero n)
  | cons c rest ih =>
    have hlater : p ∈ startsAfter (pos + 1) rest ↔
        ∃ n, p = pos + (n + 1) + 1 ∧ EndsLineAt (c :: rest) (n + 1) := by
      rw [ih]
      simp only [endsLineAt_succ_iff, Nat.add_assoc, Nat.add_comm 1]
    rw [← Nat.or_exists_add_one, ← hlater, endsLineAt_zero_iff, startsAfter]
    by_cases hends : endsLine c rest = true
    · simp only [hends, if_true, List.mem_cons, and_true]
    · simp only [hends, if_false, and_false, false_or, Bool.false_eq_true]

theorem mem_lineStarts_iff {text : List Char} {p : Nat} :
    p ∈ lineStarts text ↔ p = 0 ∨ 1 ≤ p ∧ EndsLineAt text (p - 1) := by
  unfold lineStarts
  rw [List.mem_cons, mem_startsAfter_iff]
  apply or_congr_right
  constructor
  · rintro ⟨n, rfl, h⟩
    rw [Nat.zero_add, Nat.add_sub_cancel]
    exact ⟨Nat.succ_pos n, h⟩
  · rintro ⟨hp, h⟩
    exact ⟨p - 1, by omega, h⟩

theorem exists_lineStart_iff {text : List Char} {p : Int} :
    (∃ start ∈ lineStarts text, (start : Int) = p) ↔
      p = 0 ∨ 1 ≤ p ∧ p ≤ text.length ∧ EndsLineAt text (p - 1).toNat := by
  constructor
  · rintro ⟨start, hstart, rfl⟩
    rcases mem_lineStarts_iff.1 hstart with rfl | ⟨hpos, hends⟩
    · exact .inl rfl
    · have hle := le_length_of_mem_lineStarts hstart
      have hprevious : ((start : Int) - 1).toNat = start - 1 := by omega
      exact .inr ⟨by omega, by omega, hprevious.symm ▸ hends⟩
  · rintro (rfl | ⟨hpos, _, hends⟩)
    · exact ⟨0, List.mem_cons_self, rfl⟩
    · have hprevious : (p - 1).toNat = p.toNat - 1 := by omega
      rw [hprevious] at hends
      exact ⟨p.toNat, mem_lineStarts_iff.2 (.inr ⟨by omega, hends⟩), by omega⟩

/-! ## The last line -/

theorem le_last_of_mem_lineStarts {text : List Char} {p last : Nat}
    (h : (lineStarts text).getLast? = some last) (hp : p ∈ lineStarts text) : p ≤ last := by
  obtain ⟨earlier, hstarts⟩ := List.getLast?_eq_some_iff.1 h
  have hpairwise := lineStarts_pairwise text
  rw [hstarts] at hpairwise hp
  rcases List.mem_append.1 hp with hp | hp
  · exact Nat.le_of_lt ((List.pairwise_append.1 hpairwise).2.2 p hp last List.mem_cons_self)
  · exact Nat.le_of_eq (List.mem_singleton.1 hp)

/-- Behind a line break a line ends: there, or at the line feed after it. -/
theorem exists_endsLineAt {text : List Char} {n : Nat} {c : Char} (hc : text[n]? = some c)
    (hbreak : isLineBreak c = true) : ∃ m, n ≤ m ∧ EndsLineAt text m := by
  by_cases hfeed : c = '\r' ∧ text[n + 1]? = some '\n'
  · refine ⟨n + 1, Nat.le_succ n, '\n', hfeed.2, List.mem_cons_self, fun h => ?_⟩
    exact absurd h.1 (by decide)
  · exact ⟨n, Nat.le_refl n, c, hc, isLineBreak_iff.1 hbreak, hfeed⟩

theorem not_isLineBreak_of_getLast? {text : List Char} {last n : Nat} {c : Char}
    (h : (lineStarts text).getLast? = some last) (hn : last ≤ n) (hc : text[n]? = some c) :
    isLineBreak c = false := by
  apply Bool.eq_false_iff.2
  intro hbreak
  obtain ⟨m, hm, hends⟩ := exists_endsLineAt hc hbreak
  have hle := le_last_of_mem_lineStarts h (mem_lineStarts_iff.2 (.inr ⟨Nat.succ_pos m, hends⟩))
  omega

/-! ## The starts by a scan -/

/-- Goes on with a scan of which the starts of the ended lines have been entered: the line that
starts at `lineStart` is not ended yet, and the first character given is at `pos`. -/
def scanLines (entered : Array Nat) (lineStart pos : Nat) : List Char → Array Nat
  | '\r' :: '\n' :: rest => scanLines (entered.push lineStart) (pos + 2) (pos + 2) rest
  | c :: rest =>
    if isLineBreak c then
      scanLines (entered.push lineStart) (pos + 1) (pos + 1) rest
    else
      scanLines entered lineStart (pos + 1) rest
  | [] => entered.push lineStart

theorem toList_scanLines (entered : Array Nat) (lineStart pos : Nat) (text : List Char) :
    (scanLines entered lineStart pos text).toList
      = entered.toList ++ lineStart :: startsAfter pos text := by
  fun_induction scanLines entered lineStart pos text with
  | case1 entered lineStart pos rest ih =>
    have hends : startsAfter pos ('\r' :: '\n' :: rest) = (pos + 2) :: startsAfter (pos + 2) rest :=
      startsAfter_lineEnd (e := .returnFeed) (fun h => nomatch h) pos
    rw [ih, hends, Array.toList_push, List.append_assoc]
    rfl
  | case2 entered lineStart pos c rest hno hbreak ih =>
    have hends : endsLine c rest = true := by
      rw [← endsLineAt_zero_iff]
      refine ⟨c, rfl, isLineBreak_iff.1 hbreak, fun h => ?_⟩
      obtain ⟨rest', rfl⟩ := List.head?_eq_some_iff.1 (List.head?_eq_getElem?.trans h.2)
      exact hno rest' h.1 rfl
    rw [ih, startsAfter, if_pos hends, Array.toList_push, List.append_assoc]
    rfl
  | case3 entered lineStart pos c rest hno hbreak ih =>
    have hends : ¬ endsLine c rest = true := by
      unfold endsLine
      rw [Bool.and_eq_true]
      exact fun h => hbreak h.1
    rw [ih, startsAfter, if_neg hends]
  | case4 entered lineStart pos => rw [Array.toList_push, startsAfter]

/-! ## The theorem -/

/-- The line starts ascend from zero and lie in the text or at its end; they are zero and the
offsets right after the characters that end a line. The last of them is right after the last line
break. The scan finds the same starts. -/
theorem lineStarts_complete (text : String) :
    let chars := text.toList
    let starts := lineStarts chars
    starts.Pairwise (· < ·) ∧ starts.head? = some 0 ∧ (∀ p ∈ starts, p ≤ chars.length) ∧
      (∀ p : Int, (∃ start ∈ starts, (start : Int) = p) ↔
        p = 0 ∨ 1 ≤ p ∧ p ≤ chars.length ∧ EndsLineAt chars (p - 1).toNat) ∧
      (∃ last, starts.getLast? = some last ∧
        (last = 0 ∨ ∃ c, chars[last - 1]? = some c ∧ isLineBreak c = true) ∧
        ∀ n c, last ≤ n → chars[n]? = some c → isLineBreak c = false) ∧
      (scanLines #[] 0 0 chars).toList = starts := by
  intro chars starts
  have hlast : starts.getLast? = some (starts.getLast (lineStarts_ne_nil chars)) :=
    List.getLast?_eq_some_getLast _
  refine ⟨lineStarts_pairwise chars, rfl, fun p hp => le_length_of_mem_lineStarts hp,
    fun p => exists_lineStart_iff, ⟨_, hlast, ?_, ?_⟩, toList_scanLines #[] 0 0 chars⟩
  · rcases mem_lineStarts_iff.1 (List.mem_of_getLast? hlast) with hzero | ⟨_, c, hc, hbreak, _⟩
    · exact .inl hzero
    · exact .inr ⟨c, hc, isLineBreak_iff.2 hbreak⟩
  · intro n c hn hc
    exact not_isLineBreak_of_getLast? hlast hn hc

theorem lineStarts_complete_emptyLine :
    let chars := "a\r\n\rb".toList
    (lineStarts chars = [0, 3, 4] ∧ 4 ∈ lineStarts chars ∧ chars[4]? = some 'b') ∧
      4 ≤ chars.length ∧ isLineBreak 'b' = false ∧
      (scanLines #[] 0 0 chars).toList = lineStarts chars := by
  intro chars
  have hstarts : lineStarts chars = [0, 3, 4] := by decide
  have hmem : 4 ∈ lineStarts chars := by decide
  have hchar : chars[4]? = some 'b' := by decide
  obtain ⟨_, _, hle, _, ⟨last, hlast, _, hbehind⟩, hscan⟩ := lineStarts_complete "a\r\n\rb"
  have hfour : last = 4 := by
    rw [hstarts] at hlast
    exact (Option.some.inj hlast).symm
  exact ⟨⟨hstarts, hmem, hchar⟩, hle 4 hmem, hbehind 4 'b' (Nat.le_of_eq hfour) hchar, hscan⟩

end GrammarDiagnostics
