import GrammarDiagnostics.Proofs.Source.LineSearch

/-! # The lines of a text that is appended to another

* `SplitsEnd a b`: a carriage return and its line feed come apart between `a` and `b`.
* `startsAfter_append_of_not_splitsEnd`, `startsAfter_of_splitsEnd`: the starts after the first line
  of two texts together.
* `keptStarts a b`: the line starts of `a` that are still line starts when `b` follows;
  `exists_lostStarts`: the others lie at the end of `a`.
* `lineStarts_append`: the line starts of two texts together.
* `locate_append`, `offset?_append`: positions in the first text.
* `lines_append`: this, and that no position in the first text moves when another is appended.
-/

set_option autoImplicit false

namespace GrammarDiagnostics

variable {a b : List Char}

/-- The first text ends in a carriage return, and the line feed that it leaves the end to begins the
second one. -/
def SplitsEnd (a b : List Char) : Prop := a.getLast? = some '\r' ∧ b.head? = some '\n'

instance (a b : List Char) : Decidable (SplitsEnd a b) := inferInstanceAs (Decidable (_ ∧ _))

theorem endsLine_append {c : Char} {rest : List Char} (h : ¬ SplitsEnd (c :: rest) b) :
    endsLine c (rest ++ b) = endsLine c rest := by
  cases rest with
  | nil =>
    have hfeed : (c == '\r' && b.head? == some '\n') = false := by
      rw [Bool.eq_false_iff, ne_eq, Bool.and_eq_true, beq_iff_eq, beq_iff_eq]
      exact fun hboth => h ⟨congrArg some hboth.1, hboth.2⟩
    unfold endsLine
    rw [List.nil_append, hfeed]
    simp
  | cons d rest => rfl

theorem startsAfter_append_of_not_splitsEnd (h : ¬ SplitsEnd a b) (pos : Nat) :
    startsAfter pos (a ++ b) = startsAfter pos a ++ startsAfter (pos + a.length) b := by
  induction a generalizing pos with
  | nil => rfl
  | cons c rest ih =>
    have hrest : ¬ SplitsEnd rest b := fun hsplits =>
      h ⟨List.getLast?_cons.trans (by rw [hsplits.1]; rfl), hsplits.2⟩
    have hlength : pos + 1 + rest.length = pos + (c :: rest).length := by
      rw [List.length_cons, Nat.add_assoc, Nat.add_comm 1]
    rw [List.cons_append, startsAfter, startsAfter, endsLine_append h, ih hrest, hlength]
    split <;> rfl

/-- The first text alone has a line start at its end, which a line feed moves on. -/
theorem startsAfter_of_splitsEnd (h : SplitsEnd a b) (pos : Nat) :
    ∃ kept, startsAfter pos a = kept ++ [pos + a.length] ∧
      startsAfter pos (a ++ b) = kept ++ startsAfter (pos + a.length) b := by
  obtain ⟨front, rfl⟩ := List.getLast?_eq_some_iff.1 h.1
  obtain ⟨rest, rfl⟩ := List.head?_eq_some_iff.1 h.2
  have hapart (text : List Char) : ¬ SplitsEnd front ('\r' :: text) := fun hsplits =>
    absurd (Option.some.inj hsplits.2) (by decide)
  rw [List.append_assoc, startsAfter_append_of_not_splitsEnd (hapart _),
    List.singleton_append, startsAfter_append_of_not_splitsEnd (hapart _), List.length_append]
  exact ⟨startsAfter pos front, rfl, rfl⟩

theorem startsAfter_add (pos k : Nat) (text : List Char) :
    startsAfter (pos + k) text = (startsAfter pos text).map (· + k) := by
  induction text generalizing pos with
  | nil => rfl
  | cons c rest ih =>
    have hrest := ih (pos + 1)
    rw [Nat.add_right_comm] at hrest
    rw [startsAfter, startsAfter, hrest, Nat.add_right_comm]
    split <;> rfl

/-! ## The line starts of both texts -/

/-- The line starts of a text that are line starts also when another text follows. -/
def keptStarts (a b : List Char) : List Nat :=
  if SplitsEnd a b then (lineStarts a).dropLast else lineStarts a

theorem exists_lostStarts (a b : List Char) :
    ∃ lost, lineStarts a = keptStarts a b ++ lost ∧ ∀ p ∈ lost, a.length ≤ p := by
  unfold keptStarts
  by_cases h : SplitsEnd a b
  · obtain ⟨kept, ha, _⟩ := startsAfter_of_splitsEnd h 0
    have hstarts : lineStarts a = (0 :: kept) ++ [a.length] := by
      rw [lineStarts, ha, Nat.zero_add, List.cons_append]
    rw [if_pos h, hstarts, List.dropLast_concat]
    exact ⟨[a.length], rfl, fun p hp => Nat.le_of_eq (List.mem_singleton.1 hp).symm⟩
  · rw [if_neg h]
    exact ⟨[], (List.append_nil _).symm, fun p hp => absurd hp List.not_mem_nil⟩

theorem lineStarts_append (a b : List Char) :
    lineStarts (a ++ b) = keptStarts a b ++ (lineStarts b).tail.map (· + a.length) := by
  have hmoved : (lineStarts b).tail.map (· + a.length) = startsAfter (0 + a.length) b :=
    (startsAfter_add 0 a.length b).symm
  rw [hmoved, keptStarts, lineStarts]
  by_cases h : SplitsEnd a b
  · obtain ⟨kept, ha, hab⟩ := startsAfter_of_splitsEnd h 0
    rw [if_pos h, hab, lineStarts, ha, ← List.cons_append, ← List.cons_append,
      List.dropLast_concat]
  · rw [if_neg h, startsAfter_append_of_not_splitsEnd h, lineStarts, List.cons_append]

/-! ## Positions in the first text -/

theorem getElem?_append_iff_of_lt {kept later : List Nat} {bound i start : Nat}
    (hlater : ∀ p ∈ later, bound ≤ p) (h : start < bound) :
    (kept ++ later)[i]? = some start ↔ kept[i]? = some start := by
  rcases Nat.lt_or_ge i kept.length with hlt | hge
  · rw [List.getElem?_append_left hlt]
  · rw [List.getElem?_append_right hge, List.getElem?_eq_none hge]
    refine iff_of_false (fun hstart => ?_) (fun hstart => nomatch hstart)
    have hle := hlater start (List.mem_of_getElem? hstart)
    omega

theorem locate_append (a b : String) {pos : Int} (h : pos < a.length) :
    (LineTable.ofText (a ++ b)).locate pos = (LineTable.ofText a).locate pos := by
  apply LineTable.locate_congr
  intro i start hle
  obtain ⟨lost, hlost, hbound⟩ := exists_lostStarts a.toList b.toList
  have hbehind : ∀ p ∈ (lineStarts b.toList).tail.map (· + a.toList.length),
      a.toList.length ≤ p := by
    intro p hp
    obtain ⟨q, _, rfl⟩ := List.mem_map.1 hp
    exact Nat.le_add_left _ _
  have hlt : start < a.toList.length := by
    rw [String.length_toList]
    omega
  rw [LineTable.text_ofText, LineTable.text_ofText, String.toList_append, lineStarts_append, hlost,
    getElem?_append_iff_of_lt hbehind hlt, getElem?_append_iff_of_lt hbound hlt]

theorem offset?_append (a b : String) {p : Position} {n : Nat}
    (h : (LineTable.ofText a).offset? p = some n) :
    (LineTable.ofText (a ++ b)).offset? p = some n := by
  rw [LineTable.offset?_eq_some_iff, LineTable.text_ofText] at *
  obtain ⟨c, hc, hbreak, hlocate⟩ := h
  have hn : n < a.toList.length := (List.getElem?_eq_some_iff.1 hc).1
  refine ⟨c, ?_, hbreak, ?_⟩
  · rw [String.toList_append, List.getElem?_append_left hn, hc]
  · rw [String.length_toList] at hn
    rw [locate_append a b (Int.ofNat_lt.2 hn), hlocate]

/-! ## The theorem -/

/-- The line starts of two texts together are those of the first and, moved behind it, those of the
second after its first line; only where an end was split, the last start of the first text is none
any more. Nothing in the first text moves. -/
theorem lines_append (a b : String) :
    lineStarts (a ++ b).toList
        = (if a.toList.getLast? = some '\r' ∧ b.toList.head? = some '\n' then
            (lineStarts a.toList).dropLast else lineStarts a.toList)
          ++ (lineStarts b.toList).tail.map (· + a.length) ∧
      (∀ pos : Int, pos < a.length →
        (LineMap.ofText (a ++ b)).ask (.locate pos) = (LineMap.ofText a).ask (.locate pos) ∧
        (LineMap.ofText (a ++ b)).ask (.formatPosition pos)
          = (LineMap.ofText a).ask (.formatPosition pos)) ∧
      ∀ p n, (LineMap.ofText a).ask (.offset p) = .ok (.offset (some n)) →
        (LineMap.ofText (a ++ b)).ask (.offset p) = .ok (.offset (some n)) := by
  refine ⟨?_, fun pos h => ⟨?_, ?_⟩, fun p n h => ?_⟩
  · rw [String.toList_append, lineStarts_append, String.length_toList]
    rfl
  · exact congrArg (Except.ok ∘ LineMap.Reply.position) (locate_append a b h)
  · have hformat : (LineTable.ofText (a ++ b)).formatPosition pos
        = (LineTable.ofText a).formatPosition pos := by
      unfold LineTable.formatPosition
      rw [locate_append a b h]
    exact congrArg (Except.map LineMap.Reply.text) hformat
  · have hoffset := LineMap.Reply.offset.inj (Except.ok.inj h)
    exact congrArg (Except.ok ∘ LineMap.Reply.offset) (offset?_append a b hoffset)

/-- The end between the two texts is split. -/
theorem lines_append_splitEnd :
    let a := "x\r"
    let b := "\ny"
    (1 : Int) < a.length ∧
      (LineMap.ofText (a ++ b)).ask (.locate 1) = (LineMap.ofText a).ask (.locate 1) ∧
      (LineMap.ofText a).ask (.offset ⟨0, 0⟩) = .ok (.offset (some 0)) ∧
      (LineMap.ofText (a ++ b)).ask (.offset ⟨0, 0⟩) = .ok (.offset (some 0)) := by
  intro a b
  have hlt : (1 : Int) < a.length := by decide
  have hoffset : (LineMap.ofText a).ask (.offset ⟨0, 0⟩) = .ok (.offset (some 0)) := by
    decide +kernel
  obtain ⟨_, hstill, hfound⟩ := lines_append a b
  exact ⟨hlt, (hstill 1 hlt).1, hoffset, hfound ⟨0, 0⟩ 0 hoffset⟩

end GrammarDiagnostics
