import GrammarDiagnostics.Proofs.Source.LineLookup
import GrammarDiagnostics.Proofs.Source.Lineation

/-! # Lines are found again, however they are ended

* `Lineation.locate_start_add`, `Lineation.offset?_start_add`: in a text written line by line, the
  two lookups lead to the line and the character that were written, and back.
* `lines_recovered`: this, the line starts and the number of lines, for every way of writing lines;
  every text is written in exactly one way, and positions depend on the bodies only.
-/

set_option autoImplicit false

namespace GrammarDiagnostics

namespace Lineation

variable {d : Lineation} {i j : Nat} {body : List Char}

theorem length_bodies (d : Lineation) : d.bodies.length = d.ended.length + 1 := by
  unfold bodies
  rw [List.length_append, List.length_map, List.length_singleton]

theorem getElem?_bodies_of_lt (d : Lineation) (h : i < d.ended.length) :
    d.bodies[i]? = some d.ended[i].body := by
  unfold bodies
  rw [List.getElem?_append_left (by rw [List.length_map]; exact h), List.getElem?_map,
    List.getElem?_eq_getElem h, Option.map_some]

theorem getElem?_bodies_last (d : Lineation) : d.bodies[d.ended.length]? = some d.last := by
  unfold bodies
  rw [← List.length_map Line.body, List.getElem?_concat_length]

theorem start_succ (d : Lineation) (h : i < d.ended.length) :
    d.start (i + 1) = d.start i + d.ended[i].chars.length := by
  unfold start
  rw [List.take_add_one, List.getElem?_eq_getElem h, List.flatMap_append, List.length_append,
    Option.toList_some, List.flatMap_singleton]

/-- Behind the body of a line that is ended there is its end. -/
theorem start_add_length_lt (h : i < d.ended.length) (hbody : d.bodies[i]? = some body) :
    d.start i + body.length < d.start (i + 1) := by
  rw [d.getElem?_bodies_of_lt h] at hbody
  obtain rfl := Option.some.inj hbody
  have hend : 0 < d.ended[i].ending.chars.length := by
    cases d.ended[i].ending <;> exact Nat.succ_pos _
  rw [d.start_succ h, Line.chars, List.length_append]
  omega

/-- The body of a line stands in the text behind everything before it. -/
theorem chars_eq (h : d.bodies[i]? = some body) :
    ∃ rest, d.chars = (d.ended.take i).flatMap Line.chars ++ (body ++ rest) := by
  have hi : i < d.bodies.length := (List.getElem?_eq_some_iff.1 h).1
  rw [d.length_bodies] at hi
  rcases Nat.lt_or_eq_of_le (Nat.le_of_lt_succ hi) with hlt | heq
  · rw [d.getElem?_bodies_of_lt hlt] at h
    obtain rfl := Option.some.inj h
    have hdrop : d.ended.drop i = d.ended[i] :: d.ended.drop (i + 1) :=
      List.drop_eq_getElem_cons hlt
    refine ⟨d.ended[i].ending.chars ++ joined (d.ended.drop (i + 1)) d.last, ?_⟩
    rw [← joined_cons, ← hdrop]
    unfold chars joined
    rw [← List.append_assoc, ← List.flatMap_append, List.take_append_drop]
  · rw [heq, d.getElem?_bodies_last] at h
    obtain rfl := Option.some.inj h
    refine ⟨[], ?_⟩
    rw [heq, List.take_length, List.append_nil]
    rfl

theorem unbroken_of_mem_bodies (h : body ∈ d.bodies) : Unbroken body := by
  rcases List.mem_append.1 h with h | h
  · obtain ⟨l, hl, rfl⟩ := List.mem_map.1 h
    exact d.lineated.unbroken_ended l hl
  · rw [List.mem_singleton.1 h]
    exact d.lineated.unbroken_last

/-! ## The table of the text -/

def table (d : Lineation) : LineTable := .ofText d.text

theorem toList_starts_table (d : Lineation) : d.table.starts.toList = d.starts := by
  rw [d.table.toList_starts, ← lineStarts_chars]
  exact congrArg lineStarts String.toList_ofList

theorem size_starts_table (d : Lineation) : d.table.starts.size = d.ended.length + 1 := by
  rw [← Array.length_toList, d.toList_starts_table, starts, List.length_map, List.length_range]

theorem getElem_starts_table (d : Lineation) {i : Nat} (h : i < d.table.starts.size) :
    d.table.starts[i] = d.start i := by
  have hi : d.table.starts.toList[i]? = some d.table.starts[i] := by
    rw [Array.getElem?_toList, Array.getElem?_eq_getElem h]
  rw [d.size_starts_table] at h
  rw [d.toList_starts_table, starts, List.getElem?_map, List.getElem?_range h] at hi
  exact (Option.some.inj hi).symm

theorem locate_start_add (h : d.bodies[i]? = some body) (hj : j ≤ body.length) :
    d.table.locate (d.start i + j : Nat) = ⟨i, j⟩ := by
  have hi : i < d.table.starts.size := by
    rw [d.size_starts_table, ← d.length_bodies]
    exact (List.getElem?_eq_some_iff.1 h).1
  have hstart := d.getElem_starts_table hi
  have hline : d.table.lineOf (d.start i + j : Nat) = i := by
    apply d.table.lineOf_eq hi
    · omega
    · intro hnext
      have hended : i < d.ended.length := by
        rw [d.size_starts_table] at hnext
        omega
      have := start_add_length_lt hended h
      rw [d.getElem_starts_table hnext]
      omega
  rw [d.table.locate_eq hi hline, hstart]
  congr 1
  omega

theorem offset?_start_add (h : d.bodies[i]? = some body) (hj : j < body.length) :
    d.table.offset? ⟨i, j⟩ = some (d.start i + j) := by
  rw [LineTable.offset?_eq_some_iff]
  obtain ⟨rest, hchars⟩ := chars_eq h
  have hbody : Unbroken body := unbroken_of_mem_bodies (List.mem_of_getElem? h)
  refine ⟨body[j], ?_, hbody _ (List.getElem_mem hj), locate_start_add h (Nat.le_of_lt hj)⟩
  change (String.ofList d.chars).toList[_]? = _
  rw [String.toList_ofList, hchars, start, List.getElem?_append_right (Nat.le_add_right _ _),
    Nat.add_sub_cancel_left, List.getElem?_append_left hj, List.getElem?_eq_getElem hj]

end Lineation

/-! ## The theorem -/

/-- However its lines are ended, a text has the line starts and the number of lines that were
written, each character is found on its line and the other way round, and where a character is found
depends on the bodies only. Every text is written in exactly one way. -/
theorem lines_recovered :
    (∀ d : Lineation,
      (LineMap.ofText d.text).ask .lineStarts = .ok (.offsets d.starts) ∧
      (LineMap.ofText d.text).ask .lineCount = .ok (.count (d.ended.length + 1)) ∧
      (∀ i body, d.bodies[i]? = some body → ∀ j : Nat,
        (j ≤ body.length →
          (LineMap.ofText d.text).ask (.locate (d.start i + j : Nat)) = .ok (.position ⟨i, j⟩)) ∧
        (j < body.length →
          (LineMap.ofText d.text).ask (.offset ⟨i, j⟩) = .ok (.offset (some (d.start i + j))))) ∧
      ∀ d' : Lineation, d'.bodies = d.bodies → ∀ i body, d.bodies[i]? = some body →
        ∀ j : Nat, j ≤ body.length →
          (LineMap.ofText d'.text).ask (.locate (d'.start i + j : Nat))
            = (LineMap.ofText d.text).ask (.locate (d.start i + j : Nat))) ∧
    ∀ text : String, ∃! d : Lineation, d.text = text := by
  have hlocate (d : Lineation) {i : Nat} {body : List Char} (h : d.bodies[i]? = some body) {j : Nat}
      (hj : j ≤ body.length) :
      (LineMap.ofText d.text).ask (.locate (d.start i + j : Nat)) = .ok (.position ⟨i, j⟩) :=
    congrArg (Except.ok ∘ LineMap.Reply.position) (Lineation.locate_start_add h hj)
  refine ⟨fun d => ⟨?_, ?_, fun i body h j => ⟨hlocate d h, fun hj => ?_⟩, ?_⟩,
    existsUnique_lineation⟩
  · exact congrArg (Except.ok ∘ LineMap.Reply.offsets) d.toList_starts_table
  · exact congrArg (Except.ok ∘ LineMap.Reply.count) d.size_starts_table
  · exact congrArg (Except.ok ∘ LineMap.Reply.offset) (Lineation.offset?_start_add h hj)
  · intro d' hbodies i body h j hj
    rw [hlocate d h hj, hlocate d' (hbodies ▸ h) hj]

/-- Three lines, the second empty, with these two ends. -/
def threeLines (first second : LineEnd) (h : ¬ (first = .carriageReturn ∧ second = .lineFeed)) :
    Lineation where
  ended := [⟨['a', 'b'], first⟩, ⟨[], second⟩]
  last := ['c']
  lineated :=
    { unbroken_ended := by
        simp only [List.mem_cons, List.not_mem_nil, or_false, forall_eq_or_imp, forall_eq]
        decide
      unbroken_last := by decide
      apart := by simpa [Line.Fuses] using h }

theorem lines_recovered_threeLines :
    let d := threeLines .returnFeed .carriageReturn (by decide)
    let d' := threeLines .lineFeed .nextLine (by decide)
    (d.bodies[2]? = some ['c'] ∧ 1 ≤ ['c'].length ∧ 0 < ['c'].length ∧ d'.bodies = d.bodies) ∧
      (LineMap.ofText d.text).ask (.locate (d.start 2 + 1 : Nat)) = .ok (.position ⟨2, 1⟩) ∧
      (LineMap.ofText d.text).ask (.offset ⟨2, 0⟩) = .ok (.offset (some (d.start 2 + 0))) ∧
      (LineMap.ofText d'.text).ask (.locate (d'.start 2 + 1 : Nat))
        = (LineMap.ofText d.text).ask (.locate (d.start 2 + 1 : Nat)) := by
  intro d d'
  have hbody : d.bodies[2]? = some ['c'] := rfl
  have hbodies : d'.bodies = d.bodies := rfl
  obtain ⟨_, _, hlookup, hother⟩ := lines_recovered.1 d
  exact ⟨⟨hbody, by decide, by decide, hbodies⟩, (hlookup 2 ['c'] hbody 1).1 (by decide),
    (hlookup 2 ['c'] hbody 0).2 (by decide), hother d' hbodies 2 ['c'] hbody 1 (by decide)⟩

end GrammarDiagnostics
