import GrammarDiagnostics.Source.LineMap
import Mathlib.Data.List.Basic

/-! # Line maps that are asked again

A line map computes its table when it is first needed and keeps it. None of its answers tells
whether it has done so; the journal does.

* `LineMap.ask_after`: what is answered does not depend on what was asked before.
* `LineMap.notes_eq`: which of some questions has the table computed.
* `lineMap_reuse_invisible`: any questions to a line map, in any order.
-/

set_option autoImplicit false

namespace GrammarDiagnostics

namespace LineMap

theorem ask_congr {m m' : LineMap} (h : m.text = m'.text) (q : Query) : m.ask q = m'.ask q := by
  have htable : m.table = m'.table := by rw [table_eq, table_eq, h]
  cases q <;> simp only [ask, literal, h, htable]

theorem after_of_readsTable {q : Query} (h : q.readsTable = true) (m : LineMap) :
    m.after q = m.read ∧ m.recordsOf q = m.records :=
  ⟨if_pos h, if_pos h⟩

theorem after_of_not_readsTable {q : Query} (h : q.readsTable = false) (m : LineMap) :
    m.after q = m ∧ m.recordsOf q = [] := by
  have hneg : ¬ q.readsTable = true := by simp [h]
  exact ⟨if_neg hneg, if_neg hneg⟩

theorem text_after (m : LineMap) (q : Query) : (m.after q).text = m.text := by
  unfold after
  split
  · exact m.text_read
  · rfl

theorem ask_after (m : LineMap) (q : Query) : (m.after q).ask = m.ask := by
  funext q'
  exact ask_congr (m.text_after q) q'

theorem answers_eq (m : LineMap) (qs : List Query) :
    (m.askAll qs).map Prod.fst = qs.map m.ask := by
  induction qs generalizing m with
  | nil => rfl
  | cons q qs ih =>
    rw [askAll, List.map_cons, ih, ask_after, List.map_cons]

/-! ## What is noted -/

theorem records_after {m : LineMap} (h : m.records = []) (q : Query) :
    (m.after q).records = [] := by
  unfold after
  split
  · rfl
  · exact h

/-- A table that has been computed is not computed again. -/
theorem notes_of_records_nil {m : LineMap} (h : m.records = []) (qs : List Query) :
    (m.askAll qs).map Prod.snd = qs.map fun _ => [] := by
  induction qs generalizing m with
  | nil => rfl
  | cons q qs ih =>
    rw [askAll, List.map_cons, ih (records_after h q), recordsOf, h, ite_self, List.map_cons]

theorem notes_eq (m : LineMap) (qs : List Query) :
    (m.askAll qs).map Prod.snd = qs.mapIdx fun i _ =>
      if qs.findIdx? Query.readsTable = some i then m.records else [] := by
  induction qs with
  | nil => rfl
  | cons q qs ih =>
    rw [askAll, List.map_cons, List.mapIdx_cons, List.findIdx?_cons]
    cases h : q.readsTable with
    | true =>
      obtain ⟨hread, hnoted⟩ := after_of_readsTable h m
      rw [hread, hnoted, notes_of_records_nil m.records_read]
      simp [List.mapIdx_eq_zipIdx_map]
    | false =>
      obtain ⟨hsame, hnoted⟩ := after_of_not_readsTable h m
      rw [hsame, hnoted, ih]
      simp

theorem Query.readsTable_eq (q : Query) : q.readsTable = decide (q ≠ .text ∧ q ≠ .literal) := by
  cases q <;> rfl

theorem notes_flatten (m : LineMap) (qs : List Query) :
    (m.askAll qs).flatMap Prod.snd = if qs.any Query.readsTable then m.records else [] := by
  induction qs generalizing m with
  | nil => rfl
  | cons q qs ih =>
    rw [askAll, List.flatMap_cons, ih, List.any_cons]
    cases h : q.readsTable with
    | true =>
      obtain ⟨hread, hnoted⟩ := after_of_readsTable h m
      simp [hread, hnoted]
    | false =>
      obtain ⟨hsame, hnoted⟩ := after_of_not_readsTable h m
      simp [hsame, hnoted]

end LineMap

/-- Whatever is asked of a line map, and in whatever order, is answered as by one that has been
asked nothing. That the line starts are computed is noted once, with their number and the length of
the text, at the first question but for those for the text and for the written form, and not at all
if there is no such question. -/
theorem lineMap_reuse_invisible (text : String) (qs : List LineMap.Query) :
    let m := LineMap.ofText text
    let starts := lineStarts text.toList
    let computed : Record := .lineStartsComputed starts.length text.length
    (m.askAll qs).map Prod.fst = qs.map m.ask ∧
      (m.askAll qs).map Prod.snd = qs.mapIdx (fun i _ =>
        if qs.findIdx? (fun q => q ≠ .text ∧ q ≠ .literal) = some i then [computed] else []) ∧
      (m.askAll qs).flatMap Prod.snd
        = (if ∃ q ∈ qs, q ≠ .text ∧ q ≠ .literal then [computed] else []) ∧
      m.ask .lineStarts = .ok (.offsets starts) ∧
      computed.message = .ok ("Computed " ++ decimal starts.length ++ " line starts over "
        ++ decimal text.length ++ " characters") := by
  intro m starts computed
  have hrecords : m.records = [computed] := by
    simp [m, computed, starts, LineMap.records, LineMap.ofText, LineTable.lineCount,
      LineTable.ofText]
  have hreads : (fun q : LineMap.Query => decide (q ≠ .text ∧ q ≠ .literal))
      = LineMap.Query.readsTable := by
    funext q
    exact q.readsTable_eq.symm
  refine ⟨m.answers_eq qs, ?_, ?_, rfl, rfl⟩
  · rw [m.notes_eq, hrecords, hreads]
  · rw [m.notes_flatten, hrecords, ← hreads]
    simp

/-- A question that has no answer has the line starts computed too. -/
example : (LineMap.ofText "a\nb").askAll [.text, .offset ⟨-1, 0⟩, .lineCount]
    = [(.ok (.text "a\nb"), []), (.ok (.offset none), [.lineStartsComputed 2 3]),
      (.ok (.count 2), [])] := by
  rfl

end GrammarDiagnostics
