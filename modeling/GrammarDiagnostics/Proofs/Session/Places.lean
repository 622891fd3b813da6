import GrammarDiagnostics.Proofs.Session.Entries
import GrammarDiagnostics.Proofs.Session.Rendered
import GrammarDiagnostics.Proofs.Source.PrintedPosition

/-! # Where entries are

The place in a detailed message is found from the offset of the entry, the range from its node if
there is one. They agree, and ranges are ordered as the offsets of their nodes are.

* `positionIn_lt_positionIn`: with and without a line table, a later offset has a later position.
* `Entry.range_of_node`, `Entry.isEmpty_range`: the range of an entry with a node, and of one
  without; `Entry.start_range`: it begins at the offset of the entry.
* `Entry.location_eq_ok`, `Entry.message_eq_ok`: the parts of a detailed message.
* `position_order`, `message_places_range`: what follows for every text and for every run.
-/

set_option autoImplicit false

namespace GrammarDiagnostics

open Session

variable {φ α β : Type}

/-! ## Positions and ranges -/

theorem positionIn_lt_positionIn (table : Option LineTable) {p q : Int} (h : p < q) :
    positionIn table p < positionIn table q := by
  cases table with
  | none => exact .inr ⟨rfl, h⟩
  | some t => exact t.locate_lt_locate h

theorem positionIn_order (table : Option LineTable) (p q : Int) :
    (p < q ↔ positionIn table p < positionIn table q) ∧
      (p = q ↔ positionIn table p = positionIn table q) :=
  lt_iff_of_lt_imp (fun _ _ => positionIn_lt_positionIn table) p q

theorem positionIn_le_iff (table : Option LineTable) (p q : Int) :
    positionIn table p ≤ positionIn table q ↔ p ≤ q := by
  obtain ⟨hlt, heq⟩ := positionIn_order table p q
  rw [Position.le_iff_lt_or_eq, ← hlt, ← heq]
  omega

namespace Entry

variable {e : Entry φ} {n : Node}

theorem range_of_node (h : e.node = some n) (table : Option LineTable) :
    e.range table = ⟨positionIn table n.start, positionIn table n.stop⟩ := by
  unfold range bounds
  rw [h]

theorem isEmpty_range (h : e.node = none) (table : Option LineTable) :
    (e.range table).isEmpty = true := by
  rw [Range.isEmpty_iff]
  unfold range bounds
  rw [h]

theorem start_range (h : e.Anchored) {pos : Int} (hpos : e.pos = some pos)
    (table : Option LineTable) : (e.range table).start = positionIn table pos := by
  cases hn : e.node with
  | none =>
    unfold range bounds
    rw [hn, hpos]
    rfl
  | some n =>
    have hstart : pos = n.start := Option.some.inj (hpos.symm.trans (h n hn))
    rw [range_of_node hn, hstart]

end Entry

/-! ## The parts of a detailed message -/

theorem exists_of_bind_eq_ok {x : Except Fault α} {k : α → Except Fault β} {b : β}
    (h : x >>= k = .ok b) : ∃ a, x = .ok a ∧ k a = .ok b := by
  cases x with
  | error fault => exact nomatch h
  | ok a => exact ⟨a, rfl, h⟩

namespace Entry

variable {e : Entry φ} {table : Option LineTable}

theorem location_of_pos_none (h : e.pos = none) : e.location table = .ok "" := by
  unfold location
  rw [h]

/-- An entry with an offset is printed at the start of its range, counted from one where there are
lines to count. -/
theorem location_eq_ok {loc : String} (h : e.Anchored) (hpos : e.pos ≠ none)
    (hloc : e.location table = .ok loc) :
    loc = if table.isSome then
        "(" ++ decimal ((e.range table).start.line + 1) ++ ","
          ++ decimal ((e.range table).start.character + 1) ++ ")"
      else "(" ++ decimal (e.range table).start.character ++ ")" := by
  obtain ⟨pos, hpos⟩ := Option.ne_none_iff_exists'.1 hpos
  rw [start_range h hpos]
  unfold location at hloc
  rw [hpos] at hloc
  cases table with
  | none =>
    obtain ⟨printed, hprinted, hloc⟩ := exists_of_bind_eq_ok (x := writeNumber pos) hloc
    have hloc : "(" ++ printed ++ ")" = loc := Except.ok.inj hloc
    rw [← hloc, ← (writeNumber_eq_ok_iff.1 hprinted).2]
    rfl
  | some t =>
    obtain ⟨printed, hprinted, hloc⟩ := exists_of_bind_eq_ok (x := t.formatPosition pos) hloc
    have hloc : "(" ++ printed ++ ")" = loc := Except.ok.inj hloc
    rw [← hloc, ← (LineTable.formatPosition_eq_ok_iff.1 hprinted).2, Position.printed]
    simp only [Option.isSome_some, if_true, positionIn, String.append_assoc]

theorem location_eq_empty_iff {loc : String} (h : e.Anchored) (hloc : e.location table = .ok loc) :
    loc = "" ↔ e.pos = none := by
  constructor
  · rintro rfl
    apply Decidable.byContradiction
    intro hpos
    have hprinted := congrArg String.length (location_eq_ok h hpos hloc)
    have hopen : 0 < "(".length := by decide
    split at hprinted
    · simp only [String.length_empty, String.length_append] at hprinted
      omega
    · simp only [String.length_empty, String.length_append] at hprinted
      omega
  · intro hpos
    rw [location_of_pos_none hpos] at hloc
    exact (Except.ok.inj hloc).symm

/-- The detailed message is the other one with file, place, severity and code in front. -/
theorem message_eq_ok {files : φ → SourceFile} {filename text : String}
    (h : e.message files filename table true = .ok text) :
    ∃ loc wording, e.location table = .ok loc ∧
      e.message files filename table false = .ok wording ∧
      text = filename ++ loc ++ ": " ++ e.diagnostic.severity ++ " GM"
        ++ decimal e.diagnostic.code ++ ": " ++ wording := by
  obtain ⟨front, hfront, h⟩ := exists_of_bind_eq_ok (x := e.heading filename table) h
  obtain ⟨wording, hwording, h⟩ := exists_of_bind_eq_ok h
  obtain ⟨loc, hloc, hfront⟩ := exists_of_bind_eq_ok hfront
  obtain ⟨label, hlabel, hfront⟩ := exists_of_bind_eq_ok hfront
  obtain ⟨code, hcode, hlabel⟩ :=
    exists_of_bind_eq_ok (x := writeNumber e.diagnostic.code) hlabel
  refine ⟨loc, wording, hloc, (e.message_false files filename table).trans hwording, ?_⟩
  have hmark : " " ++ Diagnostic.codeMark = " GM" := rfl
  rw [← Except.ok.inj h, ← Except.ok.inj hfront, ← Except.ok.inj hlabel, ← hmark,
    ← (writeNumber_eq_ok_iff.1 hcode).2]
  simp only [String.append_assoc]

end Entry

/-! ## The entries of a run -/

section Session

variable [DecidableEq φ]

/-- Positions are ordered as the offsets of a text are, whether these lie in it or not. So the range
of an entry is ordered, or empty, just as its node is, whether or not its file has lines; the range
of an entry without a node is empty. -/
theorem position_order :
    (∀ (text : String) (p q : Int),
      let t := (LineMap.ofText text).table
      (p < q ↔ t.locate p < t.locate q) ∧ (p = q ↔ t.locate p = t.locate q)) ∧
    ∀ (files : φ → SourceFile) (run : List (Step φ)) (index : Nat),
      let s := afterRun run (recording files)
      index < s.sink.size → ∃ r file range,
        s.Answers index (some r) file ∧ outcomeOf (range? index) s = .ok (some range) ∧
        (∀ n, r.node = some n →
          (range.start ≤ range.stop ↔ n.start ≤ n.stop) ∧
            (range.isEmpty = true ↔ n.start = n.stop)) ∧
        (r.node = none → range.isEmpty = true) := by
  constructor
  · intro text p q
    exact positionIn_order (some (LineMap.ofText text).table) p q
  · intro files run index s hindex
    obtain ⟨e, he, _, hanswers⟩ := (records_afterRun files run).entry hindex
    have hrange : outcomeOf (range? index) s
        = .ok (some (e.range (s.view.table (s.sink.fileAt? index)))) := by
      rw [(yields_range? index).outcomeOf_eq, View.range?_of_entryAt? he]
      rfl
    refine ⟨e.reported, _, _, hanswers, hrange, ?_, fun hn => Entry.isEmpty_range hn _⟩
    intro n hn
    rw [Entry.range_of_node hn, Range.isEmpty_iff]
    exact ⟨positionIn_le_iff _ _ _, (positionIn_order _ _ _).2.symm⟩

/-- An entry with a node that ends before it starts, its range, a change of the text of its file,
and an entry without file and node. -/
def scatteredRun : List (Step Nat) :=
  [.register (some 0),
   .reportNode (some ⟨.identifier, 3, 1⟩) ⟨2000, "Cannot find name: '\x7b0\x7d'.", "error"⟩
     [.string "x"],
   .ask (.range 0),
   .setText 0 none,
   .register none,
   .report (some 4) ⟨1009, "Obsolete.", "warning"⟩ []]

def scattered : Session Nat :=
  afterRun scatteredRun (recording fun _ => { filename := "a", text := some "b\nc" })

theorem position_order_scattered :
    let n : Node := ⟨.identifier, 3, 1⟩
    (0 < scattered.sink.size ∧ ∃ r file range, scattered.Answers (0 : Nat) (some r) file ∧
      outcomeOf (range? (0 : Nat)) scattered = .ok (some range) ∧ r.node = some n ∧
      (range.start ≤ range.stop ↔ n.start ≤ n.stop) ∧
      (range.isEmpty = true ↔ n.start = n.stop)) ∧
    (1 < scattered.sink.size ∧ ∃ r file range, scattered.Answers (1 : Nat) (some r) file ∧
      outcomeOf (range? (1 : Nat)) scattered = .ok (some range) ∧ r.node = none ∧
      range.isEmpty = true) := by
  intro n
  have hsize : scattered.sink.size = 2 := by decide +kernel
  have hfirst : 0 < scattered.sink.size := by omega
  have hsecond : 1 < scattered.sink.size := by omega
  obtain ⟨r, file, range, hanswers, hrange, hordered, _⟩ :=
    position_order.2 (fun _ => { filename := "a", text := some "b\nc" }) scatteredRun 0 hfirst
  obtain ⟨r', file', range', hanswers', hrange', _, hempty⟩ :=
    position_order.2 (fun _ => { filename := "a", text := some "b\nc" }) scatteredRun 1 hsecond
  have hn : r.node = some n := hanswers.node_held.trans (by decide +kernel)
  have hn' : r'.node = none := hanswers'.node_held.trans (by decide +kernel)
  exact ⟨⟨hfirst, r, file, range, hanswers, hrange, hn, hordered n hn⟩,
    ⟨hsecond, r', file', range', hanswers', hrange', hn', hempty hn'⟩⟩

/-- Where a detailed message is rendered, it is the other message behind the present name of the
file, the place of the entry, its severity and its code. The place is missing just where there is no
offset; else it is the start of the range, counted from one where the file has a line map. Questions
asked before or in between do not matter. -/
theorem message_places_range (files : φ → SourceFile) (run : List (Step φ)) {index : Nat}
    {text : String} (hindex : index < (afterRun run (recording files)).sink.size)
    (htext : outcomeOf (message index true) (afterRun run (recording files)) = .ok text) :
    let s := afterRun run (recording files)
    ∃ r file range loc wording, s.Answers index (some r) file ∧
      (∀ asked : List (Step φ), Step.AllAsk asked →
        outcomeOf (message index true) (afterRun asked s) = .ok text ∧
        outcomeOf (message index false) (afterRun asked s) = .ok wording ∧
        outcomeOf (range? index) (afterRun asked s) = .ok (some range)) ∧
      text = (file.elim "" fun f => (s.files f).filename) ++ loc ++ ": " ++ r.diagnostic.severity
        ++ " GM" ++ decimal r.diagnostic.code ++ ": " ++ wording ∧
      (loc = "" ↔ r.pos = none) ∧
      (r.pos ≠ none → loc =
        if (file.bind fun f => (s.files f).lineMap).isSome then
          "(" ++ decimal (range.start.line + 1) ++ "," ++ decimal (range.start.character + 1) ++ ")"
        else "(" ++ decimal range.start.character ++ ")") := by
  intro s
  obtain ⟨e, he, hanchored, hanswers⟩ := (records_afterRun files run).entry hindex
  have hmessage (detailed : Bool) : s.view.message index detailed
      = e.message s.view.sources (s.view.filename (s.sink.fileAt? index))
        (s.view.table (s.sink.fileAt? index)) detailed := View.message_of_entryAt? he detailed
  have hasked (asked : List (Step φ)) (h : Step.AllAsk asked) (detailed : Bool) :
      outcomeOf (message index detailed) (afterRun asked s) = s.view.message index detailed := by
    rw [(yields_message index detailed).outcomeOf_eq, view_afterAsking h]
  rw [(yields_message index true).outcomeOf_eq, hmessage] at htext
  obtain ⟨loc, wording, hloc, hwording, hparts⟩ := Entry.message_eq_ok htext
  have htable : (s.view.table (s.sink.fileAt? index)).isSome
      = ((s.sink.fileAt? index).bind fun f => (s.files f).lineMap).isSome := by
    cases s.sink.fileAt? index with
    | none => rfl
    | some f => exact Option.isSome_map
  have hfilename : s.view.filename (s.sink.fileAt? index)
      = (s.sink.fileAt? index).elim "" fun f => (s.files f).filename := by
    cases s.sink.fileAt? index <;> rfl
  refine ⟨e.reported, s.sink.fileAt? index, e.range (s.view.table (s.sink.fileAt? index)), loc,
    wording, hanswers, fun asked h => ⟨?_, ?_, ?_⟩, ?_, Entry.location_eq_empty_iff hanchored hloc,
    fun hpos => ?_⟩
  · rw [hasked asked h, hmessage, htext]
  · rw [hasked asked h, hmessage, hwording]
  · rw [(yields_range? index).outcomeOf_eq, view_afterAsking h, View.range?_of_entryAt? he]
    rfl
  · rw [hparts, hfilename]
    rfl
  · rw [← htable]
    exact Entry.location_eq_ok hanchored hpos hloc

theorem message_places_range_scattered :
    0 < scattered.sink.size ∧
    outcomeOf (message (0 : Nat) true) scattered
      = .ok "a(2,2): error GM2000: Cannot find name: 'x'." ∧
    Step.AllAsk (φ := Nat) [.ask (.range 1), .forEach fun _ _ => [.ask (.message 0 true)]] ∧
    ∃ r file range loc wording, scattered.Answers (0 : Nat) (some r) file ∧
      outcomeOf (range? (0 : Nat))
          (afterRun [.ask (.range 1), .forEach fun _ _ => [.ask (.message 0 true)]] scattered)
        = .ok (some range) ∧
      "a(2,2): error GM2000: Cannot find name: 'x'."
        = (file.elim "" fun f => (scattered.files f).filename) ++ loc ++ ": "
          ++ r.diagnostic.severity ++ " GM" ++ decimal r.diagnostic.code ++ ": " ++ wording ∧
      (r.pos ≠ none ∧ loc =
        if (file.bind fun f => (scattered.files f).lineMap).isSome then
          "(" ++ decimal (range.start.line + 1) ++ "," ++ decimal (range.start.character + 1) ++ ")"
        else "(" ++ decimal range.start.character ++ ")") := by
  have hsize : scattered.sink.size = 2 := by decide +kernel
  have hindex : 0 < scattered.sink.size := by omega
  have htext : outcomeOf (message (0 : Nat) true) scattered
      = .ok "a(2,2): error GM2000: Cannot find name: 'x'." := by decide +kernel
  have hasked : Step.AllAsk (φ := Nat)
      [.ask (.range 1), .forEach fun _ _ => [.ask (.message 0 true)]] := by
    simp only [Step.AllAsk, Step.forall_mem_partsAll_cons, Step.forall_mem_partsAll_nil,
      Step.forall_mem_parts_forEach]
    simp [Step.parts, Step.move?]
  obtain ⟨r, file, range, loc, wording, hanswers, hsame, hparts, _, hloc⟩ :=
    message_places_range (fun _ => { filename := "a", text := some "b\nc" }) scatteredRun hindex
      htext
  have hpos : r.pos = some 3 := hanswers.pos_held.trans (by decide +kernel)
  have hne : r.pos ≠ none := by
    rw [hpos]
    exact Option.some_ne_none 3
  exact ⟨hindex, htext, hasked, r, file, range, loc, wording, hanswers, (hsame _ hasked).2.2,
    hparts, hne, hloc hne⟩

end Session

end GrammarDiagnostics
