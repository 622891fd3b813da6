import GrammarDiagnostics.Journal
import GrammarDiagnostics.Source.LineTable

/-! # Line maps

A line map computes the line starts of its text when they are first needed, and keeps them.

* `LineMap`: a text whose line table has not been needed yet, or the table.
* `LineMap.table`: the table, computed or kept; `LineMap.read`: the map after a reading, which
  keeps it.
* `LineMap.records`: what a reading of the table notes: the computation, if this is the first one.
* `LineMap.Query`, `LineMap.Reply`, `LineMap.ask`: the questions one can put to a line map; all but
  the text and the written form read the table. `LineMap.askAll` puts them one after the other.
-/

set_option autoImplicit false

namespace GrammarDiagnostics

/-- A text whose line table is computed when it is first needed. -/
inductive LineMap where
  | pending (text : String)
  | computed (table : LineTable)

namespace LineMap

/-- A line map that has not been read. -/
def ofText (text : String) : LineMap := .pending text

/-- The text of a line map. -/
def text : LineMap → String
  | .pending text => text
  | .computed table => table.text

/-- The line table of a line map. -/
def table : LineMap → LineTable
  | .pending text => .ofText text
  | .computed table => table

/-- The records of a reading of the table. -/
def records : LineMap → List Record
  | .pending text => [.lineStartsComputed (LineTable.ofText text).lineCount text.length]
  | .computed _ => []

/-- The map after a reading of the table, which it keeps. -/
def read (m : LineMap) : LineMap := .computed m.table

/-- The written form of a line map tells the length of its text. -/
def literal (m : LineMap) : String :=
  Literal.record "LineMap" [("length", decimal m.text.length)]

@[simp] theorem table_eq (m : LineMap) : m.table = LineTable.ofText m.text := by
  cases m with
  | pending text => rfl
  | computed table => exact (LineTable.ofText_text table).symm

@[simp] theorem text_read (m : LineMap) : m.read.text = m.text := by
  rw [read, text, table_eq, LineTable.text_ofText]

@[simp] theorem records_read (m : LineMap) : m.read.records = [] := rfl

/-! ## Questions -/

/-- A question to a line map. -/
inductive Query where
  | text
  | literal
  | lineStarts
  | lineCount
  | formatPosition (pos : Int)
  | locate (pos : Int)
  | offset (position : Position)
  deriving DecidableEq, Repr

/-- The answer to a question. -/
inductive Reply where
  | text (s : String)
  | offsets (starts : List Nat)
  | count (lines : Nat)
  | position (position : Position)
  | offset (pos : Option Nat)
  deriving DecidableEq, Repr

/-- Whether a question reads the line table. -/
def Query.readsTable : Query → Bool
  | .text | .literal => false
  | _ => true

/-- The answer to a question; only a position to be printed can be a fault. -/
def ask (m : LineMap) : Query → Except Fault Reply
  | .text => .ok (.text m.text)
  | .literal => .ok (.text m.literal)
  | .lineStarts => .ok (.offsets m.table.starts.toList)
  | .lineCount => .ok (.count m.table.lineCount)
  | .formatPosition pos => (m.table.formatPosition pos).map .text
  | .locate pos => .ok (.position (m.table.locate pos))
  | .offset position => .ok (.offset (m.table.offset? position))

/-- The map after a question. -/
def after (m : LineMap) (q : Query) : LineMap :=
  if q.readsTable then m.read else m

/-- The records of a question. -/
def recordsOf (m : LineMap) (q : Query) : List Record :=
  if q.readsTable then m.records else []

/-- The answers to a sequence of questions, each with its records. A fault does not keep the next
question from being asked. -/
def askAll : LineMap → List Query → List (Except Fault Reply × List Record)
  | _, [] => []
  | m, q :: qs => (m.ask q, m.recordsOf q) :: (m.after q).askAll qs

end LineMap

end GrammarDiagnostics
