import GrammarDiagnostics.Log.Sink
import GrammarDiagnostics.Message.Format

/-! # Sessions

A session is the work on one log: the files it speaks of, the log itself or the sink that discards,
the journal of what has happened, and what has been printed.

* `Session`: files, sink, journal and printed lines; `Work`: work in a session, which may end in a
  fault. What was done before the fault stays done.
* `Session.note`: makes records; `Session.print`: prints a line.
* `Session.table`: reads the line table of a file, which keeps it.
* `Session.setText`, `Session.rename`: changes to a file.
* `Session.dispatch`: work that the two sinks do each in its own way.
-/

set_option autoImplicit false

namespace GrammarDiagnostics

variable {φ : Type}

/-- The state of the work on a log. Files are named by references of the type `φ`. -/
structure Session (φ : Type) where
  files : φ → SourceFile
  sink : Sink φ
  journal : Journal := #[]
  /-- The lines printed so far, oldest first. -/
  printed : Array String := #[]

/-- Work in a session. -/
abbrev Work (φ : Type) := EStateM Fault (Session φ)

namespace Session

/-- A session that has just begun, on a log with nothing in it. -/
def recording (files : φ → SourceFile) : Session φ := { files, sink := .recording .empty }

/-- A session that has just begun, on the sink that discards. -/
def discarding (files : φ → SourceFile) : Session φ := { files, sink := .discarding }

/-! ## Records and lines -/

def note (records : List Record) : Work φ Unit :=
  modify fun s => { s with journal := s.journal ++ records }

/-- Does noted work in a session: its records come after those already made. -/
def noted {α : Type} (work : Noted α) : Work φ α := fun s =>
  match work #[] with
  | .ok a records => .ok a { s with journal := s.journal ++ records }
  | .error fault records => .error fault { s with journal := s.journal ++ records }

def print (line : String) : Work φ Unit :=
  modify fun s => { s with printed := s.printed.push line }

/-! ## Files -/

section Files

variable [DecidableEq φ]

/-- Puts a file in the place of what a reference names. -/
def setFile (f : φ) (file : SourceFile) : Work φ Unit :=
  modify fun s => { s with files := fun g => if g = f then file else s.files g }

/-- Gives a file another text, or none. Its line map stays if it has been made. -/
def setText (f : φ) (text : Option String) : Work φ Unit := do
  let file := (← get).files f
  setFile f { file with text }

/-- Gives a file another name. -/
def rename (f : φ) (filename : String) : Work φ Unit := do
  let file := (← get).files f
  setFile f { file with filename }

/-- Reads the line table of a file. The first reading notes that the table is computed, and the
file keeps it; a later one notes nothing and changes nothing. -/
def table (f : φ) : Work φ (Option LineTable) := do
  let file := (← get).files f
  let records := file.records
  if !records.isEmpty then
    note records
    setFile f file.read
  return file.table

/-- Reads the line table of a file that may be absent. -/
def table? (file : Option φ) : Work φ (Option LineTable) :=
  match file with
  | none => pure none
  | some f => table f

end Files

/-! ## The two sinks -/

/-- Work that a log which records does in one way, and the sink that discards in another. -/
def dispatch {α : Type} (recording : Log φ → Work φ α) (discarding : Work φ α) : Work φ α := do
  match (← get).sink with
  | .recording log => recording log
  | .discarding => discarding

section Dispatch

variable {α : Type} {recording : Log φ → Work φ α} {discarding : Work φ α} {s : Session φ}

theorem dispatch_of_recording {log : Log φ} (h : s.sink = .recording log) :
    dispatch recording discarding s = recording log s := by
  obtain ⟨files, sink, journal, printed⟩ := s
  obtain rfl : sink = .recording log := h
  rfl

theorem dispatch_of_discarding (h : s.sink = .discarding) :
    dispatch recording discarding s = discarding s := by
  obtain ⟨files, sink, journal, printed⟩ := s
  obtain rfl : sink = .discarding := h
  rfl

end Dispatch

end Session

end GrammarDiagnostics
