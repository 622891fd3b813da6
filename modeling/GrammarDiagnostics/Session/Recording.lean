import GrammarDiagnostics.Log.Info
import GrammarDiagnostics.Session.Basic

/-! # The log that records

What a session does on a log. The log is the one that the session has when it is asked; rendering an
entry does not change it.

* `Session.place`, `Session.heading`, `Session.wording`: the parts of the message of an entry.
* `Session.position`, `Session.bounds`: the parts of its range.
* `Session.Recording.register`, `Session.Recording.report`: additions to the log.
* `Session.Recording.message`: the message of an entry; the detailed one has file, place, severity
  and code in front.
* `Session.Recording.range?`: the range of an entry: that of its node, or the place of its offset.
* `Session.Recording.info?`, `Session.Recording.infos`, `Session.Recording.infosOf`: snapshots of an
  entry, of all entries, and of those of one file.
-/

set_option autoImplicit false

namespace GrammarDiagnostics.Session

variable {φ : Type} [DecidableEq φ]

/-! ## The parts of a message -/

/-- The place of an offset as it is printed: line and character where the file has a line table,
else the offset itself. -/
def place (file : Option φ) (pos : Int) : Work φ String := do
  match ← table? file with
  | some t => return "(" ++ (← MonadExcept.ofExcept (t.formatPosition pos)) ++ ")"
  | none => return "(" ++ (← MonadExcept.ofExcept (writeNumber pos)) ++ ")"

/-- What stands in front of a detailed message. -/
def heading (file : Option φ) (e : Entry φ) : Work φ String := do
  let files := (← get).files
  let filename := match file with
    | some f => (files f).filename
    | none => ""
  let location ← match e.pos with
    | some pos => place file pos
    | none => pure ""
  let label ← MonadExcept.ofExcept (Diagnostic.label e.diagnostic.code)
  return filename ++ location ++ ": " ++ e.diagnostic.severity ++ " " ++ label ++ ": "

omit [DecidableEq φ] in
/-- What an entry says: its template, filled when there are arguments. Files among the arguments
show as they are now. -/
def wording (e : Entry φ) : Work φ String := do
  let files := (← get).files
  match e.arguments? with
  | some args => noted (format files e.diagnostic.message [.tuple args])
  | none => return e.diagnostic.message

/-! ## The parts of a range -/

/-- The position of an offset in a file; without a line table everything is on the first line. -/
def position (file : Option φ) (pos : Int) : Work φ Position := do
  match ← table? file with
  | some t => return t.locate pos
  | none => return ⟨0, pos⟩

omit [DecidableEq φ] in
/-- The offsets between which an entry lies: those of its node, or its own offset twice. -/
def bounds (e : Entry φ) : Int × Int :=
  match e.node with
  | some n => (n.start, n.stop)
  | none => (e.pos.getD 0, e.pos.getD 0)

namespace Recording

/-! ## Additions -/

section Additions

omit [DecidableEq φ]

/-- Registers a file for the entries to come. A registration of no file takes effect too, and is a
fault nevertheless. -/
def register (log : Log φ) (file : Option φ) : Work φ Unit := do
  let s ← get
  set { s with sink := .recording (log.register file) }
  match file with
  | none => throw .noFileToRegister
  | some f => note [.fileRegistered log.size (s.files f).filename]

/-- Reports an entry. -/
def report (log : Log φ) (e : Entry φ) : Work φ Unit := do
  modify fun s => { s with sink := .recording (log.append e) }
  note [.reported e.diagnostic.code e.pos log.size]

end Additions

/-! ## One entry -/

/-- The message of an entry; there is none outside the log. -/
def message (log : Log φ) (index : Int) (detailed : Bool) : Work φ String := do
  match log.entryAt? index with
  | none => return ""
  | some e =>
    let front ← if detailed then heading (log.fileAt? index) e else pure ""
    return front ++ (← wording e)

/-- The range of an entry. -/
def range? (log : Log φ) (index : Int) : Work φ (Option Range) := do
  match log.entryAt? index with
  | none => return none
  | some e =>
    let start ← position (log.fileAt? index) (bounds e).1
    let stop ← position (log.fileAt? index) (bounds e).2
    return some ⟨start, stop⟩

/-- A snapshot of an entry. The message is rendered first, when it is asked for. -/
def info? (log : Log φ) (index : Int) (options : InfoOptions) : Work φ (Option (Info φ)) := do
  match log.entryAt? index with
  | none => return none
  | some e =>
    let formatted ← if options.formatMessage then
        some <$> message log index options.detailedMessage
      else
        pure none
    let range ← range? log index
    return some
      { index := index
        code := e.diagnostic.code
        message := e.diagnostic.message
        arguments := e.arguments?
        warning := e.diagnostic.isWarning
        range := range
        file := log.fileAt? index
        node := e.node
        pos := e.pos
        formatted := formatted }

/-! ## Snapshots of many entries -/

def infos (log : Log φ) (options : InfoOptions) : Work φ (List (Info φ)) :=
  (List.range log.size).filterMapM fun (index : Nat) => info? log index options

/-- Snapshots of the entries of one file, or of those that belong to no file. -/
def infosOf (log : Log φ) (file : Option φ) (options : InfoOptions) : Work φ (List (Info φ)) :=
  (List.range log.size).filterMapM fun (index : Nat) =>
    if log.fileAt? index = file then info? log index options else return none

end Recording

end GrammarDiagnostics.Session
