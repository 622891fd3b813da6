import GrammarDiagnostics.Session.Asking

/-! # Going through a log

Every enumeration goes over the entries that the log holds when it begins, whatever is added
meanwhile.

* `Session.forEach`: hands every detailed message with its index to a callback, which may work on
  the same session.
* `Session.iterate`: hands out one snapshot after the other; other work may come before the first
  is asked for, and that is when the enumeration begins.
* `Session.hasErrors`: whether some entry is more than a warning.
* `Session.collect`, `Session.dump`: all messages, as a list and as numbered lines that are printed.
-/

set_option autoImplicit false

namespace GrammarDiagnostics.Session

variable {φ α : Type} [DecidableEq φ]

/-! ## Callbacks -/

namespace Recording

/-- Hands every detailed message with its index to a callback. The callback may add to the log, so
that each message is asked of the session as it is by then. -/
def forEach (log : Log φ) (callback : String → Nat → Work φ α) : Work φ (List α) :=
  (List.range log.size).mapM fun (index : Nat) => do
    callback (← Session.message index true) index

/-- Hands out the snapshots of the entries, and does something after each one. -/
def iterate (log : Log φ) (each : Info φ → Work φ Unit) : Work φ (List (Info φ)) :=
  (List.range log.size).filterMapM fun (index : Nat) => do
    let some info ← Session.info? index {} | return none
    each info
    return some info

end Recording

def forEach (callback : String → Nat → Work φ α) : Work φ (List α) :=
  dispatch (Recording.forEach · callback) (Discarding.forEach callback)

/-- Hands out snapshots one by one; `before` is done before the first is asked for, `each` after
each one. -/
def iterate (before : Work φ Unit) (each : Info φ → Work φ Unit) : Work φ (List (Info φ)) := do
  before
  dispatch (Recording.iterate · each) (Discarding.iterate each)

/-! ## Reports on a log -/

omit [DecidableEq φ] in
/-- The indices of the entries that are there now. -/
def indices : Work φ (List Nat) := return List.range (← size)

omit [DecidableEq φ] in
/-- Whether some entry is more than a warning; the search ends with the first one. -/
def hasErrors : Work φ Bool := do
  (← indices).anyM fun (index : Nat) => do
    match ← diagnostic index with
    | some d => return !d.isWarning
    | none => return false

def collect (detailed : Bool) : Work φ (List String) := do
  if detailed then
    forEach fun text _ => pure text
  else
    (← indices).mapM fun (index : Nat) => message index false

/-- A line of the dump: the index, in at least three digits, and the message. -/
def dumpLine (text : String) (index : Nat) : String :=
  String.ofList (padded 10 3 index) ++ " " ++ text ++ "\n"

/-- Prints all detailed messages, each on a line with its index in front. A line is printed before
the next message is rendered. -/
def dump : Work φ Unit := do
  let _ ← forEach fun text index => print (dumpLine text index)

end GrammarDiagnostics.Session
