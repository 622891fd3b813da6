import GrammarDiagnostics.Diagnostic.Basic

/-! # The journal

The work on a log is noted in a journal, one record for each thing that happened.

* `Record`: what can be noted: line starts computed, an argument missing for a placeholder, a file
  registered, a diagnostic reported.
* `Record.message`: the words of a record; those of a report write its code and its offset.
-/

set_option autoImplicit false

namespace GrammarDiagnostics

/-- A thing worth noting. -/
inductive Record where
  /-- The line starts of a text were computed for the first time. -/
  | lineStartsComputed (lines length : Nat)
  /-- A placeholder, as written, found no argument while the template was filled. -/
  | argumentMissing (placeholder template : String)
  /-- Entries from the index `first` on belong to the file of this name. -/
  | fileRegistered (first : Nat) (filename : String)
  /-- The entry of this index was reported. -/
  | reported (code : Int) (pos : Option Int) (index : Nat)
  deriving DecidableEq, Repr

/-- The words of a record. -/
def Record.message : Record → Except Fault String
  | .lineStartsComputed lines length =>
    .ok ("Computed " ++ decimal lines ++ " line starts over " ++ decimal length ++ " characters")
  | .argumentMissing placeholder template =>
    .ok ("No argument for placeholder " ++ placeholder ++ " in " ++ quoted template)
  | .fileRegistered first filename =>
    .ok ("Attributing diagnostics from index " ++ decimal first ++ " to " ++ filename)
  | .reported code pos index => do
    let label ← Diagnostic.label code
    let place ← match pos with
      | some pos => writeNumber pos
      | none => pure Literal.none
    return "Reported " ++ label ++ " at " ++ place ++ " (index " ++ decimal index ++ ")"

end GrammarDiagnostics
