import GrammarDiagnostics.Fault
import GrammarDiagnostics.Text.Literal

/-! # Diagnostics

* `Diagnostic`: what a report says, as a message template with a stable code and a severity.
* `Diagnostic.isWarning`: the severity is exactly the word for warnings; every other severity
  counts as an error.
* `Diagnostic.label`: the code as it is printed, behind the mark of this family of codes, unless it
  has too many digits.
-/

set_option autoImplicit false

namespace GrammarDiagnostics

/-- A message template with its code. Code 0 is kept for templates that only help to build other
messages. -/
structure Diagnostic where
  code : Int
  message : String
  severity : String := "error"
  deriving DecidableEq, Repr

namespace Diagnostic

/-- The mark in front of every printed code. -/
def codeMark : String := "GM"

/-- Whether a diagnostic is only a warning. -/
def isWarning (d : Diagnostic) : Bool := d.severity = "warning"

/-- The code behind its mark. -/
def label (code : Int) : Except Fault String :=
  return codeMark ++ (← writeNumber code)

/-- The written form of a diagnostic. -/
def literal (d : Diagnostic) : String :=
  Literal.record "Diagnostic"
    [("code", decimal d.code), ("message", quoted d.message), ("severity", quoted d.severity)]

@[simp] theorem isWarning_iff {d : Diagnostic} : d.isWarning = true ↔ d.severity = "warning" := by
  simp [isWarning]

end Diagnostic

end GrammarDiagnostics
