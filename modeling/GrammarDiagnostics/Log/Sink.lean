import GrammarDiagnostics.Log.Basic

/-! # Where reports go

* `Sink`: a log that records what it is given, or the one that discards everything and answers
  every question as if nothing had been reported.
-/

set_option autoImplicit false

namespace GrammarDiagnostics

/-- A receiver of reports. -/
inductive Sink (φ : Type) where
  | recording (log : Log φ)
  | discarding

end GrammarDiagnostics
