import GrammarDiagnostics.Text.Literal

/-! # What a snapshot of a diagnostic carries -/

set_option autoImplicit false

namespace GrammarDiagnostics

/-- Whether a snapshot carries the rendered message, and whether that message is the detailed one,
with file, place, severity and code in front. -/
structure InfoOptions where
  formatMessage : Bool := false
  detailedMessage : Bool := true
  deriving DecidableEq, Repr

/-- The written form of the options. -/
def InfoOptions.literal (o : InfoOptions) : String :=
  Literal.record "DiagnosticInfoOptions"
    [("format_message", Literal.ofBool o.formatMessage),
     ("detailed_message", Literal.ofBool o.detailedMessage)]

end GrammarDiagnostics
