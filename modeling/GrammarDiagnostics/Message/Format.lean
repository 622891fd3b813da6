import GrammarDiagnostics.Fault
import GrammarDiagnostics.Journal
import GrammarDiagnostics.Message.Argument
import GrammarDiagnostics.Message.Template

/-! # Filling a template with arguments

* `Journal`: the records made so far, oldest first; `Noted`: work that makes records and may fail.
* `replacement`: the text for one placeholder, given what the files are. A placeholder with no
  argument is replaced by nothing, and this is noted; one with too many digits is a fault, whatever
  the arguments.
* `format`: the text of a template with the arguments in place of the placeholders.
-/

set_option autoImplicit false

namespace GrammarDiagnostics

variable {φ : Type}

/-- The records made so far, oldest first. -/
abbrev Journal := Array Record

/-- Work that makes records and may fail. -/
abbrev Noted := EStateM Fault Journal

/-- The text for a placeholder of a template that is filled with the given values. -/
def replacement (files : φ → SourceFile) (template : String) (values : List (Argument φ))
    (p : Placeholder) : Noted String :=
  if p.tooLong then
    throw (.placeholderTooLong p.digits.length)
  else
    match values[p.index]? with
    | some a => pure (a.text files)
    | none => do
      modify fun journal => journal.push (.argumentMissing p.written template)
      pure ""

/-- The text of a template, filled with the arguments meant by those given. -/
def format (files : φ → SourceFile) (template : String) (args : List (Argument φ)) :
    Noted String :=
  (Template.ofString template).fillM (replacement files template (Argument.unwrap args))

end GrammarDiagnostics
