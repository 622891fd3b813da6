import GrammarDiagnostics.Text.DecimalDigit
import GrammarDiagnostics.Text.Numeral

/-! # Message templates

A placeholder is a run of decimal digits between braces; everything else in a template stands for
itself, braces that enclose no run of digits included.

* `Placeholder`: the digits of a placeholder, their number, and the placeholder as written.
* `Template`: a text, and the placeholders in it, each with the text that follows it.
* `Template.ofString`: the template that a text stands for; `Template.chars` writes it again.
* `Template.fillM`, `Template.fill`: the text with each placeholder replaced, from left to right;
  what replaces a placeholder is not looked at again.
-/

set_option autoImplicit false

namespace GrammarDiagnostics

/-- The opening brace. -/
def openMark : Char := '\x7b'

/-- The closing brace. -/
def closeMark : Char := '\x7d'

/-- A placeholder, by its digits. -/
structure Placeholder where
  digits : List Char
  deriving DecidableEq, Repr

namespace Placeholder

/-- The number that a placeholder asks for. -/
def index (p : Placeholder) : Nat := decimalValue p.digits

/-- The characters of a placeholder as written. -/
def chars (p : Placeholder) : List Char := openMark :: p.digits ++ [closeMark]

/-- A placeholder as written. -/
def written (p : Placeholder) : String := String.ofList p.chars

/-- Whether a placeholder has more digits than are read. -/
def tooLong (p : Placeholder) : Bool := digitLimit < p.digits.length

theorem tooLong_iff {p : Placeholder} : p.tooLong = true ↔ digitLimit < p.digits.length :=
  decide_eq_true_iff

end Placeholder

/-- A template: the text before the first placeholder, then each placeholder with the text that
follows it. -/
structure Template where
  lead : List Char
  tail : List (Placeholder × List Char)
  deriving DecidableEq, Repr

namespace Template

/-- A text with no placeholder in front of a template. -/
def prepend (text : List Char) (t : Template) : Template := { t with lead := text ++ t.lead }

/-- A placeholder in front of a template. -/
def prependPlaceholder (p : Placeholder) (t : Template) : Template := ⟨[], (p, t.lead) :: t.tail⟩

/-! ## Reading -/

/-- The characters of a placeholder that is still open; its digits are given latest first. -/
def opened (digits : List Char) : List Char := openMark :: digits.reverse

/-- Reads the rest of a template. Either no placeholder is open, or one is, and its digits so far
are given latest first. What was opened and turns out to be no placeholder stands for itself. -/
def read : Option (List Char) → List Char → Template
  | none, [] => ⟨[], []⟩
  | none, c :: rest =>
    if c = openMark then
      read (some []) rest
    else
      prepend [c] (read none rest)
  | some digits, [] => ⟨opened digits, []⟩
  | some digits, c :: rest =>
    if isDecimalDigit c then
      read (some (c :: digits)) rest
    else if c = closeMark ∧ digits ≠ [] then
      prependPlaceholder ⟨digits.reverse⟩ (read none rest)
    else if c = openMark then
      prepend (opened digits) (read (some []) rest)
    else
      prepend (opened digits ++ [c]) (read none rest)

/-- The template that a text stands for. -/
def ofString (s : String) : Template := read none s.toList

/-- A template as written. -/
def chars (t : Template) : List Char :=
  t.lead ++ t.tail.flatMap fun part => part.1.chars ++ part.2

/-! ## Filling -/

/-- Replaces the placeholders one after the other, from left to right; finding a replacement may
have effects or fail. -/
def fillM {m : Type → Type} [Monad m] (value : Placeholder → m String) (t : Template) :
    m String := do
  let parts ← t.tail.mapM fun part => do
    let text ← value part.1
    return text.toList ++ part.2
  return String.ofList (t.lead ++ parts.flatten)

/-- Replaces every placeholder by a given text. -/
def fill (value : Placeholder → String) (t : Template) : String :=
  Id.run (t.fillM fun p => pure (value p))

end Template

end GrammarDiagnostics
