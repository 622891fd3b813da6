import GrammarDiagnostics.Text.Numeral
import GrammarDiagnostics.Text.Printable

/-! # Quoted text

* `quoteMark s`: the mark that encloses `s`: an apostrophe, or a quotation mark when `s` holds an
  apostrophe and no quotation mark.
* `escape mark c`: how the character `c` is written between two marks.
* `quoted s`: the text between its marks, every character written by `escape`.
-/

set_option autoImplicit false

namespace GrammarDiagnostics

/-- The mark that encloses a text: the one that need not be escaped in it, the apostrophe first. -/
def quoteMark (s : List Char) : Char :=
  if '\'' ∈ s ∧ '"' ∉ s then '"' else '\''

/-- A character by its code point: two hexadecimal digits below U+0100, four below U+10000, else
eight. -/
def escapeCode (c : Char) : List Char :=
  let code := c.toNat
  if code < 0x100 then
    '\\' :: 'x' :: padded 16 2 code
  else if code < 0x10000 then
    '\\' :: 'u' :: padded 16 4 code
  else
    '\\' :: 'U' :: padded 16 8 code

/-- A character between two marks: the mark in use and the backslash follow a backslash, the three
common control characters have letters, and unprintable characters are written by their codes. -/
def escape (mark c : Char) : List Char :=
  if c = mark ∨ c = '\\' then
    ['\\', c]
  else if c = '\n' then
    ['\\', 'n']
  else if c = '\r' then
    ['\\', 'r']
  else if c = '\t' then
    ['\\', 't']
  else if isPrintable c then
    [c]
  else
    escapeCode c

/-- The text between its marks. -/
def quoted (s : String) : String :=
  let chars := s.toList
  let mark := quoteMark chars
  String.ofList (mark :: chars.flatMap (escape mark) ++ [mark])

end GrammarDiagnostics
