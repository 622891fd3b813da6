import GrammarDiagnostics.Text.Numeral
import GrammarDiagnostics.Text.Quoted

/-! # Written forms of plain values

* `Literal.none`, `Literal.ofBool`, `Literal.ofOption`: absent values and truth values.
* `Literal.list`, `Literal.tuple`: sequences in brackets and in parentheses; a sequence of one
  item in parentheses keeps a comma.
* `Literal.record`: a name with its fields.
-/

set_option autoImplicit false

namespace GrammarDiagnostics.Literal

def none : String := "None"

def ofBool : Bool → String
  | true => "True"
  | false => "False"

def ofOption {α : Type} (literal : α → String) : Option α → String
  | .none => none
  | .some a => literal a

/-- Items side by side, a comma and a space between two of them. -/
def commaSeparated (items : List String) : String :=
  String.intercalate ", " items

/-- Items in brackets. -/
def list (items : List String) : String :=
  "[" ++ commaSeparated items ++ "]"

/-- Items in parentheses; a comma after a single item tells it from a plain parenthesis. -/
def tuple : List String → String
  | [item] => "(" ++ item ++ ",)"
  | items => "(" ++ commaSeparated items ++ ")"

/-- A name followed by its fields, each with its own name, in parentheses. -/
def record (name : String) (fields : List (String × String)) : String :=
  name ++ "(" ++ commaSeparated (fields.map fun field => field.1 ++ "=" ++ field.2) ++ ")"

end GrammarDiagnostics.Literal
