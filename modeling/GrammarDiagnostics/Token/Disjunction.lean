import GrammarDiagnostics.Diagnostic.Catalog
import GrammarDiagnostics.Message.Template
import GrammarDiagnostics.Token.Display

/-! # Lists of tokens in words

* `disjunction render tokens`: the tokens as alternatives: one alone, two with the word between
  them, three and more with commas and the word before the last.
-/

set_option autoImplicit false

namespace GrammarDiagnostics

/-- Two texts as alternatives, by the template of the catalog. -/
def alternatives (first second : String) : String :=
  (Template.ofString Catalog.alternatives.message).fill fun p => [first, second].getD p.index ""

/-- Texts as alternatives. From three texts on, all but the last stand together in front, each with
a comma behind it. -/
def alternation : List String → String
  | [] => ""
  | [x] => x
  | [x, y] => alternatives x y
  | x :: y :: z :: rest =>
    let texts := x :: y :: z :: rest
    alternatives (String.intercalate " " (texts.dropLast.map (· ++ ",")))
      (texts.getLast (List.cons_ne_nil _ _))

/-- Tokens as alternatives, each shown by `render`. -/
def disjunction (render : Token → String) (tokens : List Token) : String :=
  alternation (tokens.map render)

end GrammarDiagnostics
