import GrammarDiagnostics.Token.Kind

/-! # How tokens are shown

* `Kind.spelling?`: the fixed text of a keyword or of punctuation; `Kind.ofSpelling?` finds the
  kind of a fixed text.
* `Kind.display`: the text of a kind, its fixed text, perhaps between apostrophes, or its name
  between guillemets.
* `Token`: a kind, or a text that is shown as it is; `Token.display`.
-/

set_option autoImplicit false

namespace GrammarDiagnostics

namespace Kind

/-- The fixed text of a kind, when it has one. -/
def spelling? : Kind → Option String
  | .butKeyword => some "but"
  | .defineKeyword => some "define"
  | .defaultKeyword => some "default"
  | .emptyKeyword => some "empty"
  | .falseKeyword => some "false"
  | .goalKeyword => some "goal"
  | .hereKeyword => some "here"
  | .importKeyword => some "import"
  | .lexicalKeyword => some "lexical"
  | .lineKeyword => some "line"
  | .lookaheadKeyword => some "lookahead"
  | .noKeyword => some "no"
  | .notKeyword => some "not"
  | .ofKeyword => some "of"
  | .oneKeyword => some "one"
  | .orKeyword => some "or"
  | .throughKeyword => some "through"
  | .trueKeyword => some "true"
  | .atSign => some "@"
  | .colon => some ":"
  | .colonColon => some "::"
  | .colonColonColon => some ":::"
  | .comma => some ","
  | .equals => some "="
  | .equalsEquals => some "=="
  | .exclamationEquals => some "!="
  | .notEqualTo => some "≠"
  | .elementOf => some "∈"
  | .notAnElementOf => some "∉"
  | .lessThanExclamation => some "<!"
  | .lessThanMinus => some "<-"
  | .greaterThan => some ">"
  | .question => some "?"
  | .openBrace => some "\x7b"
  | .closeBrace => some "\x7d"
  | .openBracket => some "["
  | .closeBracket => some "]"
  | .openBracketGreaterThan => some "[>"
  | .openParen => some "("
  | .closeParen => some ")"
  | _ => none

/-- The kind with a given fixed text. -/
def ofSpelling? (s : String) : Option Kind := all.find? fun k => k.spelling? = some s

/-- The text that shows a kind. A fixed text goes between apostrophes when `inQuotes` is set; a
kind without one is shown by its name and never between apostrophes. -/
def display (inQuotes : Bool) (k : Kind) : String :=
  match k.spelling? with
  | none => "«" ++ k.name ++ "»"
  | some text => if inQuotes then "'" ++ text ++ "'" else text

end Kind

/-- A token as it occurs in a list of tokens: a kind, or a text that is shown as it is. -/
inductive Token where
  | kind (k : Kind)
  | text (s : String)
  deriving DecidableEq, Repr

/-- The text that shows a token. -/
def Token.display (inQuotes : Bool) : Token → String
  | .kind k => k.display inQuotes
  | .text s => s

end GrammarDiagnostics
