import GrammarDiagnostics.Fault

/-! # Token kinds

* `Kind`: the kinds of token of a grammar: sentinels, literals, keywords and punctuation.
* `Kind.all`: the kinds in the order of their codes.
* `Kind.code`, `Kind.name`: the number and the name of a kind; `Kind.ofCode` and `Kind.ofName?`
  find a kind again.
* `Kind.isKeyword`, `Kind.isPunctuation`: the two families of kinds with a fixed spelling, as
  ranges of codes.
* `Kind.literal`: the written form of a kind.
-/

set_option autoImplicit false

namespace GrammarDiagnostics

/-- A kind of token. -/
inductive Kind where
  | unknown
  | endOfFile
  | lineTerminator
  | indent
  | dedent
  | stringLiteral
  | terminal
  | unicodeCharacterLiteral
  | prose
  | identifier
  | butKeyword
  | defineKeyword
  | defaultKeyword
  | emptyKeyword
  | falseKeyword
  | goalKeyword
  | hereKeyword
  | importKeyword
  | lexicalKeyword
  | lineKeyword
  | lookaheadKeyword
  | noKeyword
  | notKeyword
  | ofKeyword
  | oneKeyword
  | orKeyword
  | throughKeyword
  | trueKeyword
  | atSign
  | colon
  | colonColon
  | colonColonColon
  | comma
  | equals
  | equalsEquals
  | exclamationEquals
  | notEqualTo
  | elementOf
  | notAnElementOf
  | lessThanExclamation
  | lessThanMinus
  | greaterThan
  | question
  | openBrace
  | closeBrace
  | openBracket
  | closeBracket
  | openBracketGreaterThan
  | openParen
  | closeParen
  deriving DecidableEq, Repr

namespace Kind

/-- The kinds in ascending order of their codes. -/
def all : List Kind :=
  [.unknown, .endOfFile, .lineTerminator, .indent, .dedent, .stringLiteral, .terminal,
   .unicodeCharacterLiteral, .prose, .identifier, .butKeyword, .defineKeyword, .defaultKeyword,
   .emptyKeyword, .falseKeyword, .goalKeyword, .hereKeyword, .importKeyword, .lexicalKeyword,
   .lineKeyword, .lookaheadKeyword, .noKeyword, .notKeyword, .ofKeyword, .oneKeyword, .orKeyword,
   .throughKeyword, .trueKeyword, .atSign, .colon, .colonColon, .colonColonColon, .comma, .equals,
   .equalsEquals, .exclamationEquals, .notEqualTo, .elementOf, .notAnElementOf,
   .lessThanExclamation, .lessThanMinus, .greaterThan, .question, .openBrace, .closeBrace,
   .openBracket, .closeBracket, .openBracketGreaterThan, .openParen, .closeParen]

/-- The number of a kind. -/
def code : Kind → Nat
  | .unknown => 0
  | .endOfFile => 1
  | .lineTerminator => 2
  | .indent => 3
  | .dedent => 4
  | .stringLiteral => 10
  | .terminal => 11
  | .unicodeCharacterLiteral => 12
  | .prose => 13
  | .identifier => 14
  | .butKeyword => 20
  | .defineKeyword => 21
  | .defaultKeyword => 22
  | .emptyKeyword => 23
  | .falseKeyword => 24
  | .goalKeyword => 25
  | .hereKeyword => 26
  | .importKeyword => 27
  | .lexicalKeyword => 28
  | .lineKeyword => 29
  | .lookaheadKeyword => 30
  | .noKeyword => 31
  | .notKeyword => 32
  | .ofKeyword => 33
  | .oneKeyword => 34
  | .orKeyword => 35
  | .throughKeyword => 36
  | .trueKeyword => 37
  | .atSign => 50
  | .colon => 51
  | .colonColon => 52
  | .colonColonColon => 53
  | .comma => 54
  | .equals => 55
  | .equalsEquals => 56
  | .exclamationEquals => 57
  | .notEqualTo => 58
  | .elementOf => 59
  | .notAnElementOf => 60
  | .lessThanExclamation => 61
  | .lessThanMinus => 62
  | .greaterThan => 63
  | .question => 64
  | .openBrace => 65
  | .closeBrace => 66
  | .openBracket => 67
  | .closeBracket => 68
  | .openBracketGreaterThan => 69
  | .openParen => 70
  | .closeParen => 71

/-- The name of a kind. -/
def name : Kind → String
  | .unknown => "UNKNOWN"
  | .endOfFile => "END_OF_FILE"
  | .lineTerminator => "LINE_TERMINATOR"
  | .indent => "INDENT"
  | .dedent => "DEDENT"
  | .stringLiteral => "STRING_LITERAL"
  | .terminal => "TERMINAL"
  | .unicodeCharacterLiteral => "UNICODE_CHARACTER_LITERAL"
  | .prose => "PROSE"
  | .identifier => "IDENTIFIER"
  | .butKeyword => "BUT_KEYWORD"
  | .defineKeyword => "DEFINE_KEYWORD"
  | .defaultKeyword => "DEFAULT_KEYWORD"
  | .emptyKeyword => "EMPTY_KEYWORD"
  | .falseKeyword => "FALSE_KEYWORD"
  | .goalKeyword => "GOAL_KEYWORD"
  | .hereKeyword => "HERE_KEYWORD"
  | .importKeyword => "IMPORT_KEYWORD"
  | .lexicalKeyword => "LEXICAL_KEYWORD"
  | .lineKeyword => "LINE_KEYWORD"
  | .lookaheadKeyword => "LOOKAHEAD_KEYWORD"
  | .noKeyword => "NO_KEYWORD"
  | .notKeyword => "NOT_KEYWORD"
  | .ofKeyword => "OF_KEYWORD"
  | .oneKeyword => "ONE_KEYWORD"
  | .orKeyword => "OR_KEYWORD"
  | .throughKeyword => "THROUGH_KEYWORD"
  | .trueKeyword => "TRUE_KEYWORD"
  | .atSign => "AT"
  | .colon => "COLON"
  | .colonColon => "COLON_COLON"
  | .colonColonColon => "COLON_COLON_COLON"
  | .comma => "COMMA"
  | .equals => "EQUALS"
  | .equalsEquals => "EQUALS_EQUALS"
  | .exclamationEquals => "EXCLAMATION_EQUALS"
  | .notEqualTo => "NOT_EQUAL_TO"
  | .elementOf => "ELEMENT_OF"
  | .notAnElementOf => "NOT_AN_ELEMENT_OF"
  | .lessThanExclamation => "LESS_THAN_EXCLAMATION"
  | .lessThanMinus => "LESS_THAN_MINUS"
  | .greaterThan => "GREATER_THAN"
  | .question => "QUESTION"
  | .openBrace => "OPEN_BRACE"
  | .closeBrace => "CLOSE_BRACE"
  | .openBracket => "OPEN_BRACKET"
  | .closeBracket => "CLOSE_BRACKET"
  | .openBracketGreaterThan => "OPEN_BRACKET_GREATER_THAN"
  | .openParen => "OPEN_PAREN"
  | .closeParen => "CLOSE_PAREN"

/-- A number that belongs to no kind. -/
structure UnknownCode where
  code : Int
  deriving DecidableEq, Repr

/-- What is said of a number that belongs to no kind. -/
def UnknownCode.message (u : UnknownCode) : Except Fault String :=
  return (← writeNumber u.code) ++ " is not a valid SyntaxKind"

/-- The kind with a given number. -/
def ofCode (n : Int) : Except UnknownCode Kind :=
  match all.find? fun k => k.code = n with
  | some k => .ok k
  | none => .error ⟨n⟩

/-- The kind with a given name. -/
def ofName? (s : String) : Option Kind := all.find? fun k => k.name = s

/-- Keywords have the codes from that of `but` to that of `true`. -/
def isKeyword (k : Kind) : Bool := butKeyword.code ≤ k.code && k.code ≤ trueKeyword.code

/-- Punctuation has the codes from that of the at sign to that of the closing parenthesis. -/
def isPunctuation (k : Kind) : Bool := atSign.code ≤ k.code && k.code ≤ closeParen.code

/-- The written form of a kind: its name and its number. -/
def literal (k : Kind) : String := "<SyntaxKind." ++ k.name ++ ": " ++ decimal k.code ++ ">"

theorem ofName?_name (k : Kind) : ofName? k.name = some k := by
  cases k <;> decide

end Kind

end GrammarDiagnostics
