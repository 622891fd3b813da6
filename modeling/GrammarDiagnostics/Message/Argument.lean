import GrammarDiagnostics.Diagnostic.InfoOptions
import GrammarDiagnostics.Source.Node
import GrammarDiagnostics.Source.SourceFile

/-! # Arguments of messages

* `Argument`: a value that can be put into a message: plain values, sequences of arguments, the
  things that a grammar compiler handles, and any other object. A file is given by reference, so
  that it shows as it is by the time the message is rendered.
* `Argument.literal`: the written form of an argument, as it is shown inside a sequence, given what
  the files are.
* `Argument.text`: the text that takes the place of a placeholder: a string stands for itself, a
  kind for its number and any other object for its text; everything else is shown by its written
  form.
* `Argument.unwrap`: one sequence given as the only argument counts as its items.
-/

set_option autoImplicit false

namespace GrammarDiagnostics

variable {φ : Type}

/-- An object of which it is only known how it shows: the name of its class, its text and its
written form. -/
structure Foreign where
  className : String
  text : String
  literal : String
  deriving DecidableEq, Repr

/-- A value that can be put into a message. Files are named by references of the type `φ`. -/
inductive Argument (φ : Type) where
  | none
  | bool (b : Bool)
  | int (n : Int)
  | string (s : String)
  | list (items : List (Argument φ))
  | tuple (items : List (Argument φ))
  | kind (k : Kind)
  | position (p : Position)
  | range (r : Range)
  | node (n : Node)
  | diagnostic (d : Diagnostic)
  | lineMap (m : LineMap)
  | sourceFile (f : φ)
  | options (o : InfoOptions)
  | other (o : Foreign)

namespace Argument

/-! ## Text -/

mutual

/-- The written form of an argument. -/
def literal (files : φ → SourceFile) : Argument φ → String
  | .none => Literal.none
  | .bool b => Literal.ofBool b
  | .int n => decimal n
  | .string s => quoted s
  | .list items => Literal.list (literals files items)
  | .tuple items => Literal.tuple (literals files items)
  | .kind k => k.literal
  | .position p => p.literal
  | .range r => r.literal
  | .node n => n.literal
  | .diagnostic d => d.literal
  | .lineMap m => m.literal
  | .sourceFile f => (files f).literal
  | .options o => o.literal
  | .other o => o.literal

/-- The written forms of a sequence of arguments. -/
def literals (files : φ → SourceFile) : List (Argument φ) → List String
  | [] => []
  | item :: items => item.literal files :: literals files items

end

/-- The text that takes the place of a placeholder. -/
def text (files : φ → SourceFile) : Argument φ → String
  | .string s => s
  | .kind k => decimal k.code
  | .other o => o.text
  | a => a.literal files

/-! ## A sequence as the only argument -/

/-- The arguments meant by those given: the items of a sequence that is the only argument, else the
arguments themselves. -/
def unwrap : List (Argument φ) → List (Argument φ)
  | [.list items] => items
  | [.tuple items] => items
  | args => args

@[simp] theorem unwrap_tuple (items : List (Argument φ)) : unwrap [.tuple items] = items := rfl

end Argument

end GrammarDiagnostics
