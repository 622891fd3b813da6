import GrammarDiagnostics.Message.Argument

/-! # Snapshots of reported diagnostics -/

set_option autoImplicit false

namespace GrammarDiagnostics

/-- What is known of one entry at the moment of asking. The file is a reference, and so are files
among the arguments: the written form of a snapshot shows them as they are by then. -/
structure Info (φ : Type) where
  index : Int
  code : Int
  message : String
  arguments : Option (List (Argument φ))
  warning : Bool
  range : Option Range
  file : Option φ
  node : Option Node
  pos : Option Int
  formatted : Option String

/-- The written form of a snapshot, given what the files are. -/
def Info.literal {φ : Type} (files : φ → SourceFile) (info : Info φ) : String :=
  Literal.record "DiagnosticInfo"
    [("diagnostic_index", decimal info.index),
     ("code", decimal info.code),
     ("message", quoted info.message),
     ("message_arguments", Literal.ofOption (fun args => (Argument.tuple args).literal files)
       info.arguments),
     ("warning", Literal.ofBool info.warning),
     ("range", Literal.ofOption Range.literal info.range),
     ("source_file", Literal.ofOption (fun f => (files f).literal) info.file),
     ("node", Literal.ofOption Node.literal info.node),
     ("pos", Literal.ofOption decimal info.pos),
     ("formatted_message", Literal.ofOption quoted info.formatted)]

end GrammarDiagnostics
