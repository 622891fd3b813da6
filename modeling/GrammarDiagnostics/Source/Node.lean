import GrammarDiagnostics.Text.Literal
import GrammarDiagnostics.Token.Kind

/-! # Nodes of a grammar -/

set_option autoImplicit false

namespace GrammarDiagnostics

/-- A node of a grammar: its kind and the offsets where it starts and stops. -/
structure Node where
  kind : Kind
  start : Int
  stop : Int
  deriving DecidableEq, Repr

/-- The written form of a node. -/
def Node.literal (n : Node) : String :=
  Literal.record "Node"
    [("kind", n.kind.literal), ("start", decimal n.start), ("end", decimal n.stop)]

end GrammarDiagnostics
