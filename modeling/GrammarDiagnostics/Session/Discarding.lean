import GrammarDiagnostics.Log.Info
import GrammarDiagnostics.Session.Basic

/-! # The sink that discards

What a session does on the sink that discards: it takes what it is given and does nothing with it,
and it has the same answer to every question, whatever has been reported.

* `Session.Discarding.register`, `Session.Discarding.report`: additions.
* `Session.Discarding.size`, `Session.Discarding.diagnostic` and so on: what it answers.
* `Session.Discarding.forEach`, `Session.Discarding.iterate`: enumerations, which call nobody.
-/

set_option autoImplicit false

namespace GrammarDiagnostics.Session.Discarding

variable {φ α : Type}

/-! ## Additions -/

/-- A registration, of no file too. -/
def register (_file : Option φ) : Work φ Unit := return ()

def report (_e : Entry φ) : Work φ Unit := return ()

/-! ## Questions -/

def size : Work φ Nat := return 0

def message (_index : Int) (_detailed : Bool) : Work φ String := return ""

def diagnostic (_index : Int) : Work φ (Option Diagnostic) := return none

def arguments (_index : Int) : Work φ (Option (List (Argument φ))) := return none

def node (_index : Int) : Work φ (Option Node) := return none

def pos (_index : Int) : Work φ (Option Int) := return none

def fileAt? (_index : Int) : Work φ (Option φ) := return none

def range? (_index : Int) : Work φ (Option Range) := return none

def info? (_index : Int) (_options : InfoOptions) : Work φ (Option (Info φ)) := return none

def infos (_options : InfoOptions) : Work φ (List (Info φ)) := return []

def infosOf (_file : Option φ) (_options : InfoOptions) : Work φ (List (Info φ)) := return []

def forEach (_callback : String → Nat → Work φ α) : Work φ (List α) := return []

/-- The items of an iteration, and what is done after each one. -/
def iterate (_each : Info φ → Work φ Unit) : Work φ (List (Info φ)) := return []

end GrammarDiagnostics.Session.Discarding
