import GrammarDiagnostics.Session.Discarding
import GrammarDiagnostics.Session.Recording

/-! # What both sinks do

Additions and questions to a session, whichever sink it has. Each is done by the log that records or
by the sink that discards, in its own way.

* `Session.register`, `Session.report`: additions.
* `Session.size`, `Session.diagnostic`, `Session.arguments`, `Session.node`, `Session.pos`,
  `Session.fileAt?`: what is held.
* `Session.message`, `Session.range?`, `Session.info?`: what an entry is rendered to.
* `Session.infos`, `Session.infosOf`: snapshots of all entries, or of those of one file.
-/

set_option autoImplicit false

namespace GrammarDiagnostics.Session

variable {φ : Type}

/-! ## Additions -/

/-- Registers a file for the entries to come. -/
def register (file : Option φ) : Work φ Unit :=
  dispatch (Recording.register · file) (Discarding.register file)

def report (e : Entry φ) : Work φ Unit :=
  dispatch (Recording.report · e) (Discarding.report e)

/-! ## What is held -/

def size : Work φ Nat :=
  dispatch (fun log => return log.size) Discarding.size

def diagnostic (index : Int) : Work φ (Option Diagnostic) :=
  dispatch (fun log => return (log.entryAt? index).map Entry.diagnostic)
    (Discarding.diagnostic index)

/-- The arguments of an entry, when there are any. -/
def arguments (index : Int) : Work φ (Option (List (Argument φ))) :=
  dispatch (fun log => return (log.entryAt? index).bind Entry.arguments?)
    (Discarding.arguments index)

def node (index : Int) : Work φ (Option Node) :=
  dispatch (fun log => return (log.entryAt? index).bind Entry.node) (Discarding.node index)

def pos (index : Int) : Work φ (Option Int) :=
  dispatch (fun log => return (log.entryAt? index).bind Entry.pos) (Discarding.pos index)

def fileAt? (index : Int) : Work φ (Option φ) :=
  dispatch (fun log => return log.fileAt? index) (Discarding.fileAt? index)

/-! ## What is rendered -/

section Rendering

variable [DecidableEq φ]

/-- The message of an entry; there is none outside the log. -/
def message (index : Int) (detailed : Bool) : Work φ String :=
  dispatch (Recording.message · index detailed) (Discarding.message index detailed)

def range? (index : Int) : Work φ (Option Range) :=
  dispatch (Recording.range? · index) (Discarding.range? index)

def info? (index : Int) (options : InfoOptions) : Work φ (Option (Info φ)) :=
  dispatch (Recording.info? · index options) (Discarding.info? index options)

def infos (options : InfoOptions) : Work φ (List (Info φ)) :=
  dispatch (Recording.infos · options) (Discarding.infos options)

/-- Snapshots of the entries of one file, or of those that belong to no file. -/
def infosOf (file : Option φ) (options : InfoOptions) : Work φ (List (Info φ)) :=
  dispatch (Recording.infosOf · file options) (Discarding.infosOf file options)

end Rendering

end GrammarDiagnostics.Session
