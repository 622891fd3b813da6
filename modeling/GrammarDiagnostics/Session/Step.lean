import GrammarDiagnostics.Session.Enumeration

/-! # Steps of a session

* `Query`: the questions that can be asked of a session.
* `Step`: a question, an addition, a change to a file, or an enumeration that does further steps in
  between; which ones may depend on what is handed out.
* `Answer`: what a step answers.
* `Step.run`, `Step.runAll`: does one step, or one after the other up to the first fault.
* `Session.attempt`, `Session.perform`: the outcomes of series of steps, each with the records made
  meanwhile; a series that ends in a fault does not keep the next one from being done.
-/

set_option autoImplicit false

namespace GrammarDiagnostics

variable {φ : Type}

/-- A question to a session. -/
inductive Query (φ : Type) where
  | size
  | message (index : Int) (detailed : Bool)
  | diagnostic (index : Int)
  | arguments (index : Int)
  | node (index : Int)
  | pos (index : Int)
  | file (index : Int)
  | range (index : Int)
  | info (index : Int) (options : InfoOptions)
  | infoLiteral (index : Int) (options : InfoOptions)
  | infos (options : InfoOptions)
  | infosOf (file : Option φ) (options : InfoOptions)
  | hasErrors
  | collect (detailed : Bool)
  | dump
  | lineStarts (file : φ)

/-- A step of a session. -/
inductive Step (φ : Type) where
  | ask (q : Query φ)
  | register (file : Option φ)
  | report (pos : Option Int) (d : Diagnostic) (args : List (Argument φ))
  | reportNode (node : Option Node) (d : Diagnostic) (args : List (Argument φ))
  | setText (file : φ) (text : Option String)
  | rename (file : φ) (filename : String)
  | forEach (each : String → Nat → List (Step φ))
  | iterate (before : List (Step φ)) (each : Info φ → List (Step φ))

/-- What a step answers. -/
inductive Answer (φ : Type) where
  | done
  | size (n : Nat)
  | text (s : String)
  | texts (lines : List String)
  | diagnostic (d : Option Diagnostic)
  | arguments (args : Option (List (Argument φ)))
  | node (n : Option Node)
  | pos (p : Option Int)
  | file (f : Option φ)
  | range (r : Option Range)
  | info (i : Option (Info φ))
  | infos (is : List (Info φ))
  | flag (b : Bool)
  | lineStarts (starts : Option (List Nat))
  | messages (calls : List (String × Nat))

/-! ## One question -/

section Run

variable [DecidableEq φ]

/-- The answer to a question. That to the dump is what it has printed. -/
def Query.run : Query φ → Work φ (Answer φ)
  | .size => return .size (← Session.size)
  | .message index detailed => return .text (← Session.message index detailed)
  | .diagnostic index => return .diagnostic (← Session.diagnostic index)
  | .arguments index => return .arguments (← Session.arguments index)
  | .node index => return .node (← Session.node index)
  | .pos index => return .pos (← Session.pos index)
  | .file index => return .file (← Session.fileAt? index)
  | .range index => return .range (← Session.range? index)
  | .info index options => return .info (← Session.info? index options)
  | .infoLiteral index options => do
    let info ← Session.info? index options
    let files := (← get).files
    return .text (Literal.ofOption (Info.literal files) info)
  | .infos options => return .infos (← Session.infos options)
  | .infosOf f options => return .infos (← Session.infosOf f options)
  | .hasErrors => return .flag (← Session.hasErrors)
  | .collect detailed => return .texts (← Session.collect detailed)
  | .dump => do
    let earlier := (← get).printed.size
    Session.dump
    return .text (String.join ((← get).printed.toList.drop earlier))
  | .lineStarts f => return .lineStarts ((← Session.table f).map (·.starts.toList))

/-! ## Steps -/

mutual

/-- Does a step. -/
def Step.run : Step φ → Work φ (Answer φ)
  | .ask q => q.run
  | .register file => do
    Session.register file
    return .done
  | .report pos d args => do
    Session.report (.atOffset pos d args)
    return .done
  | .reportNode node d args => do
    Session.report (.atNode node d args)
    return .done
  | .setText file text => do
    Session.setText file text
    return .done
  | .rename file filename => do
    Session.rename file filename
    return .done
  | .forEach each => do
    let calls ← Session.forEach fun text index => do
      let _ ← Step.runAll (each text index)
      return (text, index)
    return .messages calls
  | .iterate before each => do
    let infos ← Session.iterate
      (do let _ ← Step.runAll before)
      (fun info => do let _ ← Step.runAll (each info))
    return .infos infos

/-- Does one step after the other, up to the first fault. -/
def Step.runAll : List (Step φ) → Work φ (List (Answer φ))
  | [] => return []
  | step :: steps => do
    let answer ← Step.run step
    return answer :: (← Step.runAll steps)

end

/-! ## Series of steps -/

/-- The outcome of a series of steps. -/
abbrev Outcome (φ : Type) := Except Fault (List (Answer φ))

namespace Session

/-- Does a series of steps: its outcome, and the session afterwards. -/
def attempt (steps : List (Step φ)) (s : Session φ) : Outcome φ × Session φ :=
  match Step.runAll steps s with
  | .ok answers s' => (.ok answers, s')
  | .error fault s' => (.error fault, s')

/-- The records that were made between two moments of a session. -/
def recordsSince (earlier later : Session φ) : List Record :=
  later.journal.toList.drop earlier.journal.size

/-- Does one series of steps after the other: the outcomes, each with the records made meanwhile,
and the session afterwards. -/
def perform : List (List (Step φ)) → Session φ → List (Outcome φ × List Record) × Session φ
  | [], s => ([], s)
  | steps :: rest, s =>
    let (outcome, s') := attempt steps s
    let (outcomes, final) := perform rest s'
    ((outcome, recordsSince s s') :: outcomes, final)

end Session

end Run

end GrammarDiagnostics
