import GrammarDiagnostics.Proofs.Log.Attribution
import GrammarDiagnostics.Session.Step
import Mathlib.Data.List.Induction

/-! # Runs of additions

A session whose steps are registrations and reports only.

* `Addition`: a registration or a report; `Addition.step` is the step that makes it,
  `Addition.outcome` what that step answers.
* `Addition.attempt_step`: an addition changes the log and the journal, and nothing else; a
  registration of no file takes effect and is a fault all the same.
* `Session.afterAdditions`: the session after a run of additions, each a series of its own;
  `Session.perform_additions` is what one knows of it.
* `Log.ofAdditions`, `Ledger.ofAdditions`: the log and the ledger after a run;
  `Log.ledger_ofAdditions`: the log stands for the ledger.
-/

set_option autoImplicit false

namespace GrammarDiagnostics

variable {φ : Type}

/-- An addition to a log: a registration or a report. -/
inductive Addition (φ : Type) where
  | register (file : Option φ)
  | report (pos : Option Int) (d : Diagnostic) (args : List (Argument φ))
  | reportNode (node : Option Node) (d : Diagnostic) (args : List (Argument φ))

namespace Addition

/-- The step that makes an addition. -/
def step : Addition φ → Step φ
  | register file => .register file
  | report pos d args => .report pos d args
  | reportNode node d args => .reportNode node d args

def outcome : Addition φ → Outcome φ
  | register none => .error .noFileToRegister
  | _ => .ok [.done]

/-- The entry that an addition makes, when it is a report. -/
def entered? : Addition φ → Option (Entry φ)
  | register _ => none
  | report pos d args => some (.atOffset pos d args)
  | reportNode node d args => some (.atNode node d args)

/-- The log after an addition. -/
def applyTo : Addition φ → Log φ → Log φ
  | register file, log => log.register file
  | report pos d args, log => log.append (.atOffset pos d args)
  | reportNode node d args, log => log.append (.atNode node d args)

/-- What an addition notes in the journal. -/
def records (files : φ → SourceFile) (log : Log φ) : Addition φ → List Record
  | register none => []
  | register (some f) => [.fileRegistered log.size (files f).filename]
  | report pos d _ => [.reported d.code pos log.size]
  | reportNode node d _ => [.reported d.code (node.map Node.start) log.size]

theorem register_or_entered (x : Addition φ) :
    (∃ file, x = .register file) ∨ ∃ e, x.entered? = some e := by
  cases x with
  | register file => exact .inl ⟨file, rfl⟩
  | report pos d args => exact .inr ⟨_, rfl⟩
  | reportNode node d args => exact .inr ⟨_, rfl⟩

end Addition

/-! ## The log and its ledger after a run -/

def Ledger.add (ledger : Ledger φ) : Addition φ → Ledger φ
  | .register file => ledger.register file
  | .report pos d args => ledger.append (.atOffset pos d args)
  | .reportNode node d args => ledger.append (.atNode node d args)

theorem Ledger.add_of_entered {x : Addition φ} {e : Entry φ} (ledger : Ledger φ)
    (h : x.entered? = some e) : ledger.add x = ledger.append e := by
  cases x with
  | register file => simp [Addition.entered?] at h
  | report pos d args =>
    obtain rfl := Option.some.inj h
    rfl
  | reportNode node d args =>
    obtain rfl := Option.some.inj h
    rfl

def Log.ofAdditions (run : List (Addition φ)) : Log φ :=
  run.foldl (fun log x => x.applyTo log) .empty

def Ledger.ofAdditions (run : List (Addition φ)) : Ledger φ := run.foldl .add {}

theorem Addition.ledger_applyTo (x : Addition φ) (log : Log φ) :
    (x.applyTo log).ledger = log.ledger.add x := by
  cases x with
  | register file => exact log.ledger_register file
  | report pos d args => exact log.ledger_append _
  | reportNode node d args => exact log.ledger_append _

@[simp] theorem Ledger.ofAdditions_concat (run : List (Addition φ)) (x : Addition φ) :
    Ledger.ofAdditions (run ++ [x]) = (Ledger.ofAdditions run).add x := by
  unfold Ledger.ofAdditions
  rw [List.foldl_append]
  rfl

theorem Log.ledger_ofAdditions (run : List (Addition φ)) :
    (Log.ofAdditions run).ledger = Ledger.ofAdditions run := by
  induction run using List.reverseRecOn with
  | nil => exact Log.ledger_empty
  | append_singleton run x ih =>
    have hlog : Log.ofAdditions (run ++ [x]) = x.applyTo (Log.ofAdditions run) := by
      unfold Log.ofAdditions
      rw [List.foldl_append]
      rfl
    rw [hlog, Addition.ledger_applyTo, ih, Ledger.ofAdditions_concat]

/-! ## The session after a run -/

section Session

variable [DecidableEq φ]

/-- One addition: its outcome, and the session afterwards. -/
theorem Addition.attempt_step (x : Addition φ) {s : Session φ} {log : Log φ}
    (h : s.sink = .recording log) :
    Session.attempt [x.step] s = (x.outcome, { s with
      sink := .recording (x.applyTo log)
      journal := s.journal ++ x.records s.files log }) := by
  obtain ⟨files, sink, journal, printed⟩ := s
  obtain rfl : sink = .recording log := h
  cases x with
  | register file =>
    cases file with
    | none =>
      have hjournal : journal ++ ([] : List Record) = journal := Array.appendList_nil
      simp only [Addition.records, hjournal]
      rfl
    | some f => rfl
  | report pos d args => rfl
  | reportNode node d args => rfl

/-- The session after a run of additions to a log with nothing in it. Each addition is a series of
its own, so that the run goes on after one that is a fault. -/
def Session.afterAdditions (files : φ → SourceFile) (run : List (Addition φ)) : Session φ :=
  (Session.perform (run.map fun x => [x.step]) (.recording files)).2

theorem Session.perform_steps (run : List (Addition φ)) {s : Session φ} {log : Log φ}
    (h : s.sink = .recording log) :
    (Session.perform (run.map fun x => [x.step]) s).1.map Prod.fst = run.map Addition.outcome ∧
      (Session.perform (run.map fun x => [x.step]) s).2.sink
        = .recording (run.foldl (fun log x => x.applyTo log) log) ∧
      (Session.perform (run.map fun x => [x.step]) s).2.files = s.files := by
  induction run generalizing s log with
  | nil => exact ⟨rfl, h, rfl⟩
  | cons x run ih =>
    simp only [List.map_cons, Session.perform, x.attempt_step h, List.foldl_cons]
    obtain ⟨houtcomes, hsink, hfiles⟩ := ih (s := { s with
      sink := .recording (x.applyTo log)
      journal := s.journal ++ x.records s.files log }) rfl
    exact ⟨congrArg _ houtcomes, hsink, hfiles⟩

theorem Session.perform_additions (files : φ → SourceFile) (run : List (Addition φ)) :
    (Session.perform (run.map fun x => [x.step]) (.recording files)).1.map Prod.fst
      = run.map Addition.outcome :=
  (perform_steps run rfl).1

@[simp] theorem Session.sink_afterAdditions (files : φ → SourceFile) (run : List (Addition φ)) :
    (Session.afterAdditions files run).sink = .recording (Log.ofAdditions run) :=
  (perform_steps run rfl).2.1

@[simp] theorem Session.files_afterAdditions (files : φ → SourceFile) (run : List (Addition φ)) :
    (Session.afterAdditions files run).files = files :=
  (perform_steps run rfl).2.2

end Session

end GrammarDiagnostics
