import GrammarDiagnostics.Proofs.Session.Accessors
import GrammarDiagnostics.Proofs.Session.Effects

/-! # The entries of a run

Nothing but reports adds entries to a log, so that what holds of every reported entry holds of every
entry of every run.

* `Entry.Anchored`: a node of an entry starts at the offset of the entry.
* `Session.Records`: the session has a log of such entries; `Session.Records.after`: moves keep
  this; `Session.records_afterRun`: so it is after every run that begins with nothing in the log.
* `Session.Records.entry`: the entry of an index, and what the accessors answer for it.
* `Step.AllAsk`, `Session.view_afterAsking`: questions change nothing that shows.
-/

set_option autoImplicit false

namespace GrammarDiagnostics

open Session

variable {φ : Type}

/-! ## Reported entries -/

def Entry.Anchored (e : Entry φ) : Prop := ∀ n, e.node = some n → e.pos = some n.start

theorem Entry.anchored_atOffset (pos : Option Int) (d : Diagnostic) (args : List (Argument φ)) :
    (atOffset pos d args).Anchored := by
  intro n hn
  exact nomatch hn

theorem Entry.anchored_atNode (node : Option Node) (d : Diagnostic) (args : List (Argument φ)) :
    (atNode node d args).Anchored := by
  intro n hn
  change node = some n at hn
  change node.map Node.start = some n.start
  rw [hn, Option.map_some]

theorem Step.anchored_of_move? {step : Step φ} {e : Entry φ} (h : step.move? = some (.report e)) :
    e.Anchored := by
  cases step with
  | report pos d args =>
    cases h
    exact Entry.anchored_atOffset pos d args
  | reportNode node d args =>
    cases h
    exact Entry.anchored_atNode node d args
  | ask q => exact nomatch h
  | register file => exact nomatch h
  | setText f text => exact nomatch h
  | rename f filename => exact nomatch h
  | forEach each => exact nomatch h
  | iterate before each => exact nomatch h

theorem Made.anchored {parts : Set (Step φ)} {s : Session φ} {e : Entry φ}
    (h : Made parts s (.report e)) : e.Anchored := by
  cases h with
  | reading h => exact nomatch h
  | changing _ h => exact Step.anchored_of_move? h

/-! ## Logs of reported entries -/

theorem Log.forall_append {P : Entry φ → Prop} {log : Log φ} (h : ∀ e ∈ log.entries, P e)
    {e : Entry φ} (he : P e) : ∀ e' ∈ (log.append e).entries, P e' := by
  intro e' he'
  rcases Array.mem_push.1 he' with hold | rfl
  · exact h e' hold
  · exact he

theorem Log.mem_of_entryAt? {log : Log φ} {index : Int} {e : Entry φ}
    (he : log.entryAt? index = some e) : e ∈ log.entries := by
  unfold Log.entryAt? at he
  split at he
  · exact Array.mem_of_getElem? he
  · exact nomatch he

def Log.Anchored (log : Log φ) : Prop := ∀ e ∈ log.entries, e.Anchored

theorem Log.anchored_empty : (empty : Log φ).Anchored :=
  fun e he => absurd he (Array.not_mem_empty e)

theorem Log.Anchored.append {log : Log φ} (h : log.Anchored) {e : Entry φ} (he : e.Anchored) :
    (log.append e).Anchored := Log.forall_append h he

theorem Log.Anchored.register {log : Log φ} (h : log.Anchored) (file : Option φ) :
    (log.register file).Anchored := h

theorem Log.Anchored.entryAt? {log : Log φ} (h : log.Anchored) {index : Int} {e : Entry φ}
    (he : log.entryAt? index = some e) : e.Anchored := h e (Log.mem_of_entryAt? he)

/-- The session has a log, with entries as they are reported. -/
def Session.Records (s : Session φ) : Prop := ∃ log, s.sink = .recording log ∧ log.Anchored

section Moves

variable [DecidableEq φ]

theorem Move.sink_register {s : Session φ} {log : Log φ} (h : s.sink = .recording log)
    (file : Option φ) : ((Move.register file).after s).sink = .recording (log.register file) := by
  obtain ⟨files, sink, journal, printed⟩ := s
  obtain rfl : sink = .recording log := h
  cases file <;> rfl

theorem Move.sink_report {s : Session φ} {log : Log φ} (h : s.sink = .recording log) (e : Entry φ) :
    ((Move.report e).after s).sink = .recording (log.append e) := by
  obtain ⟨files, sink, journal, printed⟩ := s
  obtain rfl : sink = .recording log := h
  rfl

theorem Session.Records.after {parts : Set (Step φ)} {s : Session φ} {m : Move φ}
    (h : s.Records) (hm : Made parts s m) : (m.after s).Records := by
  obtain ⟨log, hlog, hanchored⟩ := h
  cases m with
  | read f => exact ⟨log, (Move.sink_read f s).trans hlog, hanchored⟩
  | note records => exact ⟨log, hlog, hanchored⟩
  | print line => exact ⟨log, hlog, hanchored⟩
  | register file => exact ⟨_, Move.sink_register hlog file, hanchored.register file⟩
  | report e => exact ⟨_, Move.sink_report hlog e, hanchored.append hm.anchored⟩
  | setText f text => exact ⟨log, hlog, hanchored⟩
  | rename f filename => exact ⟨log, hlog, hanchored⟩

theorem Session.Records.afterRun {s : Session φ} (h : s.Records) (run : List (Step φ)) :
    (Session.afterRun run s).Records := by
  obtain ⟨moves, hcourse⟩ := exists_course run s
  have hkeeps := hcourse.reaches.keeps (R := fun s t => s.Records → t.Records) (fun _ h => h)
    (fun hst htu h => htu (hst h)) fun s m hm h => h.after hm
  exact hkeeps h

theorem Session.records_afterRun (files : φ → SourceFile) (run : List (Step φ)) :
    (Session.afterRun run (recording files)).Records := by
  have h : (recording files).Records := ⟨.empty, rfl, Log.anchored_empty⟩
  exact h.afterRun run

/-- Under every index below the number of entries there is an entry, and the accessors answer with
what it holds. -/
theorem Session.Records.entry {s : Session φ} (h : s.Records) {index : Nat}
    (hindex : index < s.sink.size) :
    ∃ e : Entry φ, s.sink.entryAt? index = some e ∧ e.Anchored ∧
      s.Answers index (some e.reported) (s.sink.fileAt? index) := by
  obtain ⟨log, hlog, hanchored⟩ := h
  have hanswers := answers_of_recording hlog index
  rw [hlog] at hindex ⊢
  obtain ⟨e, he⟩ := log.exists_entryAt? hindex
  rw [he, Option.map_some] at hanswers
  exact ⟨e, he, hanchored.entryAt? he, hanswers⟩

/-! ## Asking -/

theorem Made.view_after {parts : Set (Step φ)} (h : ∀ part ∈ parts, part.move? = none)
    {s : Session φ} {m : Move φ} (hm : Made parts s m) : (m.after s).view = s.view := by
  cases hm with
  | reading hm =>
    cases hm with
    | read _ => exact ((yields_table _).read s).view_eq
    | note _ => rfl
  | printing _ => rfl
  | changing hpart hmove =>
    rw [h _ hpart] at hmove
    exact nomatch hmove

/-- Steps that only ask, in their callbacks too. -/
def Step.AllAsk (steps : List (Step φ)) : Prop := ∀ part ∈ Step.partsAll steps, part.move? = none

theorem Session.view_afterAsking {asked : List (Step φ)} (h : Step.AllAsk asked) (s : Session φ) :
    (Session.afterRun asked s).view = s.view := by
  obtain ⟨moves, hcourse⟩ := exists_course asked s
  exact hcourse.reaches.keeps (R := fun s t => t.view = s.view) (fun _ => rfl)
    (fun hst htu => htu.trans hst) fun s m hm => hm.view_after h

end Moves

end GrammarDiagnostics
