import GrammarDiagnostics.Proofs.Session.Entries
import GrammarDiagnostics.Proofs.Session.Moments

/-! # The journal of a run

The journal keeps step with the log: at every moment of a run the reports that it tells of are the
entries that the log holds, in order, and every registration that it tells of begins with the number
of reports before it.

* `Record.isReport`, `Record.isRegistration`: the records that tell of reports and of registrations.
* `Move.records`, `Move.journal_after`: what a move notes.
* `Attributed`: every registration in a journal begins with the number of reports before it.
* `Session.Faithful`: the journal and the log tell the same; `Session.Faithful.after`: moves keep
  this; `Session.Reaches.faithful`: so do all the moves of a run.
* `Session.JournalTells`, `Session.NotesRegistrations`: what one knows of a moment;
  `journal_of_run`: one knows it of every moment of every run.
-/

set_option autoImplicit false

namespace GrammarDiagnostics

open Session

variable {φ : Type}

/-! ## Records -/

def Record.isReport : Record → Bool
  | .reported _ _ _ => true
  | _ => false

def Record.isRegistration : Record → Bool
  | .fileRegistered _ _ => true
  | _ => false

def Reported.record (index : Nat) (r : Reported φ) : Record :=
  .reported r.diagnostic.code r.pos index

theorem Record.IsMissing.isReport {r : Record} (h : r.IsMissing) : r.isReport = false := by
  cases r <;> first | rfl | exact h.elim

theorem Record.IsMissing.isRegistration {r : Record} (h : r.IsMissing) :
    r.isRegistration = false := by
  cases r <;> first | rfl | exact h.elim

theorem SourceFile.mem_records {f : SourceFile} {r : Record} (h : r ∈ f.records) :
    ∃ lines length, r = .lineStartsComputed lines length := by
  unfold records at h
  split at h
  case h_1 m _ =>
    cases m with
    | pending text => exact ⟨_, _, List.mem_singleton.1 h⟩
    | computed table => exact absurd h List.not_mem_nil
  case h_2 => exact absurd h List.not_mem_nil

/-- What the entries of a log report. -/
def Log.reports (log : Log φ) : List (Reported φ) := log.entries.toList.map Entry.reported

theorem Log.length_reports (log : Log φ) : log.reports.length = log.size := by
  unfold reports
  rw [List.length_map, Array.length_toList]
  rfl

theorem Log.reports_append (log : Log φ) (e : Entry φ) :
    (log.append e).reports = log.reports ++ [e.reported] := by
  change (log.entries.push e).toList.map Entry.reported = _
  rw [Array.toList_push, List.map_append]
  rfl

theorem Log.getElem?_reports (log : Log φ) (index : Nat) :
    log.reports[index]? = (log.entryAt? index).map Entry.reported := by
  unfold reports
  rw [List.getElem?_map, log.entryAt?_natCast]

/-! ## Journal and log -/

/-- Every registration in a journal begins with the number of reports before it. -/
def Attributed (records : List Record) : Prop :=
  ∀ before first filename after, records = before ++ .fileRegistered first filename :: after →
    first = (before.filter Record.isReport).length

theorem Attributed.append {records new : List Record} (h : Attributed records)
    (hnew : ∀ r ∈ new, r.isRegistration = false) : Attributed (records ++ new) := by
  intro before first filename after hsplit
  rcases List.append_eq_append_iff.1 hsplit with ⟨rest, rfl, hrest⟩ | ⟨rest, rfl, hrest⟩
  · have hmem : Record.fileRegistered first filename ∈ new := by
      rw [hrest]
      exact List.mem_append_right _ (.head _)
    exact nomatch hnew _ hmem
  · cases rest with
    | nil =>
      have hmem : Record.fileRegistered first filename ∈ new := by
        rw [← List.nil_append new, ← hrest]
        exact .head _
      exact nomatch hnew _ hmem
    | cons r rest =>
      obtain ⟨rfl, _⟩ := List.cons.inj hrest
      exact h before first filename rest rfl

theorem Attributed.concat {records : List Record} (h : Attributed records) {first : Nat}
    (hfirst : first = (records.filter Record.isReport).length) (filename : String) :
    Attributed (records ++ [.fileRegistered first filename]) := by
  intro before first' filename' after hsplit
  rcases List.eq_nil_or_concat after with rfl | ⟨after, last, rfl⟩
  · obtain ⟨rfl, hlast⟩ := List.append_inj' hsplit rfl
    cases hlast
    exact hfirst
  · have hconcat : records ++ [.fileRegistered first filename]
        = (before ++ .fileRegistered first' filename' :: after) ++ [last] := by
      rw [hsplit, List.concat_eq_append, List.append_assoc, List.cons_append]
    exact h before first' filename' after (List.append_inj' hconcat rfl).1

/-- The session has a log, and its journal tells of the reports in it, in order. -/
structure Session.Faithful (s : Session φ) (log : Log φ) : Prop where
  sink : s.sink = .recording log
  reports : s.journal.toList.filter Record.isReport = log.reports.mapIdx Reported.record
  attributed : Attributed s.journal.toList

namespace Session.Faithful

variable {s t : Session φ} {log : Log φ}

theorem length_reports (h : s.Faithful log) :
    (s.journal.toList.filter Record.isReport).length = log.size := by
  rw [h.reports, List.length_mapIdx, log.length_reports]

theorem aside (h : s.Faithful log) {log' : Log φ} (hsink : t.sink = .recording log')
    (hlog : log'.reports = log.reports) {new : List Record}
    (hjournal : t.journal.toList = s.journal.toList ++ new)
    (hnew : ∀ r ∈ new, r.isReport = false ∧ r.isRegistration = false) : t.Faithful log' where
  sink := hsink
  reports := by
    have hnone : new.filter Record.isReport = [] := by
      rw [List.filter_eq_nil_iff]
      intro r hr
      rw [(hnew r hr).1]
      exact Bool.false_ne_true
    rw [hjournal, List.filter_append, hnone, List.append_nil, h.reports, hlog]
  attributed := by
    rw [hjournal]
    exact h.attributed.append fun r hr => (hnew r hr).2

end Session.Faithful

theorem Session.faithful_recording (files : φ → SourceFile) :
    (recording files).Faithful .empty where
  sink := rfl
  reports := rfl
  attributed := fun before _ _ _ h => absurd h (by simp [recording])

/-! ## What moves note -/

theorem Made.isMissing {parts : Set (Step φ)} {s : Session φ} {records : List Record}
    (hm : Made parts s (.note records)) : ∀ r ∈ records, r.IsMissing := by
  cases hm with
  | reading h => cases h with | note h => exact h
  | @changing _ part _ h => cases part <;> exact nomatch h

def Move.IsAddition : Move φ → Prop
  | .register _ | .report _ => True
  | _ => False

/-- The records that a move adds to the journal. -/
def Move.records (s : Session φ) : Move φ → List Record
  | .read f => (s.files f).records
  | .note records => records
  | .register file =>
    match s.sink, file with
    | .recording log, some f => [.fileRegistered log.size (s.files f).filename]
    | _, _ => []
  | .report e =>
    match s.sink with
    | .recording log => [e.reported.record log.size]
    | .discarding => []
  | .print _ | .setText _ _ | .rename _ _ => []

/-- Nothing but an addition notes a report or a registration. -/
theorem Made.records_aside {parts : Set (Step φ)} {s : Session φ} {m : Move φ}
    (hm : Made parts s m) (h : ¬ m.IsAddition) :
    ∀ r ∈ m.records s, r.isReport = false ∧ r.isRegistration = false := by
  intro r hr
  cases m with
  | read f =>
    obtain ⟨lines, length, rfl⟩ := SourceFile.mem_records hr
    exact ⟨rfl, rfl⟩
  | note records =>
    have hmissing := hm.isMissing r hr
    exact ⟨hmissing.isReport, hmissing.isRegistration⟩
  | print line => exact absurd hr List.not_mem_nil
  | register file => exact absurd trivial h
  | report e => exact absurd trivial h
  | setText f text => exact absurd hr List.not_mem_nil
  | rename f filename => exact absurd hr List.not_mem_nil

theorem Made.not_isRegistration {parts : Set (Step φ)} {s : Session φ} {m : Move φ}
    (hm : Made parts s m) (h : ∀ f, m ≠ .register (some f)) :
    ∀ r ∈ m.records s, r.isRegistration = false := by
  intro r hr
  by_cases hadd : m.IsAddition
  · unfold Move.records at hr
    cases m with
    | register file =>
      cases file with
      | some f => exact absurd rfl (h f)
      | none => cases hsink : s.sink <;> simp [hsink] at hr
    | report e =>
      cases hsink : s.sink with
      | discarding => simp [hsink] at hr
      | recording log =>
        simp only [hsink, List.mem_singleton] at hr
        rw [hr]
        rfl
    | _ => exact hadd.elim
  · exact (hm.records_aside hadd r hr).2

section Moves

variable [DecidableEq φ]

theorem Move.journal_after (m : Move φ) (s : Session φ) :
    (m.after s).journal.toList = s.journal.toList ++ m.records s := by
  obtain ⟨files, sink, journal, printed⟩ := s
  cases m with
  | read f =>
    have h := stateAfter_of_ok (Session.table_eq f ⟨files, sink, journal, printed⟩)
    change (stateAfter (table f) _).journal.toList = journal.toList ++ (files f).records
    rw [h]
    by_cases hrecords : (files f).records.isEmpty
    · rw [if_pos hrecords, List.isEmpty_iff.1 hrecords, List.append_nil]
    · rw [if_neg hrecords]
      exact Array.toList_appendList
  | note records => exact Array.toList_appendList
  | print line => exact (List.append_nil _).symm
  | register file =>
    cases sink with
    | discarding => exact (List.append_nil _).symm
    | recording log =>
      cases file with
      | none => exact (List.append_nil _).symm
      | some f => exact Array.toList_appendList
  | report e =>
    cases sink with
    | discarding => exact (List.append_nil _).symm
    | recording log => exact Array.toList_appendList
  | setText f text => exact (List.append_nil _).symm
  | rename f filename => exact (List.append_nil _).symm

theorem Move.sink_after {m : Move φ} (h : ¬ m.IsAddition) (s : Session φ) :
    (m.after s).sink = s.sink := by
  cases m with
  | read f => exact Move.sink_read f s
  | note records => rfl
  | print line => rfl
  | register file => exact absurd trivial h
  | report e => exact absurd trivial h
  | setText f text => rfl
  | rename f filename => rfl

namespace Session.Faithful

variable {s t : Session φ} {log : Log φ}

theorem register (h : s.Faithful log) (file : Option φ) :
    ((Move.register file).after s).Faithful (log.register file) := by
  have hsink := Move.sink_register h.sink file
  have hjournal := Move.journal_after (.register file) s
  unfold Move.records at hjournal
  rw [h.sink] at hjournal
  cases file with
  | none => exact h.aside hsink rfl hjournal fun r hr => absurd hr List.not_mem_nil
  | some f =>
    refine ⟨hsink, ?_, ?_⟩
    · rw [hjournal, List.filter_append, h.reports]
      exact List.append_nil _
    · rw [hjournal]
      exact h.attributed.concat h.length_reports.symm _

theorem report (h : s.Faithful log) (e : Entry φ) :
    ((Move.report e).after s).Faithful (log.append e) := by
  have hjournal := Move.journal_after (.report e) s
  unfold Move.records at hjournal
  rw [h.sink] at hjournal
  refine ⟨Move.sink_report h.sink e, ?_, ?_⟩
  · rw [hjournal, List.filter_append, h.reports, log.reports_append, List.mapIdx_concat,
      log.length_reports]
    rfl
  · rw [hjournal]
    refine h.attributed.append fun r hr => ?_
    rw [List.mem_singleton.1 hr]
    rfl

/-- What the moves of a run do to the log, they note. -/
theorem after {parts : Set (Step φ)} (h : s.Faithful log) {m : Move φ} (hm : Made parts s m) :
    ∃ log', (m.after s).Faithful log' ∧ log.reports <+: log'.reports := by
  by_cases hadd : m.IsAddition
  · cases m with
    | register file => exact ⟨_, h.register file, List.prefix_rfl⟩
    | report e =>
      refine ⟨_, h.report e, ?_⟩
      rw [log.reports_append]
      exact List.prefix_append _ _
    | _ => exact hadd.elim
  · have hsink := (Move.sink_after hadd s).trans h.sink
    exact ⟨log, h.aside hsink rfl (m.journal_after s) (hm.records_aside hadd), List.prefix_rfl⟩

end Session.Faithful

theorem Session.Reaches.faithful {parts : Set (Step φ)} {s t : Session φ} {moves : List (Move φ)}
    (h : Reaches (Made parts) s moves t) {log : Log φ} (hs : s.Faithful log) :
    ∃ log', t.Faithful log' ∧ log.reports <+: log'.reports := by
  induction h generalizing log with
  | refl s => exact ⟨log, hs, List.prefix_rfl⟩
  | next hm _ ih =>
    obtain ⟨log', hs', hlog'⟩ := hs.after hm
    obtain ⟨log'', ht, hlog''⟩ := ih hs'
    exact ⟨log'', ht, hlog'.trans hlog''⟩

/-! ## The moments of a run -/

/-- The journal of a session tells of the first of some reports. There are as many of them as
there are entries, and the accessors answer for each what the journal tells. Registrations are told
of with the number of reports before them. -/
structure Session.JournalTells (t : Session φ) (reports : List (Reported φ)) : Prop where
  size : Query.size.run t = .ok (.size (t.journal.toList.filter Record.isReport).length) t
  records : t.journal.toList.filter Record.isReport
    = (reports.take t.sink.size).mapIdx Reported.record
  answers : ∀ i < t.sink.size, ∃ r file, reports[i]? = some r ∧ t.Answers i (some r) file
  attributed : Attributed t.journal.toList

/-- What a registration made in a session notes: the number of reports before it and the name that
the file has then. One of no file is a fault and notes nothing, but it takes effect. -/
structure Session.NotesRegistrations (t : Session φ) : Prop where
  register : ∀ f, ∃ t', Step.run (.register (some f)) t = .ok .done t' ∧
    t'.journal.toList = t.journal.toList
      ++ [.fileRegistered (t.journal.toList.filter Record.isReport).length (t.files f).filename]
  registerNone : ∃ t', Step.run (.register none) t = .error .noFileToRegister t' ∧
    t'.journal = t.journal ∧ ∀ index : Int,
      t'.sink.fileAt? index = if index < t.sink.size then t.sink.fileAt? index else none

namespace Session.Faithful

variable {t : Session φ} {log : Log φ}

theorem journalTells (h : t.Faithful log) {reports : List (Reported φ)}
    (hreports : log.reports <+: reports) : t.JournalTells reports where
  size := by
    have hheld := size_eq t
    rw [h.sink, show (Sink.recording log).size = _ from h.length_reports.symm] at hheld
    exact bind_of_ok hheld
  records := by
    obtain ⟨rest, rfl⟩ := hreports
    rw [h.reports, h.sink]
    exact congrArg _ (List.take_left' log.length_reports).symm
  answers := fun i hi => by
    rw [h.sink] at hi
    obtain ⟨e, he⟩ := log.exists_entryAt? hi
    have hanswers := answers_of_recording h.sink i
    rw [he, Option.map_some] at hanswers
    refine ⟨e.reported, _, ?_, hanswers⟩
    obtain ⟨rest, rfl⟩ := hreports
    have hlt : i < log.reports.length := log.length_reports.symm ▸ hi
    rw [List.getElem?_append_left hlt, log.getElem?_reports, he, Option.map_some]
  attributed := h.attributed

theorem notesRegistrations (h : t.Faithful log) : t.NotesRegistrations where
  register := fun f => by
    obtain ⟨files, sink, journal, printed⟩ := t
    obtain rfl : sink = .recording log := h.sink
    rw [h.length_reports]
    exact ⟨_, rfl, Array.toList_appendList⟩
  registerNone := by
    obtain ⟨files, sink, journal, printed⟩ := t
    obtain rfl : sink = .recording log := h.sink
    refine ⟨_, rfl, rfl, fun index => ?_⟩
    change (log.register none).fileAt? index = if index < log.size then log.fileAt? index else none
    split
    case isTrue hindex => exact log.fileAt?_register_of_lt none hindex
    case isFalse hindex =>
      have hpast := (log.register none).fileAt?_of_size_le (Int.not_lt.1 hindex)
      exact hpast.trans (log.active_register none)

end Session.Faithful

/-- The course of a run can be told move by move, so that all its moments are passed. At each of
them the journal tells of the reports made so far, in order, with the indices from zero on, and of
the registrations with the number of reports before them; what it has told of is answered in the
same way ever after. A registration notes exactly one record if it names a file, else none, and no
other move notes such a record. -/
theorem journal_of_run (files : φ → SourceFile) (run : List (Step φ)) :
    let s := recording files
    ∃ (moves : List (Move φ)) (reports : List (Reported φ)), s.Course run moves ∧
      (∀ t, Moment run s t → s.Passes moves t) ∧
      reports.length = (afterRun run s).sink.size ∧
      (∀ t, s.Passes moves t → t.JournalTells reports ∧ t.NotesRegistrations) ∧
      ∀ (earlier : List (Move φ)) m later, moves = earlier ++ m :: later →
        (∀ f, m ≠ .register (some f)) →
        ∃ records, (m.after (s.afterMoves earlier)).journal.toList
            = (s.afterMoves earlier).journal.toList ++ records ∧
          ∀ r ∈ records, r.isRegistration = false := by
  intro s
  obtain ⟨moves, hcourse, hmoments⟩ := exists_trace run s
  obtain ⟨log, hlog, _⟩ := hcourse.reaches.faithful (faithful_recording files)
  refine ⟨moves, log.reports, hcourse, hmoments, ?_, ?_, ?_⟩
  · rw [log.length_reports, hlog.sink]
    rfl
  · rintro t ⟨earlier, later, rfl, rfl⟩
    -- The moment comes after the first moves; by the others its reports are the first of all.
    obtain ⟨hearlier, hlater⟩ := hcourse.reaches.of_append
    obtain ⟨log', hlog', _⟩ := hearlier.faithful (faithful_recording files)
    obtain ⟨log'', hlog'', hreports⟩ := hlater.faithful hlog'
    obtain rfl : log'' = log := Sink.recording.inj (hlog''.sink.symm.trans hlog.sink)
    exact ⟨hlog'.journalTells hreports, hlog'.notesRegistrations⟩
  · rintro earlier m later rfl hm
    have hmade := hcourse.reaches.allowed_of_append
    exact ⟨_, m.journal_after _, hmade.not_isRegistration hm⟩

end Moves

/-- A registration of no file, and a callback that reports and registers. -/
example : (afterRun (φ := Nat)
    [.report none ⟨1000, "Constant expected.", "error"⟩ [],
     .register none,
     .forEach fun _ _ => [.report (some 2) ⟨1009, "Obsolete.", "warning"⟩ [], .register (some 0)],
     .report none ⟨1000, "Constant expected.", "error"⟩ []]
    (recording fun _ => { filename := "a" })).journal.toList
      = [.reported 1000 none 0, .reported 1009 (some 2) 1, .fileRegistered 2 "a",
         .reported 1000 none 2] := by
  cbv

end GrammarDiagnostics
