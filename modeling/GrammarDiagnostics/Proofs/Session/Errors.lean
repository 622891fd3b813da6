import GrammarDiagnostics.Proofs.Session.JournalOfRun
import GrammarDiagnostics.Proofs.Session.Totality

/-! # Whether there are errors

Whether there are errors is found by going through the log each time it is asked for. The answer
tells of the whole history: whether some report so far was of anything but a warning.

* `Log.diagnostics`: what the entries of a log are reports of; `Log.hasErrors_iff`: there are errors
  if one of these is not a warning.
* `Move.diagnostic?`, `Step.diagnostic?`: what a move or a step reports;
  `Session.diagnostics_afterMoves`: the log has what moves have reported.
* `Session.Reaches.exists_part`, `Session.Course.diagnostics_eq`: the moves of a run report what its
  steps report.
* `View.warnings_of_infos`: which of the snapshots are of warnings.
* `Session.TellsErrors`, `Session.ErrorsByReports`: what one knows of a moment;
  `hasErrors_of_history`: one knows it of every moment of every run.
-/

set_option autoImplicit false

namespace GrammarDiagnostics

open Session

variable {φ α β γ : Type}

/-! ## The diagnostics of a log -/

theorem filterMap_range_getElem? (l : List α) :
    ((List.range l.length).filterMap fun index => l[index]?) = l := by
  induction l using List.reverseRecOn with
  | nil => rfl
  | append_singleton l a ih =>
    have hkept : ∀ index ∈ List.range l.length, (l ++ [a])[index]? = l[index]? :=
      fun index hindex => List.getElem?_append_left (List.mem_range.1 hindex)
    rw [List.length_append, List.length_singleton, List.range_succ, List.filterMap_append,
      List.filterMap_congr hkept, ih]
    simp

namespace Log

/-- What the entries of a log are reports of. -/
def diagnostics (log : Log φ) : List Diagnostic := log.reports.map Reported.diagnostic

theorem diagnostics_append (log : Log φ) (e : Entry φ) :
    (log.append e).diagnostics = log.diagnostics ++ [e.diagnostic] := by
  unfold diagnostics
  rw [log.reports_append, List.map_append]
  rfl

theorem length_diagnostics (log : Log φ) : log.diagnostics.length = log.size := by
  rw [diagnostics, List.length_map, log.length_reports]

/-- Going through the indices of a log one comes by all its diagnostics. -/
theorem filterMap_entryAt? (log : Log φ) (f : Diagnostic → β) :
    ((List.range log.size).filterMap fun (index : Nat) =>
      (log.entryAt? index).map fun e => f e.diagnostic) = log.diagnostics.map f := by
  have hlook (index : Nat) : (log.entryAt? index).map (fun e => f e.diagnostic)
      = (log.diagnostics.map f)[index]? := by
    rw [diagnostics, List.map_map, List.getElem?_map, log.getElem?_reports, Option.map_map]
    rfl
  have hsize : log.size = (log.diagnostics.map f).length := by
    rw [List.length_map, log.length_diagnostics]
  simp only [hlook]
  rw [hsize]
  exact filterMap_range_getElem? _

theorem hasErrors_iff (log : Log φ) :
    (Sink.recording log).hasErrors = true ↔ ∃ d ∈ log.diagnostics, d.severity ≠ "warning" := by
  have hany : (Sink.recording log).hasErrors = log.diagnostics.any fun d => !d.isWarning := by
    have hall := log.filterMap_entryAt? id
    rw [List.map_id] at hall
    rw [← hall, List.any_filterMap]
    unfold Sink.hasErrors
    congr 1
    funext index
    have hentry : (Sink.recording log).entryAt? index = log.entryAt? index := rfl
    rw [hentry]
    cases log.entryAt? index <;> rfl
  rw [hany, List.any_eq_true]
  simp only [Bool.not_eq_true', ← Bool.not_eq_true, Diagnostic.isWarning_iff, ne_eq]

end Log

/-! ## What is reported -/

def Move.diagnostic? : Move φ → Option Diagnostic
  | .report e => some e.diagnostic
  | _ => none

def Step.diagnostic? : Step φ → Option Diagnostic
  | .report _ d _ | .reportNode _ d _ => some d
  | _ => none

theorem Step.diagnostic?_eq (step : Step φ) :
    step.diagnostic? = step.move?.bind Move.diagnostic? := by
  cases step <;> rfl

theorem Step.exists_move {step : Step φ} {d : Diagnostic} (h : step.diagnostic? = some d) :
    ∃ m, step.move? = some m ∧ m.diagnostic? = some d ∧ step ≠ .register none := by
  obtain ⟨m, hm, hd⟩ := Option.bind_eq_some_iff.1 (step.diagnostic?_eq.symm.trans h)
  refine ⟨m, hm, hd, ?_⟩
  rintro rfl
  exact nomatch h

theorem Made.exists_part {parts : Set (Step φ)} {s : Session φ} {m : Move φ} {d : Diagnostic}
    (hm : Made parts s m) (hd : m.diagnostic? = some d) :
    ∃ part ∈ parts, part.diagnostic? = some d := by
  cases hm with
  | reading hm => cases hm <;> exact nomatch hd
  | printing _ => exact nomatch hd
  | @changing _ part hpart hmove =>
    refine ⟨part, hpart, ?_⟩
    rw [part.diagnostic?_eq, hmove]
    exact hd

section Moves

variable [DecidableEq φ]

/-- A move adds to the log what it reports, and nothing else. -/
theorem Move.diagnostics_after (m : Move φ) {s : Session φ} {log : Log φ}
    (h : s.sink = .recording log) : ∃ log', (m.after s).sink = .recording log' ∧
      log'.diagnostics = log.diagnostics ++ m.diagnostic?.toList := by
  have hnone : log.diagnostics = log.diagnostics ++ [] := (List.append_nil _).symm
  cases m with
  | read f => exact ⟨log, (Move.sink_read f s).trans h, hnone⟩
  | note records => exact ⟨log, h, hnone⟩
  | print line => exact ⟨log, h, hnone⟩
  | register file => exact ⟨_, Move.sink_register h file, hnone⟩
  | report e => exact ⟨_, Move.sink_report h e, log.diagnostics_append e⟩
  | setText f text => exact ⟨log, h, hnone⟩
  | rename f filename => exact ⟨log, h, hnone⟩

theorem Session.diagnostics_afterMoves (moves : List (Move φ)) {s : Session φ} {log : Log φ}
    (h : s.sink = .recording log) : ∃ log', (s.afterMoves moves).sink = .recording log' ∧
      log'.diagnostics = log.diagnostics ++ moves.filterMap Move.diagnostic? := by
  induction moves generalizing s log with
  | nil => exact ⟨log, h, (List.append_nil _).symm⟩
  | cons m moves ih =>
    obtain ⟨log', hlog', hm⟩ := m.diagnostics_after h
    obtain ⟨log'', hlog'', hmoves⟩ := ih hlog'
    refine ⟨log'', hlog'', ?_⟩
    rw [hmoves, hm, List.append_assoc, List.filterMap_cons]
    cases m.diagnostic? <;> rfl

theorem Session.Reaches.exists_part {parts : Set (Step φ)} {s t : Session φ}
    {moves : List (Move φ)} (h : Reaches (Made parts) s moves t) :
    ∀ d ∈ moves.filterMap Move.diagnostic?, ∃ part ∈ parts, part.diagnostic? = some d := by
  induction h with
  | refl s => exact List.forall_mem_nil _
  | @next s m moves t hm _ ih =>
    intro d hd
    obtain ⟨m', hm', hd⟩ := List.mem_filterMap.1 hd
    cases hm' with
    | head _ => exact hm.exists_part hd
    | tail _ hm' => exact ih d (List.mem_filterMap.2 ⟨m', hm', hd⟩)

theorem Session.Reaches.none_reported {parts : Set (Step φ)} {s t : Session φ}
    {moves : List (Move φ)} (h : Reaches (Made parts) s moves t)
    (hparts : ∀ part ∈ parts, part.diagnostic? = none) :
    moves.filterMap Move.diagnostic? = [] := by
  rw [List.eq_nil_iff_forall_not_mem]
  intro d hd
  obtain ⟨part, hpart, hreported⟩ := h.exists_part d hd
  exact nomatch (hparts part hpart).symm.trans hreported

/-- The moves of a simple step report just what the step does. -/
theorem Session.Reaches.diagnostics_eq {step : Step φ} (hstep : step.parts = {step})
    {s : Session φ} {moves : List (Move φ)}
    (h : Reaches (Made step.parts) s moves (stateAfter step.run s)) {log : Log φ}
    (hlog : s.sink = .recording log) :
    moves.filterMap Move.diagnostic? = step.diagnostic?.toList := by
  cases hd : step.diagnostic? with
  | none =>
    refine h.none_reported fun part hpart => ?_
    rw [hstep, Set.mem_singleton_iff] at hpart
    rw [hpart, hd]
  | some d =>
    -- What there is in the log after the step tells what the moves have reported.
    obtain ⟨m, hm, hreported, _⟩ := Step.exists_move hd
    obtain ⟨log', hlog', hadded⟩ := m.diagnostics_after hlog
    obtain ⟨log'', hlog'', hmoves⟩ := diagnostics_afterMoves moves hlog
    rw [← h.eq_afterMoves, Step.stateAfter_of_move? hm, hlog'] at hlog''
    obtain rfl := Sink.recording.inj hlog''
    rw [hreported] at hadded
    exact List.append_cancel_left (hmoves.symm.trans hadded)

theorem Session.Course.diagnostics_eq {run : List (Step φ)} {s : Session φ} {moves : List (Move φ)}
    (h : s.Course run moves) (hrun : ∀ step ∈ run, step.parts = {step}) {log : Log φ}
    (hlog : s.sink = .recording log) :
    moves.filterMap Move.diagnostic? = run.filterMap Step.diagnostic? := by
  induction h generalizing log with
  | nil s => rfl
  | @cons step run s moves moves' hmoves _ ih =>
    rw [List.forall_mem_cons] at hrun
    obtain ⟨log', hlog', _⟩ := diagnostics_afterMoves moves hlog
    rw [← hmoves.eq_afterMoves] at hlog'
    rw [List.filterMap_append, hmoves.diagnostics_eq hrun.1 hlog, ih hrun.2 hlog',
      List.filterMap_cons]
    cases step.diagnostic? <;> rfl

end Moves

/-! ## Snapshots of warnings -/

theorem map_of_filterMapM_eq_ok {f : α → Except Fault (Option β)} {g : β → γ} {k : α → Option γ}
    (h : ∀ a b, f a = .ok b → b.map g = k a) {l : List α} {found : List β}
    (hfound : l.filterMapM f = .ok found) : found.map g = l.filterMap k := by
  induction l generalizing found with
  | nil =>
    rw [← Except.ok.inj hfound]
    rfl
  | cons a l ih =>
    rw [List.filterMapM_cons] at hfound
    obtain ⟨b, hb, hrest⟩ := exists_of_bind_eq_ok hfound
    rw [List.filterMap_cons, ← h a b hb]
    cases b with
    | none => exact ih hrest
    | some b =>
      obtain ⟨bs, hbs, hcons⟩ := exists_of_bind_eq_ok hrest
      rw [← Except.ok.inj hcons, List.map_cons, ih hbs]
      rfl

theorem View.warnings_of_infos {v : View φ} {log : Log φ} (hlog : v.sink = .recording log)
    {options : InfoOptions} {found : List (Info φ)} (h : v.infos options = .ok found) :
    found.map Info.warning = log.diagnostics.map Diagnostic.isWarning := by
  have hinfo (index : Nat) (info : Option (Info φ)) (hinfo : v.info? index options = .ok info) :
      info.map Info.warning = (log.entryAt? index).map fun e => e.diagnostic.isWarning := by
    have hsink : v.sink.entryAt? index = log.entryAt? index := by rw [hlog]; rfl
    rw [← hsink]
    cases he : v.sink.entryAt? index with
    | none =>
      rw [View.info?_of_none he] at hinfo
      rw [← Except.ok.inj hinfo]
      rfl
    | some e =>
      obtain ⟨formatted, rfl⟩ := View.snapshot_of_info? he hinfo
      rfl
  have hsize : v.sink.size = log.size := by rw [hlog]; rfl
  rw [map_of_filterMapM_eq_ok hinfo h, hsize, log.filterMap_entryAt?]

/-! ## The moments of a run -/

section Moments

variable [DecidableEq φ]

def Session.HasErrors (t : Session φ) : Prop := Query.hasErrors.run t = .ok (.flag true) t

theorem Session.run_hasErrors (t : Session φ) :
    Query.hasErrors.run t = .ok (.flag t.sink.hasErrors) t :=
  bind_of_ok (hasErrors_eq t)

theorem Session.hasErrors_iff {t : Session φ} {log : Log φ} (h : t.sink = .recording log) :
    t.HasErrors ↔ ∃ d ∈ log.diagnostics, d.severity ≠ "warning" := by
  rw [← log.hasErrors_iff, ← h, HasErrors, run_hasErrors]
  constructor
  · intro hflag
    exact Answer.flag.inj (EStateM.Result.ok.inj hflag).1
  · intro hflag
    rw [hflag]

/-- Asked whether there are errors, the session answers for these diagnostics. So do its snapshots,
which can be had where no message is to be rendered. -/
structure Session.TellsErrors (t : Session φ) (reported : List Diagnostic) : Prop where
  answer : ∃ b, Query.hasErrors.run t = .ok (.flag b) t
  reports : t.HasErrors ↔ ∃ d ∈ reported, d.severity ≠ "warning"
  snapshots : ∀ options found, outcomeOf (infos options) t = .ok found →
    (t.HasErrors ↔ ∃ info ∈ found, info.warning = false) ∧
      found.map Info.warning = reported.map Diagnostic.isWarning
  plain : ∀ options, options.formatMessage = false →
    ∃ found, outcomeOf (infos options) t = .ok found

/-- A report of an error has the session have errors; nothing else changes whether it has. -/
structure Session.ErrorsByReports (t : Session φ) : Prop where
  report : ∀ (step : Step φ) d, step.diagnostic? = some d → ∃ t', step.run t = .ok .done t' ∧
    (t'.HasErrors ↔ t.HasErrors ∨ d.severity ≠ "warning")
  others : ∀ steps, (∀ part ∈ Step.partsAll steps, part.diagnostic? = none) →
    outcomeOf Query.hasErrors.run (stateAfter (Step.runAll steps) t)
      = outcomeOf Query.hasErrors.run t

theorem Session.tellsErrors {t : Session φ} {log : Log φ} (h : t.sink = .recording log) :
    t.TellsErrors log.diagnostics where
  answer := ⟨_, run_hasErrors t⟩
  reports := hasErrors_iff h
  snapshots := fun options found hfound => by
    rw [(yields_infos options).outcomeOf_eq] at hfound
    have hwarnings := View.warnings_of_infos (v := t.view) h hfound
    refine ⟨?_, hwarnings⟩
    have hflag : (∃ info ∈ found, info.warning = false) ↔ false ∈ found.map Info.warning := by
      rw [List.mem_map]
    rw [hflag, hwarnings, hasErrors_iff h, List.mem_map]
    simp only [← Bool.not_eq_true, Diagnostic.isWarning_iff, ne_eq]
  plain := fun options hplain => by
    choose info hinfo using fun index : Int => t.view.exists_info?_of_plain index hplain
    have hgives : Gives t.view (infos options) _ := gives_infos fun index _ =>
      .of_yields (yields_info? index options) (hinfo index)
    exact ⟨_, hgives.outcomeOf_eq rfl⟩

theorem Session.errorsByReports {t : Session φ} {log : Log φ} (h : t.sink = .recording log) :
    t.ErrorsByReports where
  report := fun step d hd => by
    obtain ⟨m, hm, hreported, hregister⟩ := Step.exists_move hd
    obtain ⟨log', hlog', hadded⟩ := m.diagnostics_after h
    refine ⟨_, Step.run_of_move? hm hregister t, ?_⟩
    rw [hasErrors_iff hlog', hasErrors_iff h, hadded, hreported]
    simp [or_and_right, exists_or]
  others := fun steps hsteps => by
    obtain ⟨moves, hmoves⟩ := Step.goesAll steps t
    obtain ⟨log', hlog', hadded⟩ := diagnostics_afterMoves moves h
    rw [← hmoves.eq_afterMoves] at hlog'
    rw [hmoves.none_reported hsteps, List.append_nil] at hadded
    have hsame : (stateAfter (Step.runAll steps) t).sink.hasErrors = t.sink.hasErrors := by
      rw [hlog', h, Bool.eq_iff_iff, log'.hasErrors_iff, log.hasErrors_iff, hadded]
    rw [outcomeOf_of_ok (run_hasErrors _), outcomeOf_of_ok (run_hasErrors t), hsame]

/-- At every moment of a run there are errors if and only if some report made so far was of anything
but a warning. The snapshots tell the same. What comes later does not take it back, and nothing but
reports has a part in it, whether or not it ends in a fault. -/
theorem hasErrors_of_history (files : φ → SourceFile) (run : List (Step φ)) :
    let s := recording files
    (∃ moves, s.Course run moves ∧ ∀ t, Moment run s t → s.Passes moves t) ∧
    ∀ moves, s.Course run moves →
      (∀ d ∈ moves.filterMap Move.diagnostic?,
        ∃ part ∈ Step.partsAll run, part.diagnostic? = some d) ∧
      ((∀ step ∈ run, step.parts = {step}) →
        moves.filterMap Move.diagnostic? = run.filterMap Step.diagnostic?) ∧
      (∀ earlier later, moves = earlier ++ later →
        (s.afterMoves earlier).TellsErrors (earlier.filterMap Move.diagnostic?) ∧
        (s.afterMoves earlier).ErrorsByReports) ∧
      ∀ earlier middle later, moves = earlier ++ middle ++ later →
        (s.afterMoves earlier).HasErrors → (s.afterMoves (earlier ++ middle)).HasErrors := by
  intro s
  have hempty : s.sink = .recording .empty := rfl
  have htells (moves : List (Move φ)) : ∃ log, (s.afterMoves moves).sink = .recording log ∧
      log.diagnostics = moves.filterMap Move.diagnostic? := diagnostics_afterMoves moves hempty
  refine ⟨exists_trace run s, fun moves hcourse => ⟨hcourse.reaches.exists_part,
    fun hrun => hcourse.diagnostics_eq hrun hempty, ?_, ?_⟩⟩
  · rintro earlier later -
    obtain ⟨log, hlog, hdiagnostics⟩ := htells earlier
    rw [← hdiagnostics]
    exact ⟨tellsErrors hlog, errorsByReports hlog⟩
  · rintro earlier middle later - herrors
    obtain ⟨log, hlog, hearlier⟩ := htells earlier
    obtain ⟨log', hlog', hall⟩ := htells (earlier ++ middle)
    rw [hasErrors_iff hlog, hearlier] at herrors
    rw [hasErrors_iff hlog', hall, List.filterMap_append]
    obtain ⟨d, hd, hsevere⟩ := herrors
    exact ⟨d, List.mem_append_left _ hd, hsevere⟩

/-- A warning, a registration that is a fault, a report of code 0 whose severity is no word for
warnings, and a change of a file. -/
def oddRun : List (Step Nat) :=
  [.report none ⟨1009, "Obsolete.", "warning"⟩ [],
   .register none,
   .reportNode (some ⟨.identifier, 3, 1⟩) ⟨0, "Odd.", "Warning"⟩ [],
   .rename 0 "b"]

theorem hasErrors_of_history_oddRun :
    let s : Session Nat := recording fun _ => { filename := "a" }
    let moves := oddRun.filterMap Step.move?
    let asked : List (Step Nat) := [.forEach fun _ _ => [.ask .dump, .register none], .rename 1 "c"]
    s.Course oddRun moves ∧ (∀ step ∈ oddRun, step.parts = {step}) ∧
    moves.filterMap Move.diagnostic?
      = [⟨1009, "Obsolete.", "warning"⟩, ⟨0, "Odd.", "Warning"⟩] ∧
    ¬ (s.afterMoves (moves.take 2)).HasErrors ∧
    (s.afterMoves (moves.take 3)).HasErrors ∧ (s.afterMoves moves).HasErrors ∧
    (∀ part ∈ Step.partsAll asked, part.diagnostic? = none) ∧
    outcomeOf Query.hasErrors.run (stateAfter (Step.runAll asked) (s.afterMoves moves))
      = .ok (.flag true) := by
  intro s moves asked
  have hcourse : s.Course oddRun moves := course_of_moves rfl s
  have hsimple : ∀ step ∈ oddRun, step.parts = {step} := by simp [oddRun, Step.parts]
  have hasked : ∀ part ∈ Step.partsAll asked, part.diagnostic? = none := by
    simp only [asked, Step.forall_mem_partsAll_cons, Step.forall_mem_partsAll_nil,
      Step.forall_mem_parts_forEach]
    simp [Step.parts, Step.diagnostic?]
  obtain ⟨_, htold⟩ := hasErrors_of_history (fun _ => { filename := "a" }) oddRun
  obtain ⟨_, hreported, hmoments, hlater⟩ := htold moves hcourse
  obtain ⟨hearly, _⟩ := hmoments (moves.take 2) (moves.drop 2) rfl
  obtain ⟨hodd, _⟩ := hmoments (moves.take 3) (moves.drop 3) rfl
  obtain ⟨_, hlast⟩ := hmoments moves [] rfl
  have hthird : (s.afterMoves (moves.take 3)).HasErrors :=
    hodd.reports.2 ⟨⟨0, "Odd.", "Warning"⟩, by decide, by decide⟩
  have hend : (s.afterMoves moves).HasErrors :=
    hlater (moves.take 3) (moves.drop 3) [] rfl hthird
  refine ⟨hcourse, hsimple, hreported hsimple, ?_, hthird, hend, hasked, ?_⟩
  · rw [hearly.reports]
    decide
  · rw [hlast.others asked hasked]
    exact outcomeOf_of_ok hend

end Moments

end GrammarDiagnostics
