import GrammarDiagnostics.Proofs.Session.Additions
import GrammarDiagnostics.Proofs.Session.View

/-! # What the accessors answer after a run of additions

A naive log would keep the active file with every entry. The log keeps registrations only, and
finds files by searching; here its answers are shown to be those of the naive log.

* `Reported`: what a report is about, as its own words give it.
* `Session.Answers`: what the accessors of a session answer for an index.
* `lastRegistered`: the file registered last in a run; `reportCount`: how many reports it makes.
* `accessors_afterAdditions`: under the index of a report the accessors find that report and the
  file registered last before it.
-/

set_option autoImplicit false

namespace GrammarDiagnostics

variable {φ : Type}

/-! ## Reports -/

/-- What a report is about; arguments that come to nothing count as no arguments. -/
structure Reported (φ : Type) where
  diagnostic : Diagnostic
  arguments : Option (List (Argument φ))
  node : Option Node
  pos : Option Int

def nonempty? {α : Type} (items : List α) : Option (List α) :=
  if items.isEmpty then none else some items

namespace Addition

/-- What an addition reports; a registration reports nothing. -/
def reported? : Addition φ → Option (Reported φ)
  | register _ => none
  | report pos d args => some ⟨d, nonempty? (Argument.unwrap args), none, pos⟩
  | reportNode node d args =>
    some ⟨d, nonempty? (Argument.unwrap args), node, node.map Node.start⟩

def registered? : Addition φ → Option (Option φ)
  | register file => some file
  | _ => none

end Addition

def reportCount (run : List (Addition φ)) : Nat := (run.filterMap Addition.reported?).length

/-- The file of the last registration in a run, when there is one and it names a file. -/
def lastRegistered (run : List (Addition φ)) : Option φ :=
  (run.filterMap Addition.registered?).getLast?.join

def Entry.reported (e : Entry φ) : Reported φ := ⟨e.diagnostic, e.arguments?, e.node, e.pos⟩

theorem Entry.arguments?_eq (e : Entry φ) : e.arguments? = nonempty? e.arguments := by
  unfold arguments?
  split
  case h_1 h =>
    rw [h]
    rfl
  case h_2 h =>
    unfold nonempty?
    rw [if_neg (by simpa using h)]

theorem Addition.reported?_eq (x : Addition φ) : x.reported? = x.entered?.map Entry.reported := by
  cases x with
  | register file => rfl
  | report pos d args =>
    simp only [reported?, entered?, Option.map_some, Entry.reported, Entry.arguments?_eq]
    rfl
  | reportNode node d args =>
    simp only [reported?, entered?, Option.map_some, Entry.reported, Entry.arguments?_eq]
    rfl

/-! ## The ledger in terms of the run -/

/-- The ledger that belongs to a run: the active file is the one registered last, and every entry
is that of the report with its index, beside the file registered last before that report. -/
structure Ledger.Tells (ledger : Ledger φ) (run : List (Addition φ)) : Prop where
  active : ledger.active = lastRegistered run
  length : ledger.entries.length = reportCount run
  entry : ∀ i, i < ledger.entries.length → ∃ before x after e,
    run = before ++ x :: after ∧ reportCount before = i ∧ x.entered? = some e ∧
      ledger.entries[i]? = some (e, lastRegistered before)

theorem reportCount_concat (run : List (Addition φ)) (x : Addition φ) :
    reportCount (run ++ [x]) = reportCount run + (if x.entered?.isSome then 1 else 0) := by
  unfold reportCount
  rw [List.filterMap_append, List.length_append]
  cases x <;> rfl

theorem lastRegistered_concat_register (run : List (Addition φ)) (file : Option φ) :
    lastRegistered (run ++ [.register file]) = file := by
  unfold lastRegistered
  rw [List.filterMap_append]
  simp [Addition.registered?]

theorem lastRegistered_concat_of_entered {x : Addition φ} {e : Entry φ} (run : List (Addition φ))
    (h : x.entered? = some e) : lastRegistered (run ++ [x]) = lastRegistered run := by
  unfold lastRegistered
  rw [List.filterMap_append]
  cases x with
  | register file => simp [Addition.entered?] at h
  | report pos d args => simp [Addition.registered?]
  | reportNode node d args => simp [Addition.registered?]

theorem Ledger.Tells.register {ledger : Ledger φ} {run : List (Addition φ)} (h : ledger.Tells run)
    (file : Option φ) : (ledger.register file).Tells (run ++ [.register file]) where
  active := (lastRegistered_concat_register run file).symm
  length := by
    rw [reportCount_concat]
    exact h.length
  entry := fun i hi => by
    obtain ⟨before, x, after, e, hrun, hcount, hx, hentry⟩ := h.entry i hi
    refine ⟨before, x, after ++ [.register file], e, ?_, hcount, hx, hentry⟩
    rw [hrun, List.append_assoc, List.cons_append]

theorem Ledger.Tells.append {ledger : Ledger φ} {run : List (Addition φ)} (h : ledger.Tells run)
    {x : Addition φ} {e : Entry φ} (hx : x.entered? = some e) :
    (ledger.append e).Tells (run ++ [x]) where
  active := by
    rw [lastRegistered_concat_of_entered run hx]
    exact h.active
  length := by
    have hlength := h.length
    rw [reportCount_concat, hx, ← hlength]
    exact List.length_append
  entry := fun i hi => by
    have hentries : (ledger.append e).entries = ledger.entries ++ [(e, ledger.active)] := rfl
    rw [hentries, List.length_append, List.length_singleton] at hi
    rw [hentries]
    rcases Nat.lt_or_ge i ledger.entries.length with hlt | hge
    · -- an older entry: the run has only grown behind its report
      obtain ⟨before, y, after, e', hrun, hcount, hy, hentry⟩ := h.entry i hlt
      refine ⟨before, y, after ++ [x], e', ?_, hcount, hy, ?_⟩
      · rw [hrun, List.append_assoc, List.cons_append]
      · rw [List.getElem?_append_left hlt, hentry]
    · have hi' : i = ledger.entries.length := by omega
      refine ⟨run, x, [], e, rfl, ?_, hx, ?_⟩
      · rw [hi', h.length]
      · rw [hi', List.getElem?_concat_length, h.active]

theorem Ledger.tells_ofAdditions (run : List (Addition φ)) :
    (Ledger.ofAdditions run).Tells run := by
  induction run using List.reverseRecOn with
  | nil => exact ⟨rfl, rfl, fun i hi => absurd hi (Nat.not_lt_zero i)⟩
  | append_singleton run x ih =>
    rw [Ledger.ofAdditions_concat]
    obtain ⟨file, rfl⟩ | ⟨e, hx⟩ := x.register_or_entered
    · exact ih.register file
    · rw [Ledger.add_of_entered _ hx]
      exact ih.append hx

/-! ## The log in terms of the run -/

theorem Log.size_ofAdditions (run : List (Addition φ)) :
    (Log.ofAdditions run).size = reportCount run := by
  rw [← Log.length_attributed, ← (Ledger.tells_ofAdditions run).length, ← Log.ledger_ofAdditions]
  rfl

theorem Log.active_ofAdditions (run : List (Addition φ)) :
    (Log.ofAdditions run).active = lastRegistered run := by
  rw [← (Ledger.tells_ofAdditions run).active, ← Log.ledger_ofAdditions]
  rfl

/-- Under the index of a report the log has the entry of that report, and the file registered last
before it. -/
theorem Log.entry_ofAdditions {run : List (Addition φ)} {i : Nat} (h : i < reportCount run) :
    ∃ before x after e, run = before ++ x :: after ∧ reportCount before = i ∧
      x.entered? = some e ∧ (Log.ofAdditions run).entryAt? i = some e ∧
      (Log.ofAdditions run).fileAt? i = lastRegistered before := by
  have htells := Ledger.tells_ofAdditions run
  rw [← htells.length] at h
  obtain ⟨before, x, after, e, hrun, hcount, hx, hentry⟩ := htells.entry i h
  have hfound : (Log.ofAdditions run).attributed[i]? = some (e, lastRegistered before) := by
    rw [← hentry, ← Log.ledger_ofAdditions]
    rfl
  rw [Log.getElem?_attributed] at hfound
  obtain ⟨e', he', hpair⟩ := Option.map_eq_some_iff.1 hfound
  obtain ⟨rfl, hfile⟩ := Prod.mk.inj hpair
  exact ⟨before, x, after, e', hrun, hcount, hx, he', hfile⟩

/-! ## The accessors -/

section Session

variable [DecidableEq φ]

/-- The accessors of a session answer an index with what was reported under it and with its file,
and leave the session as it is. -/
structure Session.Answers (s : Session φ) (i : Int) (r : Option (Reported φ)) (file : Option φ) :
    Prop where
  diagnostic : (Query.diagnostic i).run s = .ok (.diagnostic (r.map Reported.diagnostic)) s
  arguments : (Query.arguments i).run s = .ok (.arguments (r.bind Reported.arguments)) s
  node : (Query.node i).run s = .ok (.node (r.bind Reported.node)) s
  pos : (Query.pos i).run s = .ok (.pos (r.bind Reported.pos)) s
  file : (Query.file i).run s = .ok (.file file) s

theorem Session.answers_of_recording {s : Session φ} {log : Log φ} (h : s.sink = .recording log)
    (i : Int) : s.Answers i ((log.entryAt? i).map Entry.reported) (log.fileAt? i) := by
  have hentry : s.sink.entryAt? i = log.entryAt? i := congrArg (Sink.entryAt? · i) h
  have hfile : s.sink.fileAt? i = log.fileAt? i := congrArg (Sink.fileAt? · i) h
  have hdiagnostic := diagnostic_eq s i
  have harguments := arguments_eq s i
  have hnode := node_eq s i
  have hpos := pos_eq s i
  have hfound := fileAt?_eq s i
  rw [hentry] at hdiagnostic harguments hnode hpos
  rw [hfile] at hfound
  constructor
  · refine (bind_of_ok hdiagnostic).trans ?_
    rw [Option.map_map]
    rfl
  · refine (bind_of_ok harguments).trans ?_
    rw [Option.bind_map]
    rfl
  · refine (bind_of_ok hnode).trans ?_
    rw [Option.bind_map]
    rfl
  · refine (bind_of_ok hpos).trans ?_
    rw [Option.bind_map]
    rfl
  · exact bind_of_ok hfound

theorem Session.Answers.node_held {s : Session φ} {i : Int} {r : Reported φ} {file : Option φ}
    (h : s.Answers i (some r) file) : r.node = (s.sink.entryAt? i).bind Entry.node :=
  Answer.node.inj (EStateM.Result.ok.inj (h.node.symm.trans (bind_of_ok (node_eq s i)))).1

theorem Session.Answers.pos_held {s : Session φ} {i : Int} {r : Reported φ} {file : Option φ}
    (h : s.Answers i (some r) file) : r.pos = (s.sink.entryAt? i).bind Entry.pos :=
  Answer.pos.inj (EStateM.Result.ok.inj (h.pos.symm.trans (bind_of_ok (pos_eq s i)))).1

/-- After a run of additions the accessors answer as a log would that keeps the active file with
every entry: before the log with nothing, past its end with the file registered last, and under the
index of a report with that report and the file registered last before it. -/
theorem accessors_afterAdditions (files : φ → SourceFile) (run : List (Addition φ)) :
    let s := Session.afterAdditions files run
    (Session.perform (run.map fun x => [x.step]) (.recording files)).1.map Prod.fst
        = run.map Addition.outcome ∧
      Query.size.run s = .ok (.size (reportCount run)) s ∧
      ∀ i : Int,
        (i < 0 → s.Answers i none none) ∧
        (reportCount run ≤ i → s.Answers i none (lastRegistered run)) ∧
        (0 ≤ i → i < reportCount run → ∃ before x after r,
          run = before ++ x :: after ∧ (reportCount before : Int) = i ∧ x.reported? = some r ∧
            s.Answers i (some r) (lastRegistered before)) := by
  intro s
  have hsink : s.sink = .recording (Log.ofAdditions run) := Session.sink_afterAdditions files run
  have hsize := Log.size_ofAdditions run
  refine ⟨Session.perform_additions files run, ?_, fun i => ⟨fun hneg => ?_, fun hge => ?_,
    fun h0 hlt => ?_⟩⟩
  · have hheld := Session.size_eq s
    rw [hsink, show (Sink.recording (Log.ofAdditions run)).size = reportCount run from hsize]
      at hheld
    exact Session.bind_of_ok hheld
  · have h := Session.answers_of_recording hsink i
    rw [Log.entryAt?_eq_none_of_neg _ hneg, Log.fileAt?_of_neg _ hneg] at h
    exact h
  · have h := Session.answers_of_recording hsink i
    rw [← hsize] at hge
    rw [Log.entryAt?_of_size_le _ hge, Log.fileAt?_of_size_le _ hge, Log.active_ofAdditions] at h
    exact h
  · obtain ⟨n, rfl⟩ := Int.eq_ofNat_of_zero_le h0
    obtain ⟨before, x, after, e, hrun, hcount, hx, hentry, hfile⟩ :=
      Log.entry_ofAdditions (Int.ofNat_lt.1 hlt)
    have h := Session.answers_of_recording hsink n
    rw [hentry, hfile, Option.map_some] at h
    refine ⟨before, x, after, e.reported, hrun, by rw [hcount], ?_, h⟩
    rw [x.reported?_eq, hx, Option.map_some]

end Session

/-- A report before any registration, one after two registrations at once, and one after a
registration of no file. -/
def mixedAdditions : List (Addition Nat) :=
  [.report (some 2) ⟨1000, "Constant expected.", "error"⟩ [],
   .register (some 0),
   .register (some 1),
   .reportNode (some ⟨.identifier, 4, 9⟩) ⟨2000, "Cannot find name.", "error"⟩ [.string "x"],
   .register none,
   .report none ⟨1009, "Obsolete.", "warning"⟩ []]

theorem accessors_afterAdditions_mixed :
    let s := Session.afterAdditions (fun _ => { filename := "a" }) mixedAdditions
    ((-1 : Int) < 0 ∧ s.Answers (-1) none none) ∧
      ((reportCount mixedAdditions : Int) ≤ 3 ∧
        s.Answers 3 none (lastRegistered mixedAdditions)) ∧
      ((0 : Int) ≤ 1 ∧ (1 : Int) < reportCount mixedAdditions ∧ ∃ before x after r,
        mixedAdditions = before ++ x :: after ∧ (reportCount before : Int) = 1 ∧
          x.reported? = some r ∧ s.Answers 1 (some r) (lastRegistered before)) := by
  intro s
  have hcount : reportCount mixedAdditions = 3 := rfl
  obtain ⟨_, _, h⟩ := accessors_afterAdditions (fun _ => { filename := "a" }) mixedAdditions
  have hpast : (reportCount mixedAdditions : Int) ≤ 3 := by rw [hcount]; decide
  have hin : (1 : Int) < reportCount mixedAdditions := by rw [hcount]; decide
  exact ⟨⟨by decide, (h (-1)).1 (by decide)⟩, ⟨hpast, (h 3).2.1 hpast⟩,
    ⟨by decide, hin, (h 1).2.2 (by decide) hin⟩⟩

end GrammarDiagnostics
