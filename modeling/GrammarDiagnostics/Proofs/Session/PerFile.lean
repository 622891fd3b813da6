import GrammarDiagnostics.Proofs.Session.Additions
import GrammarDiagnostics.Proofs.Session.Rendered

/-! # The entries of one file

A run may go from file to file and back, as often as it likes. The entries of one file are those of
the reports that were made while it was registered, and they look the same in a log with no others.

* `reportsUnder`: the reports of a run that were made while a file was the active one.
* `Ledger.entriesOf`: the entries of a file; `Ledger.entriesOf_ofAdditions`: after a run these are
  the entries of the reports made under it.
* `Session.infosOf_afterAdditions`: the snapshots of a file in terms of its entries alone.
* `infosOf_interleaved`: the snapshots of a file, but for their indices, do not depend on what was
  reported for other files.
-/

set_option autoImplicit false

namespace GrammarDiagnostics

variable {φ : Type}

def Info.withoutIndex (info : Info φ) : Info φ := { info with index := 0 }

section Entries

variable [DecidableEq φ]

/-! ## The reports and the entries of a file -/

/-- The reports of a run that are made while a file is the active one, when the run begins with the
given active file. -/
def reportsUnder (file : Option φ) : Option φ → List (Addition φ) → List (Addition φ)
  | _, [] => []
  | _, .register f :: run => reportsUnder file f run
  | active, x :: run =>
    if active = file then x :: reportsUnder file active run else reportsUnder file active run

/-- The entries of a ledger that belong to a file. -/
def Ledger.entriesOf (ledger : Ledger φ) (file : Option φ) : List (Entry φ) :=
  (ledger.entries.filter fun entry => entry.2 = file).map Prod.fst

theorem Ledger.entriesOf_append (ledger : Ledger φ) (e : Entry φ) (file : Option φ) :
    (ledger.append e).entriesOf file
      = ledger.entriesOf file ++ if ledger.active = file then [e] else [] := by
  unfold entriesOf append
  rw [List.filter_append, List.map_append]
  by_cases h : ledger.active = file <;> simp [h]

theorem reportsUnder_cons_of_entered (file active : Option φ) {x : Addition φ} {e : Entry φ}
    (run : List (Addition φ)) (h : x.entered? = some e) :
    reportsUnder file active (x :: run)
      = if active = file then x :: reportsUnder file active run
        else reportsUnder file active run := by
  cases x with
  | register f => simp [Addition.entered?] at h
  | report pos d args => rfl
  | reportNode node d args => rfl

theorem Ledger.entriesOf_foldl (file : Option φ) (run : List (Addition φ)) (ledger : Ledger φ) :
    (run.foldl add ledger).entriesOf file = ledger.entriesOf file
      ++ (reportsUnder file ledger.active run).filterMap Addition.entered? := by
  induction run generalizing ledger with
  | nil => exact (List.append_nil _).symm
  | cons x run ih =>
    rw [List.foldl_cons, ih]
    obtain ⟨f, rfl⟩ | ⟨e, hx⟩ := x.register_or_entered
    · rfl
    · rw [add_of_entered _ hx, entriesOf_append, reportsUnder_cons_of_entered _ _ _ hx,
        List.append_assoc]
      by_cases h : ledger.active = file
      · rw [if_pos h, if_pos h, List.filterMap_cons_some hx]
        rfl
      · rw [if_neg h, if_neg h]
        rfl

theorem Ledger.entriesOf_ofAdditions (file : Option φ) (run : List (Addition φ)) :
    (ofAdditions run).entriesOf file = (reportsUnder file none run).filterMap Addition.entered? :=
  entriesOf_foldl file run {}

/-- All reports made under a file are still made under it when no others are made. -/
theorem reportsUnder_reportsUnder (file active : Option φ) (run : List (Addition φ)) :
    reportsUnder file file (reportsUnder file active run) = reportsUnder file active run := by
  induction run generalizing active with
  | nil => rfl
  | cons x run ih =>
    obtain ⟨f, rfl⟩ | ⟨e, hx⟩ := x.register_or_entered
    · exact ih f
    · rw [reportsUnder_cons_of_entered _ _ _ hx]
      by_cases h : active = file
      · rw [if_pos h, reportsUnder_cons_of_entered _ _ _ hx, if_pos rfl, ih]
      · rw [if_neg h, ih]

/-- A file has the same entries when it is registered at once and its reports follow. -/
theorem Ledger.entriesOf_ofAdditions_alone (file : Option φ) (run : List (Addition φ)) :
    (ofAdditions (.register file :: reportsUnder file none run)).entriesOf file
      = (ofAdditions run).entriesOf file := by
  rw [entriesOf_ofAdditions, entriesOf_ofAdditions, reportsUnder, reportsUnder_reportsUnder]

end Entries

/-! ## Going through a list by its indices -/

section Indices

variable {α β γ : Type}

theorem map_filterMapM_range' (f : β → γ) {g : α → Except Fault (Option γ)} (l : List α)
    {k : Nat} {look : Nat → Except Fault (Option β)}
    (h : ∀ i a, l[i]? = some a → Option.map f <$> look (k + i) = g a) :
    List.map f <$> (List.range' k l.length).filterMapM look = l.filterMapM g := by
  induction l generalizing k with
  | nil => rfl
  | cons a l ih =>
    have hhead : Option.map f <$> look k = g a := h 0 a rfl
    have htail := ih (k := k + 1) fun i b hb => by
      rw [Nat.add_assoc, Nat.add_comm 1]
      exact h (i + 1) b hb
    rw [List.length_cons, List.range'_succ, List.filterMapM_cons, List.filterMapM_cons, ← hhead,
      ← htail]
    cases look k with
    | error fault => rfl
    | ok found =>
      cases found with
      | none => rfl
      | some b =>
        cases (List.range' (k + 1) l.length).filterMapM look <;> rfl

theorem filterMapM_ite (p : α → Prop) [DecidablePred p] (f : α → Except Fault β) (l : List α) :
    (l.filterMapM fun a => if p a then some <$> f a else .ok none) = (l.filter p).mapM f := by
  induction l with
  | nil => rfl
  | cons a l ih =>
    rw [List.filterMapM_cons, ih]
    by_cases h : p a
    · rw [if_pos h, List.filter_cons_of_pos (by simpa using h), List.mapM_cons]
      cases f a <;> rfl
    · rw [if_neg h, List.filter_cons_of_neg (by simpa using h)]
      rfl

end Indices

/-! ## The snapshots of a file -/

section Snapshots

theorem Entry.map_withoutIndex_info (e : Entry φ) (index : Int) (files : φ → SourceFile)
    (file : Option φ) (filename : String) (table : Option LineTable) (options : InfoOptions) :
    Info.withoutIndex <$> e.info index files file filename table options
      = e.info 0 files file filename table options := by
  unfold info
  cases options.formatMessage with
  | false => rfl
  | true =>
    simp only [if_true]
    cases e.message files filename table options.detailedMessage <;> rfl

theorem View.map_withoutIndex_info? {v : View φ} {index : Int} {e : Entry φ} {file : Option φ}
    (he : v.sink.entryAt? index = some e) (hfile : v.sink.fileAt? index = file)
    (options : InfoOptions) :
    Option.map Info.withoutIndex <$> v.info? index options
      = some <$> e.info 0 v.sources file (v.filename file) (v.table file) options := by
  rw [← e.map_withoutIndex_info index]
  unfold info?
  rw [he, hfile]
  simp only [Functor.map_map]
  rfl

variable [DecidableEq φ]

/-- But for their indices, the snapshots of a file are those of its entries one by one. -/
theorem View.map_withoutIndex_infosOf {v : View φ} {log : Log φ} (h : v.sink = .recording log)
    (file : Option φ) (options : InfoOptions) :
    List.map Info.withoutIndex <$> v.infosOf file options
      = (log.ledger.entriesOf file).mapM fun e =>
          e.info 0 v.sources file (v.filename file) (v.table file) options := by
  have hsize : v.sink.size = log.attributed.length := by
    rw [h, Log.length_attributed]
    rfl
  have hlook : ∀ (i : Nat) (entry : Entry φ × Option φ), log.attributed[i]? = some entry →
      Option.map Info.withoutIndex <$> (if v.sink.fileAt? (0 + i : Nat) = file
        then v.info? (0 + i : Nat) options else .ok none)
      = if entry.2 = file
        then some <$> entry.1.info 0 v.sources file (v.filename file) (v.table file) options
        else .ok none := by
    intro i entry hentry
    rw [Log.getElem?_attributed] at hentry
    obtain ⟨e, he, rfl⟩ := Option.map_eq_some_iff.1 hentry
    have hfile : v.sink.fileAt? i = log.fileAt? i := by rw [h]; rfl
    have he' : v.sink.entryAt? i = some e := by rw [h]; exact he
    rw [Nat.zero_add, hfile]
    by_cases hmine : log.fileAt? i = file
    · rw [if_pos hmine, if_pos hmine, View.map_withoutIndex_info? he' (hfile.trans hmine)]
    · rw [if_neg hmine, if_neg hmine]
      rfl
  unfold View.infosOf Ledger.entriesOf
  rw [hsize, List.range_eq_range', map_filterMapM_range' Info.withoutIndex log.attributed hlook,
    filterMapM_ite (fun entry : Entry φ × Option φ => entry.2 = file), List.mapM_map]
  rfl

theorem Session.map_withoutIndex_infosOf (files : φ → SourceFile) (run : List (Addition φ))
    (file : Option φ) (options : InfoOptions) :
    List.map Info.withoutIndex <$> outcomeOf (Session.infosOf file options)
        (Session.afterAdditions files run)
      = ((Ledger.ofAdditions run).entriesOf file).mapM fun e =>
          e.info 0 (Session.afterAdditions files run).view.sources file
            ((Session.afterAdditions files run).view.filename file)
            ((Session.afterAdditions files run).view.table file) options := by
  rw [(yields_infosOf file options).outcomeOf_eq, ← Log.ledger_ofAdditions]
  exact View.map_withoutIndex_infosOf (sink_afterAdditions files run) file options

theorem Session.files_view_afterAdditions (files : φ → SourceFile) (run : List (Addition φ)) :
    (Session.afterAdditions files run).view.files = fun f => (files f).view := by
  unfold view
  rw [files_afterAdditions]

/-- The snapshots of a file, but for their indices, are those in a new log in which the file is
registered and then only what was reported under it is reported, in the same order. In between
some files may have been read; a fault is the same fault. -/
theorem infosOf_interleaved (files files' : φ → SourceFile)
    (h : ∀ f, files' f = files f ∨ files' f = (files f).read) (run : List (Addition φ))
    (file : Option φ) (options : InfoOptions) :
    List.map Info.withoutIndex <$> outcomeOf (Session.infosOf file options)
        (Session.afterAdditions files run)
      = List.map Info.withoutIndex <$> outcomeOf (Session.infosOf file options)
        (Session.afterAdditions files' (.register file :: reportsUnder file none run)) := by
  have hview : (Session.afterAdditions files run).view.files
      = (Session.afterAdditions files' (.register file :: reportsUnder file none run)).view.files
      := by
    rw [Session.files_view_afterAdditions, Session.files_view_afterAdditions]
    funext f
    rcases h f with hf | hf
    · rw [hf]
    · rw [hf, SourceFile.view_read]
  rw [Session.map_withoutIndex_infosOf, Session.map_withoutIndex_infosOf,
    Ledger.entriesOf_ofAdditions_alone]
  unfold View.sources View.filename View.table
  rw [hview]

end Snapshots

/-- Two files, each registered twice, with a report after each registration. -/
def alternatingAdditions : List (Addition Nat) :=
  [.register (some 0),
   .report (some 3) ⟨1000, "Constant expected.", "error"⟩ [],
   .register (some 1),
   .report (some 0) ⟨1001, "{0} expected.", "error"⟩ [.string "Name"],
   .register (some 0),
   .reportNode (some ⟨.identifier, 1, 4⟩) ⟨1002, "Unused {0}.", "warning"⟩ [.string "b"],
   .register (some 1),
   .report none ⟨1003, "Obsolete.", "warning"⟩ []]

theorem infosOf_interleaved_alternating :
    let files : Nat → SourceFile := fun f => { filename := toString f, text := some "ab\ncd" }
    let alone : List (Addition Nat) := [.register (some 0),
      .report (some 3) ⟨1000, "Constant expected.", "error"⟩ [],
      .reportNode (some ⟨.identifier, 1, 4⟩) ⟨1002, "Unused {0}.", "warning"⟩ [.string "b"]]
    (∀ f, (files f).read = files f ∨ (files f).read = (files f).read) ∧
      List.map Info.withoutIndex <$> outcomeOf (Session.infosOf (some 0) { formatMessage := true })
          (Session.afterAdditions files alternatingAdditions)
        = List.map Info.withoutIndex <$> outcomeOf
          (Session.infosOf (some 0) { formatMessage := true })
          (Session.afterAdditions (fun f => (files f).read) alone) := by
  intro files alone
  have h : ∀ f, (files f).read = files f ∨ (files f).read = (files f).read := fun _ => .inr rfl
  exact ⟨h, infosOf_interleaved files (fun f => (files f).read) h alternatingAdditions (some 0)
    { formatMessage := true }⟩

end GrammarDiagnostics
