import GrammarDiagnostics.Proofs.Session.Stability

/-! # Which text a line map is of

A file has no line map until it is first read while it has a text. That text is the one its line map
is of from then on, whatever texts the file is given later, and all that is answered for entries of
the file is counted by its lines.

* `Session.afterMoves`: the session after some moves; `firstTextRead`: the text that a file has at
  the first of them that reads its line map while it has one.
* `Session.text_kept_afterMoves`: this is the text that the line map is of.
* `Session.RendersBy`: entries of a file are answered for by a given line table.
* `Step.kept_of_not_reads`: a simple step that does not read the line map of a file leaves it as it
  is; `files_message`, `files_range?`, `files_table`: those that do read it.
* `lineMap_settled`: all this for every point of every run.
-/

set_option autoImplicit false

namespace GrammarDiagnostics

open Session

variable {φ : Type}

/-! ## The line map after moves -/

theorem SourceFile.text_kept_read (f : SourceFile) :
    f.read.kept.map LineMap.text = (f.kept.map LineMap.text).or f.text := by
  obtain ⟨filename, text, kept⟩ := f
  cases kept with
  | some m => exact congrArg some m.text_read
  | none => cases text <;> rfl

theorem SourceFile.table_of_text_kept {f : SourceFile} {text : String}
    (h : f.kept.map LineMap.text = some text) : f.table = some (LineTable.ofText text) := by
  obtain ⟨m, hm, rfl⟩ := Option.map_eq_some_iff.1 h
  unfold table lineMap
  rw [hm]
  exact congrArg some m.table_eq

/-- Once a file has been read, work that only reads does not undo it. -/
theorem files_bind {α β : Type} {x : Work φ α} {k : α → Work φ β} {f : φ} {file : SourceFile}
    {s : Session φ} (hx : (stateAfter x s).files f = file.read)
    (hk : ∀ a, ∃ outcome, Yields (k a) outcome) :
    (stateAfter (x >>= k) s).files f = file.read := by
  refine stateAfter_bind_cases (P := fun t : Session φ => t.files f = file.read) hx fun a t ht => ?_
  obtain ⟨outcome, hyields⟩ := hk a
  rcases (hyields.read t).files f with hf | hf
  · exact hf.trans ht
  · rw [hf, ht, SourceFile.read_read]

theorem Made.reads {parts : Set (Step φ)} {s : Session φ} {f : φ} (h : Made parts s (.read f)) :
    ∃ part ∈ parts, part.Reads s.sink f := by
  cases h with
  | reading h => cases h with | read h => exact h
  | @changing _ part _ h => cases part <;> exact nomatch h

theorem Step.move?_of_reads {step : Step φ} {sink : Sink φ} {f : φ} (h : step.Reads sink f) :
    step.move? = none := by
  cases step with
  | ask q => rfl
  | forEach each => rfl
  | iterate before each => rfl
  | register file => exact h.elim
  | report pos d args => exact h.elim
  | reportNode node d args => exact h.elim
  | setText g text => exact h.elim
  | rename g filename => exact h.elim

section Moves

variable [DecidableEq φ]

/-- The text of a file when a move reads its line map, if the file has a text then. -/
def Move.textRead (f : φ) (s : Session φ) : Move φ → Option String
  | .read g => if g = f then (s.files f).text else none
  | _ => none

/-- The session after some moves. -/
def Session.afterMoves (s : Session φ) (moves : List (Move φ)) : Session φ :=
  moves.foldl Move.after s

/-- The text that a file has at the first of some moves that reads its line map while the file has
a text. -/
def firstTextRead (f : φ) : Session φ → List (Move φ) → Option String
  | _, [] => none
  | s, m :: moves => (m.textRead f s).or (firstTextRead f (m.after s) moves)

theorem Move.kept_after {f : φ} {m : Move φ} (h : m ≠ .read f) (s : Session φ) :
    ((m.after s).files f).kept = (s.files f).kept := by
  cases m with
  | read g =>
    have hne : f ≠ g := fun heq => h (by rw [heq])
    rw [Move.files_read, if_neg hne]
  | note records => rfl
  | print line => rfl
  | register file => rw [Move.files_register]
  | report e => rw [Move.files_report]
  | setText g text =>
    change (if f = g then _ else _ : SourceFile).kept = _
    by_cases hf : f = g
    · rw [if_pos hf, hf]
    · rw [if_neg hf]
  | rename g filename =>
    change (if f = g then _ else _ : SourceFile).kept = _
    by_cases hf : f = g
    · rw [if_pos hf, hf]
    · rw [if_neg hf]

/-- A move makes a line map only by reading it, of the text that the file has then, and keeps one
that has been made. -/
theorem Move.text_kept_after (f : φ) (s : Session φ) (m : Move φ) :
    ((m.after s).files f).kept.map LineMap.text
      = ((s.files f).kept.map LineMap.text).or (m.textRead f s) := by
  by_cases h : m = .read f
  · rw [h, Move.files_read, if_pos rfl, SourceFile.text_kept_read, Move.textRead, if_pos rfl]
  · have hread : m.textRead f s = none := by
      cases m with
      | read g => exact if_neg fun heq => h (by rw [heq])
      | note records => rfl
      | print line => rfl
      | register file => rfl
      | report e => rfl
      | setText g text => rfl
      | rename g filename => rfl
    rw [Move.kept_after h, hread, Option.or_none]

theorem Session.text_kept_afterMoves (f : φ) (s : Session φ) (moves : List (Move φ)) :
    ((s.afterMoves moves).files f).kept.map LineMap.text
      = ((s.files f).kept.map LineMap.text).or (firstTextRead f s moves) := by
  induction moves generalizing s with
  | nil => exact (Option.or_none).symm
  | cons m moves ih =>
    change (((m.after s).afterMoves moves).files f).kept.map LineMap.text = _
    rw [ih, Move.text_kept_after, Option.or_assoc]
    rfl

theorem Session.Reaches.eq_afterMoves {allowed : Session φ → Move φ → Prop} {s t : Session φ}
    {moves : List (Move φ)} (h : Session.Reaches allowed s moves t) : t = s.afterMoves moves := by
  induction h with
  | refl s => rfl
  | next _ _ ih => exact ih

theorem Session.Reaches.allowed_of_append {allowed : Session φ → Move φ → Prop} {s t : Session φ}
    {earlier later : List (Move φ)} {m : Move φ}
    (h : Session.Reaches allowed s (earlier ++ m :: later) t) :
    allowed (s.afterMoves earlier) m := by
  induction earlier generalizing s with
  | nil => cases h with | next hm _ => exact hm
  | cons _ earlier ih => cases h with | next _ rest => exact ih rest

/-! ## Rendering by a line table -/

/-- In a session, detailed messages, ranges, snapshots and line starts of a file are those of a
given line table. -/
structure Session.RendersBy (s : Session φ) (f : φ) (table : LineTable) : Prop where
  message : ∀ {index : Int} {e : Entry φ}, s.sink.entryAt? index = some e →
    s.sink.fileAt? index = some f → outcomeOf (message index true) s
      = e.message s.view.sources (s.files f).filename (some table) true
  range : ∀ {index : Int} {e : Entry φ}, s.sink.entryAt? index = some e →
    s.sink.fileAt? index = some f → outcomeOf (range? index) s = .ok (some (e.range (some table)))
  info : ∀ {index : Int} {e : Entry φ} (options : InfoOptions), s.sink.entryAt? index = some e →
    s.sink.fileAt? index = some f → outcomeOf (info? index options) s
      = some <$> e.info index s.view.sources (some f) (s.files f).filename (some table) options
  lineStarts : outcomeOf (Query.lineStarts f).run s = .ok (.lineStarts (some table.starts.toList))

theorem Session.rendersBy_of_table {s : Session φ} {f : φ} {table : LineTable}
    (h : (s.files f).table = some table) : s.RendersBy f table where
  message := fun {index e} he hf => by
    rw [(yields_message index true).outcomeOf_eq, View.message_of_entryAt? he]
    change e.message s.view.sources (s.view.filename (s.sink.fileAt? index))
      (s.view.table (s.sink.fileAt? index)) true = _
    rw [hf]
    exact congrArg (e.message s.view.sources (s.files f).filename · true) h
  range := fun {index e} he hf => by
    rw [(yields_range? index).outcomeOf_eq, View.range?_of_entryAt? he]
    exact congrArg (fun table => Except.ok (some (e.range table)))
      ((congrArg s.view.table hf).trans h)
  info := fun {index e} options he hf => by
    rw [(yields_info? index options).outcomeOf_eq, View.info?_of_entryAt? he]
    change some <$> e.info index s.view.sources (s.sink.fileAt? index)
      (s.view.filename (s.sink.fileAt? index)) (s.view.table (s.sink.fileAt? index)) options = _
    rw [hf]
    exact congrArg (some <$> e.info index s.view.sources (some f) (s.files f).filename · options) h
  lineStarts := by
    rw [(yields_query _).outcomeOf_eq]
    exact congrArg (fun table => Except.ok (Answer.lineStarts (table.map (·.starts.toList)))) h

/-! ## Who reads a line map -/

theorem Made.sink_after {step : Step φ} {s : Session φ} {m : Move φ} (hm : Made {step} s m)
    (h : step.move? = none) : (m.after s).sink = s.sink := by
  cases hm with
  | reading hm => exact hm.sink_after
  | printing _ => rfl
  | changing hpart hmove =>
    rw [Set.mem_singleton_iff.1 hpart, h] at hmove
    exact nomatch hmove

/-- A step without callbacks leaves every line map as it is, but for those that it may read. -/
theorem Step.kept_of_not_reads {step : Step φ} (hsimple : step.parts = {step}) {s : Session φ}
    {f : φ} (h : ¬ step.Reads s.sink f) :
    ((stateAfter step.run s).files f).kept = (s.files f).kept := by
  obtain ⟨moves, hmoves⟩ := Step.goes step s
  rw [hsimple] at hmoves
  -- A step that reads leaves the log alone, so that what it may read is told by the log before it.
  have hinv := hmoves.and_invariant (P := fun t => step.move? = none → t.sink = s.sink)
    (fun _ => rfl) fun t m ht hm hnone => (hm.sink_after hnone).trans (ht hnone)
  refine hinv.keeps (R := fun t u => (u.files f).kept = (t.files f).kept) (fun _ => rfl)
    (fun htu huv => huv.trans htu) fun t m hm => Move.kept_after ?_ t
  rintro rfl
  obtain ⟨hsink, hm⟩ := hm
  obtain ⟨part, hpart, hreads⟩ := hm.reads
  rw [Set.mem_singleton_iff.1 hpart] at hreads
  exact h (hsink (Step.move?_of_reads hreads) ▸ hreads)

theorem files_table (f : φ) (s : Session φ) :
    (stateAfter (table f) s).files f = (s.files f).read :=
  (Move.files_read f s f).trans (if_pos rfl)

theorem files_place (f : φ) (pos : Int) (s : Session φ) :
    (stateAfter (place (some f) pos) s).files f = (s.files f).read := by
  refine files_bind (files_table f s) fun table => ?_
  cases table with
  | none => exact ⟨_, (Yields.ofExcept _).bind fun text => Yields.pure _⟩
  | some table => exact ⟨_, (Yields.ofExcept _).bind fun text => Yields.pure _⟩

theorem files_heading {e : Entry φ} {pos : Int} (hpos : e.pos = some pos) (f : φ) (s : Session φ) :
    (stateAfter (heading (some f) e) s).files f = (s.files f).read := by
  have hrun : stateAfter (heading (some f) e) s = stateAfter (do
      let location ← place (some f) pos
      let label ← MonadExcept.ofExcept (Diagnostic.label e.diagnostic.code)
      return (s.files f).filename ++ location ++ ": " ++ e.diagnostic.severity ++ " " ++ label
        ++ ": ") s := by
    unfold heading
    rw [hpos]
    rfl
  rw [hrun]
  exact files_bind (files_place f pos s) fun location =>
    ⟨_, (Yields.ofExcept _).bind fun label => Yields.pure _⟩

/-- The detailed message of an entry with an offset reads the line map of the file of the entry. -/
theorem files_message {s : Session φ} {index : Int} {f : φ} (h : s.sink.Locates index f) :
    (stateAfter (message index true) s).files f = (s.files f).read := by
  obtain ⟨e, he, hpos, hf⟩ := h
  obtain ⟨pos, hpos⟩ := Option.isSome_iff_exists.1 hpos
  obtain ⟨log, hlog⟩ := Sink.exists_log he
  rw [hlog] at he hf
  have hrun : Recording.message log index true = (do
      let front ← heading (some f) e
      return front ++ (← wording e)) := by
    unfold Recording.message
    rw [show log.entryAt? index = some e from he, show log.fileAt? index = some f from hf]
    rfl
  have hmessage : message index true s = Recording.message log index true s :=
    dispatch_of_recording hlog
  rw [stateAfter_congr hmessage, hrun]
  exact files_bind (files_heading hpos f s) fun front =>
    ⟨_, (yields_wording e).bind fun text => Yields.pure _⟩

/-- The range of an entry reads the line map of the file of the entry. -/
theorem files_range? {s : Session φ} {index : Int} {f : φ} (h : s.sink.Attributes index f) :
    (stateAfter (range? index) s).files f = (s.files f).read := by
  obtain ⟨e, he, hf⟩ := h
  obtain ⟨log, hlog⟩ := Sink.exists_log he
  rw [hlog] at he hf
  have hrun : Recording.range? log index = (do
      let start ← position (some f) (bounds e).1
      let stop ← position (some f) (bounds e).2
      return some (Range.mk start stop)) := by
    unfold Recording.range?
    rw [show log.entryAt? index = some e from he, show log.fileAt? index = some f from hf]
  have hrange : range? index s = Recording.range? log index s := dispatch_of_recording hlog
  rw [stateAfter_congr hrange, hrun]
  have hstart : (stateAfter (position (some f) (bounds e).1) s).files f = (s.files f).read := by
    refine files_bind (files_table f s) fun table => ?_
    cases table <;> exact ⟨_, Yields.pure _⟩
  exact files_bind hstart fun start =>
    ⟨_, (yields_position (some f) (bounds e).2).bind fun stop => Yields.pure _⟩

/-- In a run on files that have no line maps yet, the line map of a file is at every moment one of
the text that the file had when its line map was first read while there was a text, and there is
none before. From then on the entries of the file are answered for by the lines of that text. Only
what `Step.Reads` names reads a line map, and the detailed message of an entry with an offset, the
range of an entry, and the line table itself do read it. -/
theorem lineMap_settled (filename : φ → String) (text : φ → Option String) (run : List (Step φ))
    (f : φ) :
    let s := recording fun g => { filename := filename g, text := text g }
    (∃ moves, s.Course run moves ∧
      (∀ before after, run = before ++ after →
        ∃ earlier later, moves = earlier ++ later ∧ afterRun before s = s.afterMoves earlier) ∧
      (∀ earlier later, moves = earlier ++ .read f :: later →
        ∃ part ∈ Step.partsAll run, part.Reads (s.afterMoves earlier).sink f) ∧
      ∀ earlier later, moves = earlier ++ later →
        ((s.afterMoves earlier).files f).kept.map LineMap.text = firstTextRead f s earlier ∧
          ∀ T, firstTextRead f s earlier = some T →
            (s.afterMoves earlier).RendersBy f (LineTable.ofText T)) ∧
    (∀ (t : Session φ) (step : Step φ), step.parts = {step} → ¬ step.Reads t.sink f →
      ((stateAfter step.run t).files f).kept = (t.files f).kept) ∧
    (∀ (t : Session φ) (index : Int), t.sink.Locates index f →
      (stateAfter (message index true) t).files f = (t.files f).read) ∧
    (∀ (t : Session φ) (index : Int), t.sink.Attributes index f →
      (stateAfter (range? index) t).files f = (t.files f).read) ∧
    ∀ t : Session φ, (stateAfter (table f) t).files f = (t.files f).read := by
  intro s
  obtain ⟨moves, hcourse⟩ := exists_course run s
  refine ⟨⟨moves, hcourse, ?_, ?_, ?_⟩, fun t step hsimple => Step.kept_of_not_reads hsimple,
    fun t index => files_message, fun t index => files_range?, files_table f⟩
  · rintro before after rfl
    obtain ⟨earlier, later, hmoves, hbefore⟩ := hcourse.split
    exact ⟨earlier, later, hmoves, hbefore.reaches.eq_afterMoves⟩
  · rintro earlier later rfl
    exact hcourse.reaches.allowed_of_append.reads
  · rintro earlier later rfl
    have hkept := text_kept_afterMoves f s earlier
    exact ⟨hkept, fun T hT => rendersBy_of_table (SourceFile.table_of_text_kept (hkept.trans hT))⟩

end Moves

end GrammarDiagnostics
