import GrammarDiagnostics.Proofs.Session.Moments

/-! # The sink that discards

A session on the sink that discards goes on like a session on a log that nothing is ever added to.
The two have little in common: a log looks up its entries and goes through them, and the sink that
discards has one answer for everything.

* `Step.isAddition`: registrations and reports; `Step.dropAdditions`: a series of steps without
  them; `Step.ofOthers`: the results of the other steps of a series.
* `Session.Recording.message_empty` and so on: on a log with nothing in it, what a log does is what
  the sink that discards does.
* `Session.Idle`: a session on the sink that discards, or on such a log; `Query.run_of_idle`: what a
  question is answered then, and that nothing is done for it.
* `Session.Twins`: the same session on the sink that discards and on a log with nothing in it;
  `Step.twins`, `Step.twinsAll`, `Session.Twins.results`: twins stay twins, and do the same.
* `Session.Discards`: what is known of all that can be done with the sink that discards.
* `discarding_run`: this holds at every moment of every run.
-/

set_option autoImplicit false

namespace GrammarDiagnostics

open Session

variable {φ α : Type}

/-! ## Steps that add -/

def Step.isAddition : Step φ → Bool
  | .register _ | .report _ _ _ | .reportNode _ _ _ => true
  | _ => false

mutual

/-- A step whose callbacks add nothing. -/
def Step.withoutAdditions : Step φ → Step φ
  | .forEach each => .forEach fun text index => Step.dropAdditions (each text index)
  | .iterate before each =>
    .iterate (Step.dropAdditions before) fun info => Step.dropAdditions (each info)
  | step => step

/-- The steps of a series that are no additions, without those of their callbacks. -/
def Step.dropAdditions : List (Step φ) → List (Step φ)
  | [] => []
  | step :: steps =>
    if step.isAddition then Step.dropAdditions steps
    else step.withoutAdditions :: Step.dropAdditions steps

end

/-- Given one thing for each step, those for the steps that are no additions. -/
def Step.ofOthers : List (Step φ) → List α → List α
  | step :: steps, a :: as =>
    if step.isAddition then Step.ofOthers steps as else a :: Step.ofOthers steps as
  | _, _ => []

/-! ## A log with nothing in it -/

theorem Log.entryAt?_empty (index : Int) : (empty : Log φ).entryAt? index = none := by
  rcases Int.lt_or_le index 0 with hneg | hpos
  · exact entryAt?_eq_none_of_neg _ hneg
  · exact entryAt?_of_size_le _ hpos

theorem Log.fileAt?_empty (index : Int) : (empty : Log φ).fileAt? index = none := by
  rcases Int.lt_or_le index 0 with hneg | hpos
  · exact fileAt?_of_neg _ hneg
  · exact fileAt?_of_size_le _ hpos

namespace Session.Recording

variable [DecidableEq φ]

theorem message_empty (index : Int) (detailed : Bool) :
    message (.empty : Log φ) index detailed = Discarding.message index detailed := by
  unfold message
  rw [Log.entryAt?_empty]
  rfl

theorem range?_empty (index : Int) :
    range? (.empty : Log φ) index = Discarding.range? index := by
  unfold range?
  rw [Log.entryAt?_empty]
  rfl

theorem info?_empty (index : Int) (options : InfoOptions) :
    info? (.empty : Log φ) index options = Discarding.info? index options := by
  unfold info?
  rw [Log.entryAt?_empty]
  rfl

theorem infos_empty (options : InfoOptions) :
    infos (.empty : Log φ) options = Discarding.infos options := rfl

theorem infosOf_empty (file : Option φ) (options : InfoOptions) :
    infosOf (.empty : Log φ) file options = Discarding.infosOf file options := rfl

theorem forEach_empty (callback : String → Nat → Work φ α) :
    forEach (.empty : Log φ) callback = Discarding.forEach callback := rfl

theorem iterate_empty (each : Info φ → Work φ Unit) :
    iterate (.empty : Log φ) each = Discarding.iterate each := rfl

end Session.Recording

/-! ## Sessions on nothing -/

/-- The session is on the sink that discards, or on a log with nothing in it. -/
def Session.Idle (s : Session φ) : Prop := s.sink = .discarding ∨ s.sink = .recording .empty

/-- Work that both sinks do is done as the sink that discards does it, if that is how a log does it
that has nothing in it. -/
theorem dispatch_of_idle {s : Session φ} (h : s.Idle) {recording : Log φ → Work φ α}
    {discarding : Work φ α} (hempty : recording .empty = discarding) :
    dispatch recording discarding s = discarding s := by
  rcases h with h | h
  · exact dispatch_of_discarding h
  · rw [dispatch_of_recording h, hempty]

/-- The answer where there are no entries and no files. -/
def Query.nothing : Query φ → Answer φ
  | .size => .size 0
  | .message _ _ => .text ""
  | .diagnostic _ => .diagnostic none
  | .arguments _ => .arguments none
  | .node _ => .node none
  | .pos _ => .pos none
  | .file _ => .file none
  | .range _ => .range none
  | .info _ _ => .info none
  | .infoLiteral _ _ => .text Literal.none
  | .infos _ | .infosOf _ _ => .infos []
  | .hasErrors => .flag false
  | .collect _ => .texts []
  | .dump => .text ""
  | .lineStarts _ => .lineStarts none

section Idle

variable {s : Session φ}

theorem size_of_idle (h : s.Idle) : size s = .ok 0 s := dispatch_of_idle h rfl

theorem indices_of_idle (h : s.Idle) : indices s = .ok [] s := bind_of_ok (size_of_idle h)

/-- Of an entry that is not held there is nothing to be told. -/
theorem held_of_idle (h : s.Idle) (index : Int) (part : Option (Entry φ) → α) :
    dispatch (fun log => return part (log.entryAt? index)) (return part none) s
      = .ok (part none) s := by
  refine dispatch_of_idle h ?_
  rw [Log.entryAt?_empty]

theorem diagnostic_of_idle (h : s.Idle) (index : Int) : diagnostic index s = .ok none s :=
  held_of_idle h index (Option.map Entry.diagnostic)

theorem arguments_of_idle (h : s.Idle) (index : Int) : arguments index s = .ok none s :=
  held_of_idle h index fun held => held.bind Entry.arguments?

theorem node_of_idle (h : s.Idle) (index : Int) : node index s = .ok none s :=
  held_of_idle h index fun held => held.bind Entry.node

theorem pos_of_idle (h : s.Idle) (index : Int) : pos index s = .ok none s :=
  held_of_idle h index fun held => held.bind Entry.pos

theorem fileAt?_of_idle (h : s.Idle) (index : Int) : fileAt? index s = .ok none s := by
  refine dispatch_of_idle h ?_
  rw [Log.fileAt?_empty]
  rfl

variable [DecidableEq φ]

theorem message_of_idle (h : s.Idle) (index : Int) (detailed : Bool) :
    message index detailed s = .ok "" s :=
  dispatch_of_idle h (Recording.message_empty index detailed)

theorem range?_of_idle (h : s.Idle) (index : Int) : range? index s = .ok none s :=
  dispatch_of_idle h (Recording.range?_empty index)

theorem info?_of_idle (h : s.Idle) (index : Int) (options : InfoOptions) :
    info? index options s = .ok none s :=
  dispatch_of_idle h (Recording.info?_empty index options)

theorem infos_of_idle (h : s.Idle) (options : InfoOptions) : infos options s = .ok [] s :=
  dispatch_of_idle h (Recording.infos_empty options)

theorem infosOf_of_idle (h : s.Idle) (file : Option φ) (options : InfoOptions) :
    infosOf file options s = .ok [] s :=
  dispatch_of_idle h (Recording.infosOf_empty file options)

/-- Where nothing is held, a callback is not called. -/
theorem forEach_of_idle (h : s.Idle) (callback : String → Nat → Work φ α) :
    forEach callback s = .ok [] s :=
  dispatch_of_idle h (Recording.forEach_empty callback)

theorem iterate_of_idle {before : Work φ Unit} {s' : Session φ} (hbefore : before s = .ok () s')
    (h : s'.Idle) (each : Info φ → Work φ Unit) : iterate before each s = .ok [] s' :=
  (bind_of_ok hbefore).trans (dispatch_of_idle h (Recording.iterate_empty each))

theorem collect_of_idle (h : s.Idle) (detailed : Bool) : collect detailed s = .ok [] s := by
  cases detailed with
  | true => exact forEach_of_idle h _
  | false => exact bind_of_ok (indices_of_idle h)

theorem dump_of_idle (h : s.Idle) : dump s = .ok () s := bind_of_ok (forEach_of_idle h _)

/-- Where nothing is held, no question does anything, but for that about the lines of a file. -/
theorem Query.run_of_idle (h : s.Idle) {q : Query φ} (hq : ∀ f, q ≠ .lineStarts f) :
    q.run s = .ok q.nothing s := by
  cases q with
  | size => exact bind_of_ok (size_of_idle h)
  | message index detailed => exact bind_of_ok (message_of_idle h index detailed)
  | diagnostic index => exact bind_of_ok (diagnostic_of_idle h index)
  | arguments index => exact bind_of_ok (arguments_of_idle h index)
  | node index => exact bind_of_ok (node_of_idle h index)
  | pos index => exact bind_of_ok (pos_of_idle h index)
  | file index => exact bind_of_ok (fileAt?_of_idle h index)
  | range index => exact bind_of_ok (range?_of_idle h index)
  | info index options => exact bind_of_ok (info?_of_idle h index options)
  | infoLiteral index options => exact bind_of_ok (info?_of_idle h index options)
  | infos options => exact bind_of_ok (infos_of_idle h options)
  | infosOf f options => exact bind_of_ok (infosOf_of_idle h f options)
  | hasErrors => exact bind_of_ok (bind_of_ok (indices_of_idle h))
  | collect detailed => exact bind_of_ok (collect_of_idle h detailed)
  | dump =>
    have hdropped : s.printed.toList.drop s.printed.size = [] :=
      List.drop_eq_nil_of_le (Nat.le_of_eq Array.length_toList)
    have hdump : Query.dump.run s
        = .ok (.text (String.join (s.printed.toList.drop s.printed.size))) s :=
      bind_of_ok (dump_of_idle h)
    rw [hdump, hdropped]
    rfl
  | lineStarts f => exact absurd rfl (hq f)

end Idle

/-- With nothing held, no line map is read but by asking for the lines of a file. -/
theorem Step.eq_lineStarts_of_reads {step : Step φ} {f : φ} (h : step.Reads .discarding f) :
    step = .ask (.lineStarts f) := by
  have hattributes {index : Int} : ¬ (Sink.discarding : Sink φ).Attributes index f := by
    rintro ⟨e, he, _⟩
    exact nomatch he
  have hlocates {index : Int} : ¬ (Sink.discarding : Sink φ).Locates index f :=
    fun hlocates => hattributes hlocates.attributes
  cases step with
  | ask q =>
    cases q with
    | message index detailed => exact absurd h.2 hlocates
    | range index => exact absurd h hattributes
    | info index options => exact absurd h hattributes
    | infoLiteral index options => exact absurd h hattributes
    | infos options => exact h.elim fun _ hindex => absurd hindex hattributes
    | infosOf g options => exact h.2.elim fun _ hindex => absurd hindex hattributes
    | collect detailed => exact h.2.elim fun _ hindex => absurd hindex hlocates
    | dump => exact h.elim fun _ hindex => absurd hindex hlocates
    | lineStarts g => exact congrArg (fun g => Step.ask (.lineStarts g)) h
    | _ => exact h.elim
  | forEach each => exact h.elim fun _ hindex => absurd hindex hlocates
  | iterate before each => exact h.elim fun _ hindex => absurd hindex hattributes
  | _ => exact h.elim

/-! ## Twins -/

/-- The same session on the sink that discards and on a log with nothing in it. What has been
printed does not matter. -/
structure Session.Twins (s t : Session φ) : Prop where
  discarding : s.sink = .discarding
  recording : t.sink = .recording .empty
  files : t.files = s.files
  journal : t.journal = s.journal

theorem Session.Twins.idle_left {s t : Session φ} (h : Twins s t) : s.Idle := .inl h.discarding

theorem Session.Twins.idle_right {s t : Session φ} (h : Twins s t) : t.Idle := .inr h.recording

theorem Session.twins_start (files : φ → SourceFile) :
    Twins (Session.discarding files) (Session.recording files) :=
  ⟨rfl, rfl, rfl, rfl⟩

theorem Session.Twins.recordsSince {s t s' t' : Session φ} (h : Twins s t) (h' : Twins s' t') :
    Session.recordsSince t t' = Session.recordsSince s s' := by
  unfold Session.recordsSince
  rw [h.journal, h'.journal]

section Steps

variable [DecidableEq φ]

/-- An addition is discarded without a fault, a registration of no file too. -/
theorem Step.run_of_isAddition {step : Step φ} (hadd : step.isAddition = true) {s : Session φ}
    (h : s.sink = .discarding) : step.run s = .ok .done s := by
  obtain ⟨files, sink, journal, printed⟩ := s
  obtain rfl : sink = .discarding := h
  cases step with
  | register file => rfl
  | report pos d args => rfl
  | reportNode node d args => rfl
  | _ => exact nomatch hadd

theorem Session.Twins.table {s t : Session φ} (h : Twins s t) (f : φ) :
    ∃ found s' t', Session.table f s = .ok found s' ∧ Session.table f t = .ok found t' ∧
      Twins s' t' := by
  obtain ⟨files, sink, journal, printed⟩ := s
  obtain ⟨files', sink', journal', printed'⟩ := t
  obtain ⟨rfl, rfl, rfl, rfl⟩ := h
  refine ⟨_, _, _, Session.table_eq f _, Session.table_eq f _, ?_⟩
  split
  · exact ⟨rfl, rfl, rfl, rfl⟩
  · exact ⟨rfl, rfl, rfl, rfl⟩

mutual

/-- On twins a step has the same answer, if it is no addition, and it leaves twins. -/
theorem Step.twins (step : Step φ) (hadd : step.isAddition = false) {s t : Session φ}
    (h : s.Twins t) : ∃ answer s' t', step.run s = .ok answer s' ∧
      step.withoutAdditions.run t = .ok answer t' ∧ s'.Twins t' := by
  have hs := h.idle_left
  have ht := h.idle_right
  cases step with
  | ask q =>
    by_cases hq : ∃ f, q = .lineStarts f
    · obtain ⟨f, rfl⟩ := hq
      obtain ⟨found, s', t', hs', ht', htwins⟩ := h.table f
      exact ⟨_, s', t', bind_of_ok hs', bind_of_ok ht', htwins⟩
    · have hq' : ∀ f, q ≠ .lineStarts f := fun f heq => hq ⟨f, heq⟩
      exact ⟨q.nothing, s, t, Query.run_of_idle hs hq', Query.run_of_idle ht hq', h⟩
  | register file => exact nomatch hadd
  | report pos d args => exact nomatch hadd
  | reportNode node d args => exact nomatch hadd
  | setText f text =>
    refine ⟨.done, _, _, rfl, rfl, h.discarding, h.recording, ?_, h.journal⟩
    exact congrArg (fun files g => if g = f then { files f with text } else files g) h.files
  | rename f filename =>
    refine ⟨.done, _, _, rfl, rfl, h.discarding, h.recording, ?_, h.journal⟩
    exact congrArg (fun files g => if g = f then { files f with filename } else files g) h.files
  | forEach each =>
    -- Neither side calls back, so nothing need be known of the steps of the callback.
    exact ⟨.messages [], s, t, bind_of_ok (forEach_of_idle hs _),
      bind_of_ok (forEach_of_idle ht _), h⟩
  | iterate before each =>
    obtain ⟨answers, s', t', hbefore, hbefore', h'⟩ := Step.twinsAll before h
    have hunit : (do let _ ← Step.runAll before : Work φ Unit) s = .ok () s' := bind_of_ok hbefore
    have hunit' :
        (do let _ ← Step.runAll (Step.dropAdditions before) : Work φ Unit) t = .ok () t' :=
      bind_of_ok hbefore'
    exact ⟨.infos [], s', t', bind_of_ok (iterate_of_idle hunit h'.idle_left _),
      bind_of_ok (iterate_of_idle hunit' h'.idle_right _), h'⟩

theorem Step.twinsAll (steps : List (Step φ)) {s t : Session φ} (h : s.Twins t) :
    ∃ answers s' t', Step.runAll steps s = .ok answers s' ∧
      Step.runAll (Step.dropAdditions steps) t = .ok (Step.ofOthers steps answers) t' ∧
      s'.Twins t' := by
  cases steps with
  | nil => exact ⟨[], s, t, rfl, rfl, h⟩
  | cons step steps =>
    cases hadd : step.isAddition with
    | true =>
      obtain ⟨answers, s', t', hs', ht', h'⟩ := Step.twinsAll steps h
      have hstep := Step.run_of_isAddition hadd h.discarding
      refine ⟨.done :: answers, s', t', (bind_of_ok hstep).trans (bind_of_ok hs'), ?_, h'⟩
      rw [Step.dropAdditions, hadd, if_pos rfl, Step.ofOthers, hadd, if_pos rfl]
      exact ht'
    | false =>
      obtain ⟨answer, s', t', hs', ht', h'⟩ := Step.twins step hadd h
      obtain ⟨answers, s'', t'', hs'', ht'', h''⟩ := Step.twinsAll steps h'
      refine ⟨answer :: answers, s'', t'', (bind_of_ok hs').trans (bind_of_ok hs''), ?_, h''⟩
      rw [Step.dropAdditions, hadd, if_neg Bool.false_ne_true, Step.ofOthers, hadd,
        if_neg Bool.false_ne_true]
      exact (bind_of_ok ht').trans (bind_of_ok ht'')

end

/-! ## Runs -/

/-- What the steps of a run end in, each with the records made meanwhile. -/
def Session.results (run : List (Step φ)) (s : Session φ) : List (Outcome φ × List Record) :=
  (perform (run.map fun step => [step]) s).1

theorem Session.results_cons (step : Step φ) (run : List (Step φ)) (s : Session φ) :
    results (step :: run) s = ((fun answer => [answer]) <$> outcomeOf step.run s,
      Session.recordsSince s (stateAfter step.run s)) :: results run (stateAfter step.run s) := by
  simp only [results, List.map_cons, perform, attempt_singleton]

theorem Session.Twins.results {s t : Session φ} (h : Twins s t) (run : List (Step φ)) :
    Step.ofOthers run (Session.results run s) = Session.results (Step.dropAdditions run) t ∧
      (afterRun run s).Twins (afterRun (Step.dropAdditions run) t) := by
  induction run generalizing s t with
  | nil => exact ⟨rfl, h⟩
  | cons step run ih =>
    rw [results_cons, afterRun_cons, Step.ofOthers, Step.dropAdditions]
    cases hadd : step.isAddition with
    | true =>
      rw [stateAfter_of_ok (Step.run_of_isAddition hadd h.discarding), if_pos rfl, if_pos rfl]
      exact ih h
    | false =>
      obtain ⟨answer, s', t', hs', ht', h'⟩ := Step.twins step hadd h
      obtain ⟨hresults, htwins⟩ := ih h'
      rw [if_neg Bool.false_ne_true, if_neg Bool.false_ne_true, results_cons, afterRun_cons,
        stateAfter_of_ok hs', stateAfter_of_ok ht', outcomeOf_of_ok hs', outcomeOf_of_ok ht',
        h.recordsSince h', hresults]
      exact ⟨rfl, htwins⟩

/-! ## The moments of a run -/

theorem Move.discarding_after {s : Session φ} (h : s.sink = .discarding) (m : Move φ) :
    (m.after s).sink = .discarding := by
  obtain ⟨files, sink, journal, printed⟩ := s
  obtain rfl : sink = .discarding := h
  cases m with
  | read f => exact Move.sink_read f _
  | _ => rfl

theorem Step.kept_of_discarding {step : Step φ} {f : φ}
    (hstep : .ask (.lineStarts f) ∉ step.parts) {u : Session φ} (hu : u.sink = .discarding) :
    ((stateAfter step.run u).files f).kept = (u.files f).kept := by
  obtain ⟨moves, hmoves⟩ := Step.goes step u
  have hinv := hmoves.and_invariant (P := fun v => v.sink = .discarding) hu
    fun v m hv _ => Move.discarding_after hv m
  refine hinv.keeps (R := fun v w => (w.files f).kept = (v.files f).kept) (fun _ => rfl)
    (fun huv hvw => hvw.trans huv) fun v m hm => Move.kept_after ?_ v
  rintro rfl
  obtain ⟨hsink, hm⟩ := hm
  obtain ⟨part, hpart, hreads⟩ := hm.reads
  rw [hsink] at hreads
  rw [Step.eq_lineStarts_of_reads hreads] at hpart
  exact hstep hpart

/-- What can be done in a session on the sink that discards: additions and questions do nothing, no
callback is called, no line map is made but by asking for the lines of the file, and nothing
fails. -/
structure Session.Discards (u : Session φ) : Prop where
  addition : ∀ step : Step φ, step.isAddition = true → step.run u = .ok .done u
  ask : ∀ q : Query φ, (∀ f, q ≠ .lineStarts f) → q.run u = .ok q.nothing u
  forEach : ∀ callback : String → Nat → Work φ Unit, Session.forEach callback u = .ok [] u
  iterate : ∀ (before : List (Step φ)) (each : Info φ → Work φ Unit), ∃ answers u',
    Step.runAll before u = .ok answers u' ∧
      Session.iterate (do let _ ← Step.runAll before) each u = .ok [] u'
  kept : ∀ (step : Step φ) (f : φ), .ask (.lineStarts f) ∉ step.parts →
    ((stateAfter step.run u).files f).kept = (u.files f).kept
  succeeds : ∀ step : Step φ, ∃ answer u', step.run u = .ok answer u'

theorem Session.discards_of_discarding {u : Session φ} (hu : u.sink = .discarding) :
    u.Discards := by
  have hidle : u.Idle := .inl hu
  have htwins : u.Twins { u with sink := .recording .empty } := ⟨hu, rfl, rfl, rfl⟩
  refine ⟨fun step hadd => Step.run_of_isAddition hadd hu, fun q hq => Query.run_of_idle hidle hq,
    fun callback => forEach_of_idle hidle callback, fun before each => ?_,
    fun step f hstep => Step.kept_of_discarding hstep hu, fun step => ?_⟩
  · obtain ⟨answers, u', t', hbefore, _, h'⟩ := Step.twinsAll before htwins
    have hunit : (do let _ ← Step.runAll before : Work φ Unit) u = .ok () u' := bind_of_ok hbefore
    exact ⟨answers, u', hbefore, iterate_of_idle hunit h'.idle_left each⟩
  · cases hadd : step.isAddition with
    | true => exact ⟨.done, u, Step.run_of_isAddition hadd hu⟩
    | false =>
      obtain ⟨answer, u', t', hstep, _, _⟩ := Step.twins step hadd htwins
      exact ⟨answer, u', hstep⟩

theorem Session.discarding_afterMoves {s : Session φ} (h : s.sink = .discarding)
    (moves : List (Move φ)) : (s.afterMoves moves).sink = .discarding := by
  induction moves generalizing s with
  | nil => exact h
  | cons m moves ih => exact ih (Move.discarding_after h m)

/-- A run on the sink that discards is the run without its additions, those of callbacks included,
on a log with nothing in it: every other step ends alike and notes the same, the files are left
alike, and a series of steps that is done next is answered alike. At every moment of the run, those
of callbacks included, nothing that can be done adds anything, calls back, makes a line map unasked
or fails. -/
theorem discarding_run (files : φ → SourceFile) (run : List (Step φ)) :
    let s := Session.discarding files
    let t := Session.recording files
    Step.ofOthers run (Session.results run s) = Session.results (Step.dropAdditions run) t ∧
      (afterRun run s).files = (afterRun (Step.dropAdditions run) t).files ∧
      (∀ steps, ∃ answers, outcomeOf (Step.runAll steps) (afterRun run s) = .ok answers ∧
        outcomeOf (Step.runAll (Step.dropAdditions steps)) (afterRun (Step.dropAdditions run) t)
          = .ok (Step.ofOthers steps answers)) ∧
      ∀ u, Moment run s u → u.Discards := by
  intro s t
  obtain ⟨hresults, htwins⟩ := (twins_start files).results run
  refine ⟨hresults, htwins.files.symm, fun steps => ?_, fun u hu => ?_⟩
  · obtain ⟨answers, s', t', hs', ht', _⟩ := Step.twinsAll steps htwins
    exact ⟨answers, outcomeOf_of_ok hs', outcomeOf_of_ok ht'⟩
  · obtain ⟨moves, _, hpasses⟩ := exists_trace run s
    obtain ⟨earlier, later, _, rfl⟩ := hpasses u hu
    exact discards_of_discarding (discarding_afterMoves rfl earlier)

end Steps

/-- A report, a registration of no file, and questions about the log and about a file. -/
example : outcomes (φ := Nat)
    [.report (some 2) ⟨1009, "Obsolete.", "warning"⟩ [],
     .register none,
     .iterate [.reportNode none ⟨1000, "Constant expected.", "error"⟩ []] fun _ => [.register none],
     .ask (.message 0 true),
     .ask (.lineStarts 0)]
    (Session.discarding fun _ => { filename := "a", text := some "b\nc" })
      = [.ok [.done], .ok [.done], .ok [.infos []], .ok [.text ""],
         .ok [.lineStarts (some [0, 2])]] := by
  cbv

end GrammarDiagnostics
