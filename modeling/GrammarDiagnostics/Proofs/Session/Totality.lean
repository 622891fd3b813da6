import GrammarDiagnostics.Proofs.Message.Filling
import GrammarDiagnostics.Proofs.Session.Agreement
import GrammarDiagnostics.Proofs.Session.Moments

/-! # When nothing fails

A message fails if its template is filled and has a placeholder with more digits than are read, or
if its code and place are printed and one of their numbers has more digits than are written.
Registering no file fails. Nothing else does, as long as the arguments have texts.

* `Entry.overlong?`, `Entry.wording_eq`: the placeholder that keeps an entry from being worded.
* `Entry.Printable`: code and place can be written; `Entry.exists_message_iff`: when a detailed
  message can be rendered; `Entry.Small.printable`: its numbers can be written if code, offset and
  text are not enormous.
* `Session.Renderable`: sessions in which all can be rendered; `Step.Safe`: simple steps that keep
  them so, `Session.Renderable.after`.
* `Succeeds`: work that succeeds in all those sessions; `Step.succeeds`: steps made of safe ones do.
* `Query.gives_of_rendersNone`: questions that fail in no session; `Session.tellsMessages`: when a
  message does.
* `run_total`: runs, and what is done at the moments of a run; `message_overlong`: a message that
  fails.
-/

set_option autoImplicit false

namespace GrammarDiagnostics

open Session

variable {φ α β : Type}

/-! ## One entry -/

namespace Entry

/-- The first placeholder that cannot be read when the message of an entry is filled. -/
def overlong? (e : Entry φ) : Option Placeholder :=
  if e.arguments.isEmpty then none else (Template.ofString e.diagnostic.message).overlong?

/-- The message of an entry, filled when there are arguments. -/
def filled (e : Entry φ) (files : φ → SourceFile) : String :=
  if e.arguments.isEmpty then e.diagnostic.message
  else (Template.ofString e.diagnostic.message).fill fun p =>
    argumentText files e.arguments p.index

theorem wording_eq (e : Entry φ) (files : φ → SourceFile) :
    e.wording files = match e.overlong? with
      | some p => .error (.placeholderTooLong p.digits.length)
      | none => .ok (e.filled files) := by
  unfold wording overlong? filled
  rw [e.arguments?_eq, nonempty?]
  cases e.arguments.isEmpty with
  | true => rfl
  | false =>
    rw [if_neg Bool.false_ne_true, if_neg Bool.false_ne_true, if_neg Bool.false_ne_true]
    exact outcomeOf_format files e.diagnostic.message [.tuple e.arguments] #[]

end Entry

/-- The numbers that tell the place of an offset have no more digits than are written: line and
character where there is a line table, else the offset itself. -/
structure PrintablePlace (table : Option LineTable) (pos : Int) : Prop where
  offset : table = none → digitCount pos ≤ digitLimit
  position : ∀ t, table = some t → digitCount ((t.locate pos).line + 1) ≤ digitLimit ∧
    digitCount ((t.locate pos).character + 1) ≤ digitLimit

/-- The code of an entry and the numbers of its place have no more digits than are written. -/
structure Entry.Printable (e : Entry φ) (table : Option LineTable) : Prop where
  code : digitCount e.diagnostic.code ≤ digitLimit
  place : ∀ pos, e.pos = some pos → PrintablePlace table pos

/-! ### What can be written -/

theorem exists_bind_eq_ok_iff {x : Except Fault α} {k : α → Except Fault β} :
    (∃ b, x >>= k = .ok b) ↔ ∃ a, x = .ok a ∧ ∃ b, k a = .ok b := by
  constructor
  · rintro ⟨b, h⟩
    obtain ⟨a, ha, hb⟩ := exists_of_bind_eq_ok h
    exact ⟨a, ha, b, hb⟩
  · rintro ⟨a, rfl, b, hb⟩
    exact ⟨b, hb⟩

theorem exists_return_eq_ok_iff {x : Except Fault α} {f : α → β} :
    (∃ b, (do return f (← x)) = .ok b) ↔ ∃ a, x = .ok a := by
  refine exists_bind_eq_ok_iff.trans (exists_congr fun a => ?_)
  exact and_iff_left ⟨f a, rfl⟩

theorem exists_writeNumber_iff {n : Int} :
    (∃ text, writeNumber n = .ok text) ↔ digitCount n ≤ digitLimit := by
  simp only [writeNumber_eq_ok_iff, exists_and_left, exists_eq', and_true]

theorem LineTable.exists_formatPosition_iff (t : LineTable) (pos : Int) :
    (∃ text, t.formatPosition pos = .ok text) ↔
      digitCount ((t.locate pos).line + 1) ≤ digitLimit ∧
        digitCount ((t.locate pos).character + 1) ≤ digitLimit := by
  simp only [formatPosition_eq_ok_iff, exists_and_left, exists_eq', and_true]

theorem exists_placeIn_iff {table : Option LineTable} {pos : Int} :
    (∃ text, placeIn table pos = .ok text) ↔ PrintablePlace table pos := by
  cases table with
  | none =>
    refine (exists_return_eq_ok_iff.trans exists_writeNumber_iff).trans ?_
    exact ⟨fun h => ⟨fun _ => h, fun _ ht => nomatch ht⟩, fun h => h.offset rfl⟩
  | some t =>
    refine (exists_return_eq_ok_iff.trans (t.exists_formatPosition_iff pos)).trans ?_
    refine ⟨fun h => ⟨fun hnone => absurd hnone (Option.some_ne_none t), fun u hu => ?_⟩,
      fun h => h.position t rfl⟩
    obtain rfl := Option.some.inj hu
    exact h

namespace Entry

variable {e : Entry φ} {table : Option LineTable} {files : φ → SourceFile}

theorem exists_location_iff : (∃ loc, e.location table = .ok loc) ↔
    ∀ pos, e.pos = some pos → PrintablePlace table pos := by
  unfold location
  cases e.pos with
  | none => exact iff_of_true ⟨"", rfl⟩ fun _ hpos => nomatch hpos
  | some pos =>
    refine exists_placeIn_iff.trans ⟨?_, fun h => h pos rfl⟩
    rintro h _ ⟨⟩
    exact h

theorem exists_heading_iff {filename : String} :
    (∃ front, e.heading filename table = .ok front) ↔ e.Printable table := by
  have hlabel (front : String) :
      (∃ heading, (do
        let label ← Diagnostic.label e.diagnostic.code
        return front ++ ": " ++ e.diagnostic.severity ++ " " ++ label ++ ": ") = .ok heading) ↔
      digitCount e.diagnostic.code ≤ digitLimit :=
    (exists_return_eq_ok_iff (x := Diagnostic.label e.diagnostic.code)).trans
      (exists_return_eq_ok_iff.trans exists_writeNumber_iff)
  refine (exists_bind_eq_ok_iff (x := e.location table)).trans ?_
  simp only [hlabel, exists_and_right, exists_location_iff]
  exact ⟨fun ⟨hplace, hcode⟩ => ⟨hcode, hplace⟩, fun h => ⟨h.place, h.code⟩⟩

theorem exists_wording_iff : (∃ text, e.wording files = .ok text) ↔ e.overlong? = none := by
  rw [wording_eq]
  cases e.overlong? with
  | none => exact iff_of_true ⟨_, rfl⟩ rfl
  | some p => exact iff_of_false (fun ⟨_, h⟩ => nomatch h) fun h => nomatch h

theorem exists_message_iff {filename : String} :
    (∃ text, e.message files filename table true = .ok text) ↔
      e.overlong? = none ∧ e.Printable table := by
  refine (exists_bind_eq_ok_iff (x := e.heading filename table)).trans ?_
  simp only [exists_return_eq_ok_iff, exists_and_right, exists_wording_iff, exists_heading_iff]
  exact and_comm

/-- The code of an entry can be written, and so can its offset and the next one. -/
structure Small (e : Entry φ) : Prop where
  code : digitCount e.diagnostic.code ≤ digitLimit
  pos : ∀ pos, e.pos = some pos →
    digitCount pos ≤ digitLimit ∧ digitCount (pos + 1) ≤ digitLimit

end Entry

/-- The length of a text can be written, and so can the next number. -/
def SmallText (text : String) : Prop := digitCount (text.length + 1) ≤ digitLimit

theorem digitCount_le_of_natAbs_le {m n : Int} (h : m.natAbs ≤ n.natAbs)
    (hn : digitCount n ≤ digitLimit) : digitCount m ≤ digitLimit := by
  have hlimit : 0 < digitLimit := by decide
  unfold digitCount at hn ⊢
  rw [Nat.length_toDigits_le_iff (by decide) hlimit] at hn ⊢
  exact Nat.lt_of_le_of_lt h hn

theorem Entry.Small.printable {e : Entry φ} {table : Option LineTable} (h : e.Small)
    (htable : ∀ t, table = some t → SmallText t.text) : e.Printable table where
  code := h.code
  place := fun pos hpos => by
    obtain ⟨hself, hnext⟩ := h.pos pos hpos
    refine ⟨fun _ => hself, fun t ht => ?_⟩
    have hline : (t.locate pos).line = t.lineOf pos := rfl
    have hlength := t.lineOf_le_length pos
    refine ⟨digitCount_le_of_natAbs_le ?_ (htable t ht),
      digitCount_le_of_natAbs_le (t.natAbs_character_le pos) hnext⟩
    rw [hline]
    omega

/-! ## Questions -/

/-- The questions that render no message and write no snapshot out. -/
def Query.RendersNone : Query φ → Prop
  | .message _ _ | .collect _ | .dump | .infoLiteral _ _ => False
  | .info _ options | .infos options | .infosOf _ options => options.formatMessage = false
  | _ => True

theorem View.exists_info?_of_plain (v : View φ) (index : Int) {options : InfoOptions}
    (h : options.formatMessage = false) : ∃ found, v.info? index options = .ok found := by
  unfold info?
  cases v.sink.entryAt? index with
  | none => exact ⟨_, rfl⟩
  | some e =>
    unfold Entry.info
    rw [h]
    exact ⟨_, rfl⟩

/-! ## Sessions in which all can be rendered -/

/-- Every entry can be rendered, in whatever file it is. -/
structure Session.Renderable (s : Session φ) : Prop where
  entries : ∃ log, s.sink = .recording log ∧ ∀ e ∈ log.entries, e.overlong? = none ∧ e.Small
  tables : ∀ f t, (s.files f).table = some t → SmallText t.text

/-- A simple step that is no fault by itself and does nothing that could make a rendering one. No
snapshot is written out, as there can be numbers of any size in it. -/
structure Step.Safe (part : Step φ) : Prop where
  register : part ≠ .register none
  literal : ∀ index options, part ≠ .ask (.infoLiteral index options)
  report : ∀ e, part.move? = some (.report e) → e.overlong? = none ∧ e.Small
  setText : ∀ f text, part = .setText f (some text) → SmallText text

namespace Step

theorem safe_register (f : φ) : (register (some f)).Safe where
  register := fun heq => nomatch heq
  literal := fun _ _ heq => nomatch heq
  report := fun _ hmove => nomatch hmove
  setText := fun _ _ heq => nomatch heq

theorem safe_setText {f : φ} {text : String} (h : SmallText text) :
    (setText f (some text)).Safe where
  register := fun heq => nomatch heq
  literal := fun _ _ heq => nomatch heq
  report := fun _ hmove => nomatch hmove
  setText := fun _ _ heq => by
    cases heq
    exact h

theorem safe_of_report {step : Step φ} {e : Entry φ} (hmove : step.move? = some (.report e))
    (h : e.overlong? = none ∧ e.Small) : step.Safe where
  register := fun heq => by
    subst heq
    exact nomatch hmove
  literal := fun _ _ heq => by
    subst heq
    exact nomatch hmove
  report := fun e' hmove' => by
    cases hmove.symm.trans hmove'
    exact h
  setText := fun f text heq => by
    subst heq
    exact nomatch hmove

theorem safe_of_move?_eq_none {step : Step φ} (hmove : step.move? = none)
    (hliteral : ∀ index options, step ≠ .ask (.infoLiteral index options)) : step.Safe where
  register := fun heq => by
    subst heq
    exact nomatch hmove
  literal := hliteral
  report := fun e hmove' => nomatch hmove.symm.trans hmove'
  setText := fun f text heq => by
    subst heq
    exact nomatch hmove

end Step

namespace Session.Renderable

variable {s t : Session φ}

theorem of_view_eq (h : s.Renderable) (hview : t.view = s.view) : t.Renderable where
  entries := by
    obtain ⟨log, hlog, hentries⟩ := h.entries
    exact ⟨log, (congrArg View.sink hview).trans hlog, hentries⟩
  tables := fun f table htable => by
    have hfile : (t.files f).view = (s.files f).view := congrFun (congrArg View.files hview) f
    exact h.tables f table ((congrArg FileView.table hfile).symm.trans htable)

theorem renders (h : s.Renderable) : ∃ text, s.view.Renders text := by
  obtain ⟨log, hlog, hentries⟩ := h.entries
  refine View.exists_renders fun index hindex => ?_
  obtain ⟨e, he⟩ := Sink.exists_entryAt? hindex
  have hentry : log.entryAt? index = some e := by
    change s.sink.entryAt? index = some e at he
    rwa [hlog] at he
  obtain ⟨hoverlong, hsmall⟩ := hentries e (Log.mem_of_entryAt? hentry)
  rw [View.message_of_entryAt? he]
  refine Entry.exists_message_iff.2 ⟨hoverlong, hsmall.printable fun table htable => ?_⟩
  obtain ⟨f, _, hf⟩ := Option.bind_eq_some_iff.1 htable
  exact h.tables f table hf

end Session.Renderable

theorem SourceFile.table_setText {file : SourceFile} {text : Option String} {table : LineTable}
    (h : ({ file with text } : SourceFile).table = some table) :
    file.table = some table ∨ text = some table.text := by
  obtain ⟨filename, text', kept⟩ := file
  cases kept with
  | some m => exact .inl h
  | none =>
    cases text with
    | none => exact nomatch h
    | some T =>
      obtain rfl : LineTable.ofText T = table := Option.some.inj h
      exact .inr rfl

theorem Step.eq_setText_of_move? {step : Step φ} {f : φ} {text : Option String}
    (h : step.move? = some (.setText f text)) : step = .setText f text := by
  cases step with
  | setText g text' =>
    cases h
    rfl
  | _ => exact nomatch h

/-! ## Work that succeeds -/

/-- From every session in which all can be rendered the work gives a result and leaves such a
session. -/
def Succeeds (work : Work φ α) : Prop :=
  ∀ s : Session φ, s.Renderable → ∃ a s', work s = .ok a s' ∧ s'.Renderable

namespace Succeeds

theorem pure (a : α) : Succeeds (Pure.pure a : Work φ α) := fun s hs => ⟨a, s, rfl, hs⟩

theorem bind {x : Work φ α} {k : α → Work φ β} (hx : Succeeds x) (hk : ∀ a, Succeeds (k a)) :
    Succeeds (x >>= k) := by
  intro s hs
  obtain ⟨a, s', hx, hs'⟩ := hx s hs
  obtain ⟨b, s'', hk, hs''⟩ := hk a s' hs'
  exact ⟨b, s'', (bind_of_ok hx).trans hk, hs''⟩

theorem mapM {f : α → Work φ β} (h : ∀ a, Succeeds (f a)) (l : List α) : Succeeds (l.mapM f) := by
  induction l with
  | nil => exact Succeeds.pure []
  | cons a l ih =>
    rw [List.mapM_cons]
    exact (h a).bind fun b => ih.bind fun bs => Succeeds.pure (b :: bs)

theorem filterMapM {f : α → Work φ (Option β)} (h : ∀ a, Succeeds (f a)) (l : List α) :
    Succeeds (l.filterMapM f) := by
  induction l with
  | nil => exact Succeeds.pure []
  | cons a l ih =>
    rw [List.filterMapM_cons]
    refine (h a).bind fun b => ?_
    cases b with
    | none => exact ih
    | some b => exact ih.bind fun bs => Succeeds.pure (b :: bs)

theorem dispatch {recording : Log φ → Work φ α} {discarding : Work φ α}
    (h : ∀ log, Succeeds (recording log)) : Succeeds (Session.dispatch recording discarding) := by
  intro s hs
  obtain ⟨log, hlog, _⟩ := hs.entries
  rw [dispatch_of_recording hlog]
  exact h log s hs

theorem of_gives {x : Work φ α} (h : ∀ (v : View φ) text, v.Renders text → ∃ a, Gives v x a) :
    Succeeds x := by
  intro s hs
  obtain ⟨text, htext⟩ := hs.renders
  obtain ⟨a, hgives⟩ := h s.view text htext
  obtain ⟨s', hx, hview⟩ := hgives s rfl
  exact ⟨a, s', hx, hs.of_view_eq hview⟩

end Succeeds

section Session

variable [DecidableEq φ]

theorem Query.gives_of_rendersNone {q : Query φ} (hq : q.RendersNone) (v : View φ) :
    ∃ answer, Gives v q.run answer := by
  have hplain {options : InfoOptions} (h : options.formatMessage = false) :
      ∃ found : Int → Option (Info φ), ∀ index, Gives v (info? index options) (found index) := by
    choose found hfound using fun index => v.exists_info?_of_plain index h
    exact ⟨found, fun index => .of_yields (yields_info? index options) (hfound index)⟩
  cases q with
  | message index detailed => exact hq.elim
  | collect detailed => exact hq.elim
  | dump => exact hq.elim
  | infoLiteral index options => exact hq.elim
  | info index options =>
    obtain ⟨found, hfound⟩ := hplain hq
    exact ⟨_, (hfound index).bind (Gives.pure _)⟩
  | infos options =>
    obtain ⟨found, hfound⟩ := hplain hq
    exact ⟨_, (gives_infos fun index _ => hfound index).bind (Gives.pure _)⟩
  | infosOf file options =>
    obtain ⟨found, hfound⟩ := hplain hq
    exact ⟨_, (gives_infosOf (fun index _ => hfound index) file).bind (Gives.pure _)⟩
  | _ => exact ⟨_, .of_yields (yields_query _) rfl⟩

/-! ## Steps that succeed -/

theorem Session.Renderable.after {parts : Set (Step φ)} {s : Session φ} (h : s.Renderable)
    {m : Move φ} (hm : Made parts s m) (hparts : ∀ part ∈ parts, part.Safe) :
    (m.after s).Renderable := by
  cases hm with
  | reading hm =>
    cases hm with
    | read _ => exact h.of_view_eq ((yields_table _).read s).view_eq
    | note _ => exact h.of_view_eq rfl
  | printing _ => exact h.of_view_eq rfl
  | @changing m part hpart hmove =>
    have hsafe := hparts part hpart
    obtain ⟨log, hlog, hentries⟩ := h.entries
    cases m with
    | read f => exact h.of_view_eq ((yields_table f).read s).view_eq
    | note records => exact h.of_view_eq rfl
    | print line => exact h.of_view_eq rfl
    | register file =>
      refine ⟨⟨_, Move.sink_register hlog file, hentries⟩, ?_⟩
      rw [Move.files_register]
      exact h.tables
    | report e =>
      refine ⟨⟨_, Move.sink_report hlog e, Log.forall_append hentries (hsafe.report e hmove)⟩, ?_⟩
      rw [Move.files_report]
      exact h.tables
    | setText f text =>
      refine ⟨h.entries, fun g table htable => ?_⟩
      change (if g = f then { s.files f with text } else s.files g).table = some table at htable
      split at htable
      · rcases SourceFile.table_setText htable with hold | rfl
        · exact h.tables f table hold
        · exact hsafe.setText f table.text (Step.eq_setText_of_move? hmove)
      · exact h.tables g table htable
    | rename f filename =>
      refine ⟨h.entries, fun g table htable => ?_⟩
      change (if g = f then { s.files f with filename } else s.files g).table = some table at htable
      split at htable
      · exact h.tables f table htable
      · exact h.tables g table htable

namespace Succeeds

theorem forEach {callback : String → Nat → Work φ α}
    (h : ∀ text index, Succeeds (callback text index)) : Succeeds (Session.forEach callback) :=
  dispatch fun _ => mapM (fun (index : Nat) =>
    (of_gives fun _ _ htext => ⟨_, gives_message htext index true⟩).bind fun text =>
      h text index) _

theorem iterate {before : Work φ Unit} {each : Info φ → Work φ Unit} (hbefore : Succeeds before)
    (heach : ∀ info, Succeeds (each info)) : Succeeds (Session.iterate before each) := by
  refine hbefore.bind fun _ => dispatch fun _ => filterMapM (fun (index : Nat) => ?_) _
  refine (of_gives fun _ _ htext => ⟨_, gives_info? htext index {}⟩).bind fun found => ?_
  cases found with
  | none => exact pure none
  | some info => exact (heach info).bind fun _ => pure (some info)

end Succeeds

theorem Step.Safe.succeeds {step : Step φ} (h : step.Safe) {m : Move φ}
    (hmove : step.move? = some m) : Succeeds step.run := by
  intro s hs
  have hmade : Made {step} s m := .changing rfl hmove
  refine ⟨.done, m.after s, Step.run_of_move? hmove h.register s, hs.after hmade ?_⟩
  rintro _ rfl
  exact h

mutual

-- The recursion is that of `Step.run`. Callbacks begin in sessions in which all can be rendered,
-- and what they add is among the simple steps, so they leave such sessions.
theorem Step.succeeds (step : Step φ) (h : ∀ part ∈ step.parts, part.Safe) :
    Succeeds step.run := by
  cases step with
  | ask q => exact .of_gives fun v _ htext => q.gives htext
  | register file => exact (h _ rfl).succeeds rfl
  | report pos d args => exact (h _ rfl).succeeds rfl
  | reportNode node d args => exact (h _ rfl).succeeds rfl
  | setText f text => exact (h _ rfl).succeeds rfl
  | rename f filename => exact (h _ rfl).succeeds rfl
  | forEach each =>
    rw [Step.forall_mem_parts_forEach] at h
    exact (Succeeds.forEach fun text index =>
      (Step.succeedsAll (each text index) (h.2 text index)).bind fun _ =>
        Succeeds.pure (text, index)).bind fun calls => Succeeds.pure _
  | iterate before each =>
    rw [Step.forall_mem_parts_iterate] at h
    have hbefore := Step.succeedsAll before h.2.1
    exact (Succeeds.iterate (hbefore.bind fun _ => Succeeds.pure ()) fun info =>
      (Step.succeedsAll (each info) (h.2.2 info)).bind fun _ => Succeeds.pure ()).bind
        fun infos => Succeeds.pure _

theorem Step.succeedsAll (steps : List (Step φ)) (h : ∀ part ∈ Step.partsAll steps, part.Safe) :
    Succeeds (Step.runAll steps) := by
  cases steps with
  | nil => exact Succeeds.pure []
  | cons step steps =>
    rw [Step.forall_mem_partsAll_cons] at h
    have hstep := Step.succeeds step h.1
    have hsteps := Step.succeedsAll steps h.2
    exact hstep.bind fun answer => hsteps.bind fun answers => Succeeds.pure (answer :: answers)

end

/-! ## Runs -/

theorem Session.Renderable.outcomes_ok {s : Session φ} (h : s.Renderable) {run : List (Step φ)}
    (hsafe : ∀ part ∈ Step.partsAll run, part.Safe) :
    ∀ outcome ∈ outcomes run s, ∃ answer, outcome = .ok [answer] := by
  induction run generalizing s with
  | nil =>
    intro outcome houtcome
    exact absurd houtcome List.not_mem_nil
  | cons step run ih =>
    rw [Step.forall_mem_partsAll_cons] at hsafe
    obtain ⟨answer, s', hstep, hs'⟩ := Step.succeeds step hsafe.1 s h
    rw [outcomes_cons, List.forall_mem_cons, outcomeOf_of_ok hstep, stateAfter_of_ok hstep]
    exact ⟨⟨answer, rfl⟩, ih hs' hsafe.2⟩

theorem Session.Renderable.moment {s : Session φ} (h : s.Renderable) {run : List (Step φ)}
    (hsafe : ∀ part ∈ Step.partsAll run, part.Safe) {u : Session φ} (hu : Moment run s u) :
    u.Renderable := by
  obtain ⟨moves, hcourse, hpasses⟩ := exists_trace run s
  obtain ⟨earlier, later, rfl, rfl⟩ := hpasses u hu
  -- The moment is reached by the first of the moves, and each of them keeps the session so.
  have hreaches := hcourse.reaches.of_append.1
  exact hreaches.keeps (R := fun s t => s.Renderable → t.Renderable) (fun _ h => h)
    (fun hst htu h => htu (hst h)) (fun t m hm h => h.after hm hsafe) h

/-- What is answered for a message: outside the log nothing. The message of an entry fails exactly
if a placeholder in it cannot be read, which is told with the number of its digits; other
placeholders stand for an argument or for nothing. The detailed message fails also if its code or
its place cannot be printed. -/
structure Session.TellsMessages (u : Session φ) (index : Int) : Prop where
  outside : u.sink.entryAt? index = none →
    ∀ detailed, outcomeOf (message index detailed) u = .ok ""
  plain : ∀ e, u.sink.entryAt? index = some e →
    outcomeOf (message index false) u = match e.overlong? with
      | some p => .error (.placeholderTooLong p.digits.length)
      | none => .ok (e.filled u.files)
  detailed : ∀ e, u.sink.entryAt? index = some e →
    ((∃ text, outcomeOf (message index true) u = .ok text) ↔
      e.overlong? = none ∧ e.Printable (u.view.table (u.sink.fileAt? index)))

theorem Session.tellsMessages (u : Session φ) (index : Int) : u.TellsMessages index where
  outside := fun hnone detailed => by
    have hview : u.view.sink.entryAt? index = none := hnone
    rw [(yields_message index detailed).outcomeOf_eq, View.message, hview]
  plain := fun e he => by
    rw [outcomeOf_message_false he, e.wording_eq]
  detailed := fun e he => by
    rw [(yields_message index true).outcomeOf_eq, View.message_of_entryAt? he]
    exact Entry.exists_message_iff

/-- A run does not fail, whatever is reported, asked and changed in it, if it registers only files,
no template that is filled has a placeholder with too many digits, and no code, offset or text is
enormous; and neither does anything of this kind that is done at any of its moments. In any session
at all, only messages can fail, and the questions that render them, and registrations of no file. -/
theorem run_total (files : φ → SourceFile) {run : List (Step φ)}
    (hfiles : ∀ f table, (files f).table = some table → SmallText table.text)
    (hsafe : ∀ part ∈ Step.partsAll run, part.Safe) :
    let s := recording files
    (∀ outcome ∈ outcomes run s, ∃ answer, outcome = .ok [answer]) ∧
    (∀ u, Moment run s u → ∀ steps, (∀ part ∈ Step.partsAll steps, part.Safe) →
      ∃ answers, outcomeOf (Step.runAll steps) u = .ok answers) ∧
    ∀ u : Session φ, (∀ index, u.TellsMessages index) ∧
      (∀ q : Query φ, q.RendersNone → ∃ answer, outcomeOf q.run u = .ok answer) ∧
      ∀ (step : Step φ) (m : Move φ), step.move? = some m → step ≠ .register none →
        step.run u = .ok .done (m.after u) := by
  intro s
  have hs : s.Renderable :=
    ⟨⟨.empty, rfl, fun e he => absurd he (Array.not_mem_empty e)⟩, hfiles⟩
  refine ⟨hs.outcomes_ok hsafe, fun u hu steps hsteps => ?_, fun u => ⟨u.tellsMessages,
    fun q hq => ?_, fun step m hmove hregister => Step.run_of_move? hmove hregister u⟩⟩
  · obtain ⟨answers, u', hrun, _⟩ := Step.succeedsAll steps hsteps u (hs.moment hsafe hu)
    exact ⟨answers, outcomeOf_of_ok hrun⟩
  · obtain ⟨answer, hgives⟩ := Query.gives_of_rendersNone hq u.view
    exact ⟨answer, hgives.outcomeOf_eq rfl⟩

end Session

/-- A placeholder for an argument that there is not, an addition by a callback, and a change of a
text. -/
def boundedRun : List (Step Nat) :=
  [.report (some 2) ⟨1002, "Unexpected \x7b0\x7d\x7b7\x7d.", "error"⟩ [.string "x"],
   .register (some 0),
   .forEach fun _ _ =>
     [.reportNode (some ⟨.identifier, 3, 1⟩) ⟨1009, "Obsolete.", "warning"⟩ []],
   .setText 0 (some "b\nc"),
   .ask .dump]

theorem run_total_boundedRun :
    let files : Nat → SourceFile := fun _ => { filename := "a", text := some "b" }
    (∀ f table, (files f).table = some table → SmallText table.text) ∧
      (∀ part ∈ Step.partsAll boundedRun, part.Safe) ∧
      ∀ outcome ∈ outcomes boundedRun (recording files), ∃ answer, outcome = .ok [answer] := by
  intro files
  have hfiles : ∀ f table, (files f).table = some table → SmallText table.text := by
    rintro f table ⟨⟩
    change digitCount _ ≤ digitLimit
    decide
  have hsafe : ∀ part ∈ Step.partsAll boundedRun, part.Safe := by
    simp only [boundedRun, Step.forall_mem_partsAll_cons, Step.forall_mem_partsAll_nil,
      Step.forall_mem_parts_forEach]
    simp only [Step.parts, Set.mem_singleton_iff, forall_eq]
    refine ⟨Step.safe_of_report rfl ⟨by decide, by decide, ?_⟩, Step.safe_register 0,
      ⟨Step.safe_of_move?_eq_none rfl (by simp), fun _ _ =>
        ⟨Step.safe_of_report rfl ⟨rfl, by decide, ?_⟩, trivial⟩⟩, Step.safe_setText ?_,
      Step.safe_of_move?_eq_none rfl (by simp), trivial⟩
    · rintro pos ⟨⟩
      decide
    · rintro pos ⟨⟩
      decide
    · change digitCount _ ≤ digitLimit
      decide
  exact ⟨hfiles, hsafe, (run_total files hfiles hsafe).1⟩

/-! ## A template that cannot be filled -/

theorem Entry.overlong?_of_written {e : Entry φ} {p : Placeholder}
    (hmessage : e.diagnostic.message = p.written) (hargs : e.arguments ≠ [])
    (hdigits : ∀ c ∈ p.digits, isDecimalDigit c = true) (htooLong : p.tooLong = true) :
    e.overlong? = some p := by
  have hne : p.digits ≠ [] :=
    List.ne_nil_of_length_pos (Nat.zero_lt_of_lt (Placeholder.tooLong_iff.1 htooLong))
  have hisEmpty : ¬ e.arguments.isEmpty = true := fun h => hargs (List.isEmpty_iff.1 h)
  unfold overlong? Template.overlong?
  rw [if_neg hisEmpty, hmessage, Template.ofString_placeholder hdigits hne, List.map_singleton,
    List.find?_singleton, htooLong, if_pos rfl]

/-- The only placeholder of the template has a digit too many. -/
theorem message_overlong :
    let p : Placeholder := ⟨List.replicate 4301 '9'⟩
    let s : Session Nat := afterRun [.report none ⟨1000, p.written, "error"⟩ [.string "x"]]
      (recording fun _ => { filename := "a" })
    outcomeOf (message 0 false) s = .error (.placeholderTooLong 4301) := by
  intro p s
  have hlength : p.digits.length = 4301 := List.length_replicate
  have hdigits : ∀ c ∈ p.digits, isDecimalDigit c = true := by
    intro c hc
    rw [List.eq_of_mem_replicate hc]
    decide
  have htooLong : p.tooLong = true := by
    unfold Placeholder.tooLong
    rw [hlength]
    decide
  let e : Entry Nat := .atOffset none ⟨1000, p.written, "error"⟩ [.string "x"]
  have hoverlong : e.overlong? = some p :=
    Entry.overlong?_of_written rfl (List.cons_ne_nil _ _) hdigits htooLong
  have he : s.sink.entryAt? 0 = some e := rfl
  rw [(s.tellsMessages 0).plain e he, hoverlong, ← hlength]

end GrammarDiagnostics
