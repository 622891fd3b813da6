import GrammarDiagnostics.Proofs.Session.Moves
import Mathlib.Data.Set.Insert

/-! # What steps do

Whatever a step does to a session, it does by moves, and which moves these may be can be told from
the step and the log.

* `Sink.Attributes`, `Sink.Locates`: an entry of a file; an entry with an offset in a file.
* `Query.Reads`, `Step.Reads`: the files whose line maps a question, or a simple step, may read.
* `Step.parts`: the simple steps that a step is made of, those of its callbacks included, whatever
  these are called with.
* `Made`: the moves that simple steps may make; `Step.goes`, `Step.goesAll`: a step, and a series of
  steps, makes such moves and does nothing else, whether or not it ends in a fault.
* `Step.run_of_move?`: additions and changes of files succeed, but for registrations of no file.
* `Session.Course`: the moves of a run, step after step; `Session.exists_course`: there are some;
  `Session.course_of_moves`: those of a run of additions and changes of files.
-/

set_option autoImplicit false

namespace GrammarDiagnostics

variable {φ α β : Type}

/-! ## Reading -/

/-- The entry of an index exists and belongs to a file. -/
def Sink.Attributes (sink : Sink φ) (index : Int) (f : φ) : Prop :=
  ∃ e, sink.entryAt? index = some e ∧ sink.fileAt? index = some f

/-- The entry of an index exists, belongs to a file and has an offset in it. -/
def Sink.Locates (sink : Sink φ) (index : Int) (f : φ) : Prop :=
  ∃ e, sink.entryAt? index = some e ∧ e.pos.isSome ∧ sink.fileAt? index = some f

theorem Sink.Locates.attributes {sink : Sink φ} {index : Int} {f : φ} (h : sink.Locates index f) :
    sink.Attributes index f := by
  obtain ⟨e, he, _, hfile⟩ := h
  exact ⟨e, he, hfile⟩

/-- A record that says that an argument is missing. -/
def Record.IsMissing : Record → Prop
  | .argumentMissing _ _ => True
  | _ => False

/-- The moves of a question, but for printing: it reads the line maps of certain files, and notes
that arguments are missing. -/
inductive Reading (F : Sink φ → φ → Prop) (s : Session φ) : Move φ → Prop where
  | read {f : φ} (h : F s.sink f) : Reading F s (.read f)
  | note {records : List Record} (h : ∀ r ∈ records, r.IsMissing) : Reading F s (.note records)

theorem Reading.mono {F G : Sink φ → φ → Prop} {s : Session φ} {m : Move φ} (hm : Reading F s m)
    (h : ∀ f, F s.sink f → G s.sink f) : Reading G s m := by
  cases hm with
  | read hf => exact .read (h _ hf)
  | note hrecords => exact .note hrecords

/-- The files whose line maps a question may read. -/
def Query.Reads (sink : Sink φ) (f : φ) : Query φ → Prop
  | .message index detailed => detailed ∧ sink.Locates index f
  | .range index | .info index _ | .infoLiteral index _ => sink.Attributes index f
  | .infos _ => ∃ index, sink.Attributes index f
  | .infosOf g _ => g = some f ∧ ∃ index, sink.Attributes index f
  | .collect detailed => detailed ∧ ∃ index, sink.Locates index f
  | .dump => ∃ index, sink.Locates index f
  | .lineStarts g => g = f
  | _ => False

/-! ## Simple steps -/

/-- The files whose line maps a simple step may read. -/
def Step.Reads (sink : Sink φ) (f : φ) : Step φ → Prop
  | .ask q => q.Reads sink f
  | .forEach _ => ∃ index, sink.Locates index f
  | .iterate _ _ => ∃ index, sink.Attributes index f
  | _ => False

/-- The addition or the change of a file that a simple step makes. -/
def Step.move? : Step φ → Option (Move φ)
  | .register file => some (.register file)
  | .report pos d args => some (.report (.atOffset pos d args))
  | .reportNode node d args => some (.report (.atNode node d args))
  | .setText f text => some (.setText f text)
  | .rename f filename => some (.rename f filename)
  | _ => none

mutual

/-- The simple steps that a step is made of: an enumeration is one with a callback that does
nothing, and all that its callbacks do, whatever they are called with. -/
def Step.parts : Step φ → Set (Step φ)
  | .forEach each => {part | part = .forEach (fun _ _ => []) ∨
      ∃ text index, part ∈ Step.partsAll (each text index)}
  | .iterate before each => {part | part = .iterate [] (fun _ => []) ∨
      part ∈ Step.partsAll before ∨ ∃ info, part ∈ Step.partsAll (each info)}
  | step => {step}

def Step.partsAll : List (Step φ) → Set (Step φ)
  | [] => ∅
  | step :: steps => step.parts ∪ Step.partsAll steps

end

section Parts

variable {steps before : List (Step φ)}

theorem Step.partsAll_subset_forEach (each : String → Nat → List (Step φ)) (text : String)
    (index : Nat) : Step.partsAll (each text index) ⊆ (forEach each).parts :=
  fun _ hpart => .inr ⟨text, index, hpart⟩

theorem Step.partsAll_subset_before (before : List (Step φ)) (each : Info φ → List (Step φ)) :
    Step.partsAll before ⊆ (iterate before each).parts :=
  fun _ hpart => .inr (.inl hpart)

theorem Step.partsAll_subset_each (before : List (Step φ)) (each : Info φ → List (Step φ))
    (info : Info φ) : Step.partsAll (each info) ⊆ (iterate before each).parts :=
  fun _ hpart => .inr (.inr ⟨info, hpart⟩)

theorem Step.forall_mem_partsAll_nil {P : Step φ → Prop} :
    (∀ part ∈ Step.partsAll [], P part) ↔ True :=
  iff_of_true (fun _ h => h.elim) trivial

theorem Step.forall_mem_partsAll_cons {P : Step φ → Prop} {step : Step φ} :
    (∀ part ∈ Step.partsAll (step :: steps), P part) ↔
      (∀ part ∈ step.parts, P part) ∧ ∀ part ∈ Step.partsAll steps, P part :=
  ⟨fun h => ⟨fun part hpart => h part (.inl hpart), fun part hpart => h part (.inr hpart)⟩,
    fun ⟨hstep, hsteps⟩ part hpart => hpart.elim (hstep part) (hsteps part)⟩

theorem Step.forall_mem_parts_forEach {P : Step φ → Prop} {each : String → Nat → List (Step φ)} :
    (∀ part ∈ (forEach each).parts, P part) ↔ P (.forEach fun _ _ => []) ∧
      ∀ text index, ∀ part ∈ Step.partsAll (each text index), P part := by
  constructor
  · exact fun h => ⟨h _ (.inl rfl),
      fun text index part hpart => h part (Step.partsAll_subset_forEach each text index hpart)⟩
  · rintro ⟨hself, heach⟩ part (rfl | ⟨text, index, hpart⟩)
    · exact hself
    · exact heach text index part hpart

theorem Step.forall_mem_parts_iterate {P : Step φ → Prop} {each : Info φ → List (Step φ)} :
    (∀ part ∈ (iterate before each).parts, P part) ↔ P (.iterate [] fun _ => []) ∧
      (∀ part ∈ Step.partsAll before, P part) ∧
        ∀ info, ∀ part ∈ Step.partsAll (each info), P part := by
  constructor
  · exact fun h => ⟨h _ (.inl rfl),
      fun part hpart => h part (Step.partsAll_subset_before before each hpart),
      fun info part hpart => h part (Step.partsAll_subset_each before each info hpart)⟩
  · rintro ⟨hself, hbefore, heach⟩ part (rfl | hpart | ⟨info, hpart⟩)
    · exact hself
    · exact hbefore part hpart
    · exact heach info part hpart

end Parts

theorem Step.parts_of_move? {step : Step φ} {m : Move φ} (h : step.move? = some m) :
    step.parts = {step} := by
  cases step with
  | forEach each => exact nomatch h
  | iterate before each => exact nomatch h
  | _ => rfl

/-- The moves that simple steps may make. -/
inductive Made (parts : Set (Step φ)) (s : Session φ) : Move φ → Prop where
  | reading {m : Move φ} (h : Reading (fun sink f => ∃ part ∈ parts, part.Reads sink f) s m) :
      Made parts s m
  | printing {line : String} (h : .ask .dump ∈ parts) : Made parts s (.print line)
  | changing {m : Move φ} {part : Step φ} (hpart : part ∈ parts) (h : part.move? = some m) :
      Made parts s m

theorem Made.mono {parts parts' : Set (Step φ)} {s : Session φ} {m : Move φ} (hm : Made parts s m)
    (h : parts ⊆ parts') : Made parts' s m := by
  cases hm with
  | reading hm => exact .reading (hm.mono fun f ⟨part, hpart, hf⟩ => ⟨part, h hpart, hf⟩)
  | printing hdump => exact .printing (h hdump)
  | changing hpart hm => exact .changing (h hpart) hm

theorem Reading.made {F : Sink φ → φ → Prop} {parts : Set (Step φ)} {s : Session φ} {m : Move φ}
    (hm : Reading F s m) (h : ∀ f, F s.sink f → ∃ part ∈ parts, part.Reads s.sink f) :
    Made parts s m :=
  .reading (hm.mono h)

section Moves

variable [DecidableEq φ]

theorem Reading.sink_after {F : Sink φ → φ → Prop} {s : Session φ} {m : Move φ}
    (hm : Reading F s m) : (m.after s).sink = s.sink := by
  cases hm with
  | read _ => exact Move.sink_read _ s
  | note _ => rfl

theorem Reading.printed_after {F : Sink φ → φ → Prop} {s : Session φ} {m : Move φ}
    (hm : Reading F s m) : (m.after s).printed = s.printed := by
  cases hm with
  | read _ => exact Move.printed_read _ s
  | note _ => rfl

/-- Work that only reads prints nothing. -/
theorem Goes.printed_eq {F : Sink φ → φ → Prop} {x : Work φ α} {s : Session φ}
    (h : Goes (Reading F) x s) : (stateAfter x s).printed = s.printed := by
  obtain ⟨moves, hmoves⟩ := h
  exact hmoves.keeps (R := fun s t => t.printed = s.printed) (fun _ => rfl)
    (fun hst htu => htu.trans hst) fun s m hm => hm.printed_after

/-- Reading does not change the log, so that what may be read can be told from the log as it is at
first. -/
theorem Goes.weaken {F G : Sink φ → φ → Prop} {x : Work φ α} {s : Session φ}
    (h : Goes (Reading F) x s) (hFG : ∀ f, F s.sink f → G s.sink f) : Goes (Reading G) x s := by
  obtain ⟨moves, hmoves⟩ := h
  have hinv := hmoves.and_invariant (P := fun t => t.sink = s.sink) rfl
    fun t m ht hm => hm.sink_after.trans ht
  exact ⟨moves, hinv.mono fun t m ⟨ht, hm⟩ => hm.mono (ht ▸ hFG)⟩

/-! ### Records of a template -/

theorem stateAfter_mapM {σ : Type} {P : σ → Prop} {f : α → EStateM Fault σ β}
    (h : ∀ a s, P s → P (stateAfter (f a) s)) (l : List α) (s : σ) (hs : P s) :
    P (stateAfter (l.mapM f) s) := by
  induction l generalizing s with
  | nil => exact hs
  | cons a l ih =>
    rw [List.mapM_cons]
    exact stateAfter_bind_cases (h a s hs) fun b s' hs' =>
      stateAfter_bind_cases (ih s' hs') fun bs s'' hs'' => hs''

def Journal.MissingOnly (journal : Journal) : Prop := ∀ r ∈ journal, r.IsMissing

omit [DecidableEq φ] in
theorem missingOnly_replacement (files : φ → SourceFile) (template : String)
    (values : List (Argument φ)) (p : Placeholder) {journal : Journal} (h : journal.MissingOnly) :
    (stateAfter (replacement files template values p) journal).MissingOnly := by
  unfold replacement
  split
  · exact h
  · split
    · exact h
    · intro r hr
      rcases Array.mem_push.1 hr with hr | rfl
      · exact h r hr
      · trivial

omit [DecidableEq φ] in
/-- That an argument is missing is all that is noted while a template is filled. -/
theorem missingOnly_format (files : φ → SourceFile) (template : String)
    (args : List (Argument φ)) : (stateAfter (format files template args) #[]).MissingOnly := by
  have hempty : Journal.MissingOnly #[] := fun r hr => absurd hr (Array.not_mem_empty r)
  unfold format Template.fillM
  refine stateAfter_bind_cases (P := Journal.MissingOnly)
    (stateAfter_mapM (P := Journal.MissingOnly) (fun part journal h => ?_) _ _ hempty)
    fun _ _ h => h
  exact stateAfter_bind_cases (missingOnly_replacement files template _ part.1 h) fun _ _ h => h

section Rendering

open Session

variable (s : Session φ)

theorem goes_table {F : Sink φ → φ → Prop} {f : φ} (h : F s.sink f) :
    Goes (Reading F) (table f) s :=
  ⟨[.read f], .single (.read h)⟩

theorem goes_table? (file : Option φ) :
    Goes (Reading fun _ f => file = some f) (table? file) s := by
  cases file with
  | none => exact Goes.pure none
  | some f => exact goes_table s (F := fun _ g => some f = some g) rfl

theorem goes_place (file : Option φ) (pos : Int) :
    Goes (Reading fun _ f => file = some f) (place file pos) s := by
  refine (goes_table? s file).bind fun table s' _ => ?_
  cases table with
  | none => exact (Goes.ofExcept (φ := φ) _).bind fun text _ _ => Goes.pure _
  | some table => exact (Goes.ofExcept (φ := φ) _).bind fun text _ _ => Goes.pure _

theorem goes_heading (file : Option φ) (e : Entry φ) :
    Goes (Reading fun _ f => e.pos.isSome ∧ file = some f) (heading file e) s := by
  have hlabel {s' : Session φ} {F : Sink φ → φ → Prop} (front : String) :
      Goes (Reading F) (do
        let label ← MonadExcept.ofExcept (Diagnostic.label e.diagnostic.code)
        return front ++ ": " ++ e.diagnostic.severity ++ " " ++ label ++ ": ") s' :=
    (Goes.ofExcept (φ := φ) _).bind fun label _ _ => Goes.pure _
  refine Goes.bind_of_ok rfl ?_
  cases e.pos with
  | none => cases file <;> exact hlabel _
  | some pos =>
    have hplace := (goes_place s file pos).weaken
      (G := fun _ f => (some pos).isSome ∧ file = some f) fun f hf => ⟨rfl, hf⟩
    cases file <;> exact hplace.bind fun location _ _ => hlabel _

theorem goes_wording {F : Sink φ → φ → Prop} (e : Entry φ) : Goes (Reading F) (wording e) s := by
  refine Goes.bind_of_ok rfl ?_
  cases e.arguments? with
  | none => exact Goes.pure (φ := φ) _
  | some args =>
    refine ⟨[.note (stateAfter (format s.files e.diagnostic.message [.tuple args]) #[]).toList], ?_⟩
    change Reaches _ s _ (stateAfter (noted _) s)
    rw [stateAfter_noted]
    exact .single <| .note fun r hr => missingOnly_format _ _ _ r (Array.mem_toList_iff.1 hr)

theorem goes_message_log (log : Log φ) (index : Int) (detailed : Bool) :
    Goes (Reading fun _ f => detailed ∧ (Sink.recording log).Locates index f)
      (Recording.message log index detailed) s := by
  unfold Recording.message
  cases he : log.entryAt? index with
  | none => exact Goes.pure (φ := φ) _
  | some e =>
    cases detailed with
    | false => exact (goes_wording s e).bind fun text _ _ => Goes.pure _
    | true =>
      refine Goes.weaken (F := fun _ f => e.pos.isSome ∧ log.fileAt? index = some f) ?_
        fun f hf => ⟨rfl, e, he, hf.1, hf.2⟩
      exact (goes_heading s _ e).bind fun front s' _ =>
        (goes_wording s' e).bind fun text _ _ => Goes.pure _

theorem goes_position (file : Option φ) (pos : Int) :
    Goes (Reading fun _ f => file = some f) (position file pos) s := by
  refine (goes_table? s file).bind fun table s' _ => ?_
  cases table <;> exact Goes.pure (φ := φ) _

theorem goes_range?_log (log : Log φ) (index : Int) :
    Goes (Reading fun _ f => (Sink.recording log).Attributes index f)
      (Recording.range? log index) s := by
  unfold Recording.range?
  cases he : log.entryAt? index with
  | none => exact Goes.pure (φ := φ) _
  | some e =>
    refine Goes.weaken (F := fun _ f => log.fileAt? index = some f) ?_ fun f hf => ⟨e, he, hf⟩
    exact (goes_position s _ _).bind fun start s' _ =>
      (goes_position s' _ _).bind fun stop _ _ => Goes.pure _

theorem goes_info?_log (log : Log φ) (index : Int) (options : InfoOptions) :
    Goes (Reading fun _ f => (Sink.recording log).Attributes index f)
      (Recording.info? log index options) s := by
  have hmessage := (goes_message_log s log index options.detailedMessage).weaken
    (G := fun _ f => (Sink.recording log).Attributes index f) fun _ hf => hf.2.attributes
  unfold Recording.info?
  cases log.entryAt? index with
  | none => exact Goes.pure (φ := φ) _
  | some e =>
    cases options.formatMessage with
    | false => exact (goes_range?_log s log index).bind fun range _ _ => Goes.pure _
    | true =>
      exact (hmessage.map some).bind fun formatted s' _ =>
        (goes_range?_log s' log index).bind fun range _ _ => Goes.pure _

/-! ### Asked of either sink -/

theorem goes_message (index : Int) (detailed : Bool) :
    Goes (Reading fun sink f => detailed ∧ sink.Locates index f) (message index detailed) s :=
  Goes.dispatch (fun log hlog => (goes_message_log s log index detailed).weaken
    fun _ hf => hlog ▸ hf) fun _ => Goes.pure _

theorem goes_range? (index : Int) :
    Goes (Reading fun sink f => sink.Attributes index f) (range? index) s :=
  Goes.dispatch (fun log hlog => (goes_range?_log s log index).weaken fun _ hf => hlog ▸ hf)
    fun _ => Goes.pure _

theorem goes_info? (index : Int) (options : InfoOptions) :
    Goes (Reading fun sink f => sink.Attributes index f) (info? index options) s :=
  Goes.dispatch (fun log hlog => (goes_info?_log s log index options).weaken fun _ hf => hlog ▸ hf)
    fun _ => Goes.pure _

/-! ### Going through the log -/

variable {allowed : Session φ → Move φ → Prop}

theorem goes_forEach {callback : String → Nat → Work φ α}
    (hread : ∀ s m, Reading (fun sink f => ∃ index, sink.Locates index f) s m → allowed s m)
    (hcallback : ∀ text index s, Goes allowed (callback text index) s) :
    Goes allowed (forEach callback) s := by
  refine Goes.dispatch (fun log _ => Goes.mapM (fun index s' => ?_) _) fun _ => Goes.pure _
  refine Goes.bind ((goes_message s' index true).mono fun t m hm => hread t m ?_)
    fun text s'' _ => hcallback text index s''
  exact hm.mono fun _ hf => ⟨index, hf.2⟩

theorem goes_iterate {before : Work φ Unit} {each : Info φ → Work φ Unit}
    (hread : ∀ s m, Reading (fun sink f => ∃ index, sink.Attributes index f) s m → allowed s m)
    (hbefore : Goes allowed before s) (heach : ∀ info s, Goes allowed (each info) s) :
    Goes allowed (iterate before each) s := by
  refine hbefore.bind fun _ s' _ => Goes.dispatch
    (fun log _ => Goes.filterMapM (fun index t => ?_) _) fun _ => Goes.pure _
  refine Goes.bind ((goes_info? t index {}).mono fun t m hm => hread t m ?_) fun found t' _ => ?_
  · exact hm.mono fun _ hf => ⟨index, hf⟩
  · cases found with
    | none => exact Goes.pure (φ := φ) _
    | some info => exact (heach info t').bind fun _ _ _ => Goes.pure _

theorem goes_infos (options : InfoOptions) :
    Goes (Reading fun sink f => ∃ index, sink.Attributes index f) (infos options) s := by
  refine Goes.dispatch (fun log hlog => ?_) fun _ => Goes.pure _
  refine Goes.weaken (F := fun _ f => ∃ index, (Sink.recording log).Attributes index f)
    (Goes.filterMapM (fun index s' => ?_) _) fun _ hf => hlog ▸ hf
  exact (goes_info?_log s' log index options).weaken fun f hf => ⟨index, hf⟩

theorem goes_infosOf (file : Option φ) (options : InfoOptions) :
    Goes (Reading fun sink f => file = some f ∧ ∃ index, sink.Attributes index f)
      (infosOf file options) s := by
  refine Goes.dispatch (fun log hlog => ?_) fun _ => Goes.pure _
  refine Goes.weaken
    (F := fun _ f => file = some f ∧ ∃ index, (Sink.recording log).Attributes index f)
    (Goes.filterMapM (fun index s' => ?_) _) fun _ hf => hlog ▸ hf
  by_cases hfile : log.fileAt? index = file
  · rw [if_pos hfile]
    refine (goes_info?_log s' log index options).weaken fun f hf => ⟨?_, index, hf⟩
    obtain ⟨e, _, hf⟩ := hf
    exact hfile.symm.trans hf
  · rw [if_neg hfile]
    exact Goes.pure _

/-! ### Questions -/

/-- A question makes no moves but those of reading, unless it is for the dump. -/
theorem goes_query {q : Query φ} (hq : q ≠ .dump) :
    Goes (Reading fun sink f => q.Reads sink f) q.run s := by
  cases q with
  | size => exact Goes.bind_of_ok (size_eq s) (Goes.pure _)
  | message index detailed =>
    exact (goes_message s index detailed).bind fun text _ _ => Goes.pure _
  | diagnostic index => exact Goes.bind_of_ok (diagnostic_eq s index) (Goes.pure _)
  | arguments index => exact Goes.bind_of_ok (arguments_eq s index) (Goes.pure _)
  | node index => exact Goes.bind_of_ok (node_eq s index) (Goes.pure _)
  | pos index => exact Goes.bind_of_ok (pos_eq s index) (Goes.pure _)
  | file index => exact Goes.bind_of_ok (fileAt?_eq s index) (Goes.pure _)
  | range index => exact (goes_range? s index).bind fun range _ _ => Goes.pure _
  | info index options => exact (goes_info? s index options).bind fun info _ _ => Goes.pure _
  | infoLiteral index options =>
    exact (goes_info? s index options).bind fun info _ _ => Goes.bind_of_ok rfl (Goes.pure _)
  | infos options => exact (goes_infos s options).bind fun infos _ _ => Goes.pure _
  | infosOf file options => exact (goes_infosOf s file options).bind fun infos _ _ => Goes.pure _
  | hasErrors => exact Goes.bind_of_ok (hasErrors_eq s) (Goes.pure _)
  | collect detailed =>
    refine Goes.bind ?_ fun texts _ _ => Goes.pure _
    cases detailed with
    | true =>
      exact goes_forEach s (fun t m hm => hm.mono fun _ hf => ⟨rfl, hf⟩)
        fun text index s => Goes.pure _
    | false =>
      refine Goes.bind_of_ok (indices_eq s) (Goes.mapM (fun index s' => ?_) _)
      exact (goes_message s' index false).weaken fun f hf => absurd hf.1 Bool.false_ne_true
  | dump => exact absurd rfl hq
  | lineStarts f => exact (goes_table s rfl).bind fun table _ _ => Goes.pure _

theorem goes_dump (hread : ∀ s m, Reading (fun sink f => ∃ index, sink.Locates index f) s m →
    allowed s m) (hprint : ∀ s line, allowed s (.print line)) :
    Goes allowed Query.dump.run s := by
  have hcallback (text : String) (index : Nat) (t : Session φ) :
      Goes allowed (print (dumpLine text index)) t := ⟨[_], .single (hprint t _)⟩
  refine Goes.bind_of_ok rfl (Goes.bind ?_ fun _ t _ => Goes.bind_of_ok rfl (Goes.pure _))
  exact (goes_forEach s hread hcallback).bind fun _ _ _ => Goes.pure _

end Rendering

/-! ## Steps -/

/-- A step that makes an addition or changes a file makes this move. -/
theorem Step.stateAfter_of_move? {step : Step φ} {m : Move φ} (h : step.move? = some m)
    (s : Session φ) : stateAfter step.run s = m.after s := by
  cases step with
  | ask q => exact nomatch h
  | register file =>
    cases h
    exact stateAfter_bind_pure (fun _ => Answer.done) _ s
  | report pos d args =>
    cases h
    exact stateAfter_bind_pure (fun _ => Answer.done) _ s
  | reportNode node d args =>
    cases h
    exact stateAfter_bind_pure (fun _ => Answer.done) _ s
  | setText f text =>
    cases h
    exact stateAfter_bind_pure (fun _ => Answer.done) _ s
  | rename f filename =>
    cases h
    exact stateAfter_bind_pure (fun _ => Answer.done) _ s
  | forEach each => exact nomatch h
  | iterate before each => exact nomatch h

theorem Step.run_of_move? {step : Step φ} {m : Move φ} (h : step.move? = some m)
    (hregister : step ≠ .register none) (s : Session φ) : step.run s = .ok .done (m.after s) := by
  have hok : ∃ s', step.run s = .ok .done s' := by
    obtain ⟨files, sink, journal, printed⟩ := s
    cases step with
    | register file =>
      cases file with
      | none => exact absurd rfl hregister
      | some f => cases sink <;> exact ⟨_, rfl⟩
    | report pos d args => cases sink <;> exact ⟨_, rfl⟩
    | reportNode node d args => cases sink <;> exact ⟨_, rfl⟩
    | setText f text => exact ⟨_, rfl⟩
    | rename f filename => exact ⟨_, rfl⟩
    | _ => exact nomatch h
  obtain ⟨s', hs'⟩ := hok
  rw [hs', ← stateAfter_of_ok hs', Step.stateAfter_of_move? h]

theorem Step.reaches_of_move? {step : Step φ} {m : Move φ} (h : step.move? = some m)
    (s : Session φ) : Session.Reaches (Made step.parts) s [m] (stateAfter step.run s) := by
  rw [Step.stateAfter_of_move? h, Step.parts_of_move? h]
  exact .single (.changing rfl h)

theorem Goes.made_mono {parts parts' : Set (Step φ)} {x : Work φ α} {s : Session φ}
    (h : Goes (Made parts) x s) (hparts : parts ⊆ parts') : Goes (Made parts') x s :=
  h.mono fun _ _ hm => hm.mono hparts

mutual

-- The recursion is that of `Step.run`: over the step, and over the steps of its callbacks.
theorem Step.goes (step : Step φ) (s : Session φ) : Goes (Made step.parts) step.run s := by
  cases step with
  | ask q =>
    by_cases hq : q = .dump
    · subst hq
      exact goes_dump s (fun t m hm => hm.made fun f hf => ⟨_, rfl, hf⟩) fun t line => .printing rfl
    · exact (goes_query s hq).mono fun t m hm => hm.made fun f hf => ⟨_, rfl, hf⟩
  | register file => exact ⟨_, Step.reaches_of_move? rfl s⟩
  | report pos d args => exact ⟨_, Step.reaches_of_move? rfl s⟩
  | reportNode node d args => exact ⟨_, Step.reaches_of_move? rfl s⟩
  | setText f text => exact ⟨_, Step.reaches_of_move? rfl s⟩
  | rename f filename => exact ⟨_, Step.reaches_of_move? rfl s⟩
  | forEach each =>
    refine Goes.bind (goes_forEach s ?_ fun text index s' => ?_) fun calls _ _ => Goes.pure _
    · exact fun t m hm => hm.made fun f hf => ⟨_, .inl rfl, hf⟩
    · have heach := (Step.goesAll (each text index) s').made_mono
        (Step.partsAll_subset_forEach each text index)
      exact heach.bind fun _ _ _ => Goes.pure _
  | iterate before each =>
    refine Goes.bind (goes_iterate s ?_ ?_ fun info s' => ?_) fun infos _ _ => Goes.pure _
    · exact fun t m hm => hm.made fun f hf => ⟨_, .inl rfl, hf⟩
    · have hbefore := (Step.goesAll before s).made_mono (Step.partsAll_subset_before before each)
      exact hbefore.bind fun _ _ _ => Goes.pure _
    · have heach := (Step.goesAll (each info) s').made_mono
        (Step.partsAll_subset_each before each info)
      exact heach.bind fun _ _ _ => Goes.pure _

theorem Step.goesAll (steps : List (Step φ)) (s : Session φ) :
    Goes (Made (Step.partsAll steps)) (Step.runAll steps) s := by
  cases steps with
  | nil => exact Goes.pure []
  | cons step steps =>
    refine ((Step.goes step s).made_mono Set.subset_union_left).bind fun answer s' _ => ?_
    have hsteps := (Step.goesAll steps s').made_mono (Set.subset_union_right (s := step.parts))
    exact hsteps.bind fun answers _ _ => Goes.pure _

end

/-! ## Runs -/

/-- The moves of a run, step after step. Those of one step lead to the session that the step leaves
and are moves of the simple steps that it is made of. -/
inductive Session.Course : Session φ → List (Step φ) → List (Move φ) → Prop where
  | nil (s : Session φ) : Course s [] []
  | cons {step : Step φ} {run : List (Step φ)} {s : Session φ} {moves moves' : List (Move φ)}
      (h : Session.Reaches (Made step.parts) s moves (stateAfter step.run s))
      (rest : Course (stateAfter step.run s) run moves') : Course s (step :: run) (moves ++ moves')

theorem Session.Course.split {run run' : List (Step φ)} {s : Session φ} {moves : List (Move φ)}
    (h : s.Course (run ++ run') moves) :
    ∃ earlier later, moves = earlier ++ later ∧ s.Course run earlier := by
  induction run generalizing s moves with
  | nil => exact ⟨[], moves, rfl, .nil s⟩
  | cons step run ih =>
    cases h with
    | cons hstep rest =>
      obtain ⟨earlier, later, rfl, hcourse⟩ := ih rest
      exact ⟨_ ++ earlier, later, (List.append_assoc _ _ _).symm, .cons hstep hcourse⟩

theorem Session.exists_course (run : List (Step φ)) (s : Session φ) :
    ∃ moves, s.Course run moves := by
  induction run generalizing s with
  | nil => exact ⟨[], .nil s⟩
  | cons step run ih =>
    obtain ⟨moves, hmoves⟩ := Step.goes step s
    obtain ⟨moves', hmoves'⟩ := ih (stateAfter step.run s)
    exact ⟨moves ++ moves', .cons hmoves hmoves'⟩

/-- The moves of additions and changes of files, one step after the other. -/
theorem Session.course_of_moves {run : List (Step φ)} {moves : List (Move φ)}
    (h : run.map Step.move? = moves.map some) (s : Session φ) : s.Course run moves := by
  induction run generalizing moves s with
  | nil =>
    obtain rfl : moves = [] := List.map_eq_nil_iff.1 h.symm
    exact .nil s
  | cons step run ih =>
    cases moves with
    | nil => exact nomatch h
    | cons m moves =>
      obtain ⟨hstep, hrun⟩ := List.cons.inj h
      exact .cons (Step.reaches_of_move? hstep s) (ih hrun _)

theorem Session.Course.reaches {run : List (Step φ)} {s : Session φ} {moves : List (Move φ)}
    (h : s.Course run moves) :
    Session.Reaches (Made (Step.partsAll run)) s moves (Session.afterRun run s) := by
  induction h with
  | nil s => exact .refl s
  | @cons step run s moves moves' hstep _ ih =>
    rw [Session.afterRun_cons]
    have hstep' := hstep.mono fun t m hm => hm.mono (Set.subset_union_left (t := Step.partsAll run))
    exact hstep'.trans (ih.mono fun t m hm => hm.mono Set.subset_union_right)

end Moves

end GrammarDiagnostics
