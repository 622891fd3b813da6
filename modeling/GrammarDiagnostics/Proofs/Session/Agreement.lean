import GrammarDiagnostics.Proofs.Session.Places
import GrammarDiagnostics.Proofs.Session.Reentrancy
import Mathlib.Data.List.Basic

/-! # Ways to go through a log

A log is gone through by several loops, and each of them asks for messages or snapshots on its own.
Where no rendering fails, all of them tell what is answered for one index after the other.

* `Gives`: work that has a given result in every session of a given view; `Gives.bind`,
  `Gives.mapM`, `Gives.filterMapM`: such work put together; `Gives.dispatch`: work that the two
  sinks do each in its own way.
* `View.Renders`, `View.snapshot?`: all messages of a view, and the snapshots that go with them.
* `gives_forEach`, `gives_iterate`, `gives_infosOf`: the loops, with callbacks that have results.
* `Step.gives`, `Step.givesAll`: questions have answers, also when callbacks ask them.
* `Session.Enumerates`, `enumerations_agree`: what all loops tell, whatever was asked before.
-/

set_option autoImplicit false

namespace GrammarDiagnostics

open Session

variable {φ α β : Type}

/-! ## Work with a result -/

/-- In every session of this view the work has this result, and it leaves such a session. -/
def Gives (v : View φ) (work : Work φ α) (a : α) : Prop :=
  ∀ s : Session φ, s.view = v → ∃ s' : Session φ, work s = .ok a s' ∧ s'.view = v

namespace Gives

variable {v : View φ} {x : Work φ α} {a : α}

theorem of_yields {outcome : View φ → Except Fault α} (h : Yields x outcome)
    (ha : outcome v = .ok a) : Gives v x a := by
  intro s hs
  obtain ⟨s', hx, hread⟩ := h.exists_ok (hs ▸ ha : outcome s.view = .ok a)
  exact ⟨s', hx, hread.view_eq.trans hs⟩

theorem pure (a : α) : Gives v (Pure.pure a : Work φ α) a := fun s hs => ⟨s, rfl, hs⟩

theorem bind {k : α → Work φ β} {b : β} (hx : Gives v x a) (hk : Gives v (k a) b) :
    Gives v (x >>= k) b := by
  intro s hs
  obtain ⟨s', hx, hs'⟩ := hx s hs
  obtain ⟨s'', hk, hs''⟩ := hk s' hs'
  exact ⟨s'', (bind_of_ok hx).trans hk, hs''⟩

theorem mapM {f : α → Work φ β} {g : α → β} {l : List α} (h : ∀ a ∈ l, Gives v (f a) (g a)) :
    Gives v (l.mapM f) (l.map g) := by
  induction l with
  | nil => exact Gives.pure []
  | cons a l ih =>
    rw [List.forall_mem_cons] at h
    rw [List.mapM_cons, List.map_cons]
    exact h.1.bind ((ih h.2).bind (Gives.pure (g a :: l.map g)))

theorem filterMapM {f : α → Work φ (Option β)} {g : α → Option β} {l : List α}
    (h : ∀ a ∈ l, Gives v (f a) (g a)) : Gives v (l.filterMapM f) (l.filterMap g) := by
  induction l with
  | nil => exact Gives.pure []
  | cons a l ih =>
    rw [List.forall_mem_cons] at h
    rw [List.filterMapM_cons, List.filterMap_cons]
    refine h.1.bind ?_
    cases g a with
    | none => exact ih h.2
    | some b => exact (ih h.2).bind (Gives.pure (b :: l.filterMap g))

theorem dispatch {recording : Log φ → Work φ α} {discarding : Work φ α}
    (hrecording : ∀ log, v.sink = .recording log → Gives v (recording log) a)
    (hdiscarding : v.sink = .discarding → Gives v discarding a) :
    Gives v (Session.dispatch recording discarding) a := by
  intro s hs
  have hsink : s.sink = v.sink := congrArg View.sink hs
  cases hv : v.sink with
  | recording log =>
    rw [dispatch_of_recording (hsink.trans hv)]
    exact hrecording log hv s hs
  | discarding =>
    rw [dispatch_of_discarding (hsink.trans hv)]
    exact hdiscarding hv s hs

theorem of_dispatch {recording : Log φ → Work φ α} {discarding : Work φ α} {log : Log φ}
    (h : Gives v (Session.dispatch recording discarding) a) (hv : v.sink = .recording log) :
    Gives v (recording log) a := by
  intro s hs
  have hsink : s.sink = v.sink := congrArg View.sink hs
  obtain ⟨s', hrun, hs'⟩ := h s hs
  exact ⟨s', (dispatch_of_recording (hsink.trans hv)).symm.trans hrun, hs'⟩

theorem outcomeOf_eq (h : Gives v x a) {s : Session φ} (hs : s.view = v) :
    outcomeOf x s = .ok a := by
  obtain ⟨s', hx, _⟩ := h s hs
  exact outcomeOf_of_ok hx

end Gives

theorem ofList_padded (width n : Nat) : String.ofList (padded 10 width n)
    = String.ofList (List.replicate (width - (decimal n).length) '0') ++ decimal n := by
  have hdigits : decimal n = String.ofList (Nat.toDigits 10 n) := by
    have hneg : ¬ (n : Int) < 0 := by omega
    simp only [decimal, Int.natAbs_natCast, if_neg hneg]
  rw [hdigits, String.length_ofList, ← String.ofList_append]
  rfl

theorem filterMap_range {n : Nat} {f : Nat → Option α} {g : Nat → α}
    (h : ∀ index < n, f index = some (g index)) :
    (List.range n).filterMap f = (List.range n).map g := by
  rw [← List.filterMap_eq_map]
  exact List.filterMap_congr fun index hindex => h index (List.mem_range.1 hindex)

/-! ## Views that can be rendered -/

theorem Sink.entryAt?_none_or (sink : Sink φ) (index : Int) :
    sink.entryAt? index = none ∨ ∃ i : Nat, index = i ∧ i < sink.size := by
  cases sink with
  | discarding => exact .inl rfl
  | recording log =>
    by_cases hneg : index < 0
    · exact .inl (log.entryAt?_eq_none_of_neg hneg)
    · by_cases hsize : (log.size : Int) ≤ index
      · exact .inl (log.entryAt?_of_size_le hsize)
      · have hlt : index.toNat < log.size := by omega
        exact .inr ⟨index.toNat, by omega, hlt⟩

namespace View

/-- All messages of a view, which has none that fails. -/
def Renders (v : View φ) (text : Int → Bool → String) : Prop :=
  ∀ index detailed, v.message index detailed = .ok (text index detailed)

variable {v : View φ} {text : Int → Bool → String}

/-- It is enough that the detailed messages of the entries can be rendered. -/
theorem exists_renders (h : ∀ index : Nat, index < v.sink.size →
    ∃ text, v.message index true = .ok text) : ∃ text, v.Renders text := by
  have hmessage (index : Int) (detailed : Bool) : ∃ text, v.message index detailed = .ok text := by
    obtain hnone | ⟨i, rfl, hi⟩ := v.sink.entryAt?_none_or index
    · unfold message
      rw [hnone]
      exact ⟨"", rfl⟩
    · obtain ⟨text, htext⟩ := h i hi
      cases detailed with
      | true => exact ⟨text, htext⟩
      | false =>
        obtain ⟨e, he⟩ := Sink.exists_entryAt? hi
        rw [message_of_entryAt? he] at htext ⊢
        obtain ⟨_, wording, _, hwording, _⟩ := Entry.message_eq_ok htext
        exact ⟨wording, hwording⟩
  choose text htext using hmessage
  exact ⟨text, htext⟩

/-- The snapshot of the entry of an index, given the messages. -/
def snapshot? (v : View φ) (text : Int → Bool → String) (index : Int) (options : InfoOptions) :
    Option (Info φ) :=
  (v.sink.entryAt? index).map fun e => e.snapshot index (v.range? index) (v.sink.fileAt? index)
    (if options.formatMessage then some (text index options.detailedMessage) else none)

theorem snapshot?_of_entryAt? {index : Int} {e : Entry φ} (he : v.sink.entryAt? index = some e)
    (options : InfoOptions) : v.snapshot? text index options
      = some (e.snapshot index (some (e.range (v.table (v.sink.fileAt? index))))
        (v.sink.fileAt? index)
        (if options.formatMessage then some (text index options.detailedMessage) else none)) := by
  unfold snapshot?
  rw [range?_of_entryAt? he, he, Option.map_some]

theorem exists_snapshot? {index : Nat} (h : index < v.sink.size) : ∃ info : InfoOptions → Info φ,
    ∀ options, v.snapshot? text index options = some (info options) := by
  obtain ⟨e, he⟩ := Sink.exists_entryAt? h
  exact ⟨_, snapshot?_of_entryAt? he⟩

theorem Renders.info?_eq (h : v.Renders text) (index : Int) (options : InfoOptions) :
    v.info? index options = .ok (v.snapshot? text index options) := by
  cases he : v.sink.entryAt? index with
  | none =>
    unfold info? snapshot?
    rw [he]
    rfl
  | some e =>
    have hmessage := h index options.detailedMessage
    rw [message_of_entryAt? he] at hmessage
    rw [info?_of_entryAt? he, snapshot?_of_entryAt? he]
    unfold Entry.info
    cases options.formatMessage with
    | false => rfl
    | true =>
      rw [if_pos rfl, if_pos rfl, hmessage]
      rfl

theorem Renders.forEach_eq (h : v.Renders text) (callback : String → Nat → α) :
    v.forEach callback = .ok ((List.range v.sink.size).map fun (index : Nat) =>
      callback (text index true) index) := by
  have hmessage : ∀ (index : Int) (detailed : Bool),
      v.message index detailed = .ok (text index detailed) := h
  unfold forEach
  simp only [hmessage]
  exact List.mapM_pure

end View

/-! ## Loops -/

section Session

variable {v : View φ} {text : Int → Bool → String}

theorem gives_indices : Gives v (indices : Work φ (List Nat)) (List.range v.sink.size) :=
  .of_yields yields_indices rfl

variable [DecidableEq φ]

theorem gives_message (h : v.Renders text) (index : Int) (detailed : Bool) :
    Gives v (message index detailed) (text index detailed) :=
  .of_yields (yields_message index detailed) (h index detailed)

theorem gives_info? (h : v.Renders text) (index : Int) (options : InfoOptions) :
    Gives v (info? index options) (v.snapshot? text index options) :=
  .of_yields (yields_info? index options) (h.info?_eq index options)

theorem gives_forEach (h : v.Renders text) {callback : String → Nat → Work φ α} {g : Nat → α}
    (hcallback : ∀ index : Nat, Gives v (callback (text index true) index) (g index)) :
    Gives v (forEach callback) ((List.range v.sink.size).map g) := by
  refine Gives.dispatch (fun log hlog => ?_) fun hnone => ?_
  · rw [hlog]
    exact Gives.mapM fun index _ => (gives_message h index true).bind (hcallback index)
  · rw [hnone]
    exact Gives.pure []

theorem gives_collect (h : v.Renders text) (detailed : Bool) :
    Gives v (collect detailed)
      ((List.range v.sink.size).map fun (index : Nat) => text index detailed) := by
  cases detailed with
  | true => exact gives_forEach h fun index => Gives.pure (text index true)
  | false => exact gives_indices.bind (Gives.mapM fun index _ => gives_message h index false)

theorem gives_infos {options : InfoOptions} {found : Nat → Option (Info φ)}
    (h : ∀ index : Nat, index < v.sink.size → Gives v (info? index options) (found index)) :
    Gives v (infos options) ((List.range v.sink.size).filterMap found) := by
  refine Gives.dispatch (fun log hlog => ?_) fun hnone => ?_
  · have hsize : v.sink.size = log.size := congrArg Sink.size hlog
    rw [hsize] at h ⊢
    exact Gives.filterMapM fun index hindex => (h index (List.mem_range.1 hindex)).of_dispatch hlog
  · rw [hnone]
    exact Gives.pure []

theorem gives_infosOf {options : InfoOptions} {found : Nat → Option (Info φ)}
    (h : ∀ index : Nat, index < v.sink.size → Gives v (info? index options) (found index))
    (file : Option φ) :
    Gives v (infosOf file options) ((List.range v.sink.size).filterMap fun (index : Nat) =>
      if v.sink.fileAt? index = file then found index else none) := by
  refine Gives.dispatch (fun log hlog => ?_) fun hnone => ?_
  · have hsize : v.sink.size = log.size := congrArg Sink.size hlog
    have hfiles (index : Int) : v.sink.fileAt? index = log.fileAt? index :=
      congrArg (Sink.fileAt? · index) hlog
    rw [hsize] at h ⊢
    refine Gives.filterMapM fun index hindex => ?_
    rw [hfiles]
    by_cases hfile : log.fileAt? index = file
    · rw [if_pos hfile, if_pos hfile]
      exact (h index (List.mem_range.1 hindex)).of_dispatch hlog
    · rw [if_neg hfile, if_neg hfile]
      exact Gives.pure none
  · rw [hnone]
    exact Gives.pure []

theorem gives_iterate (h : v.Renders text) {before : Work φ Unit} {each : Info φ → Work φ Unit}
    (hbefore : Gives v before ()) (heach : ∀ info, Gives v (each info) ()) :
    Gives v (iterate before each)
      ((List.range v.sink.size).filterMap fun (index : Nat) => v.snapshot? text index {}) := by
  refine hbefore.bind (Gives.dispatch (fun log hlog => ?_) fun hnone => ?_)
  · have hsize : v.sink.size = log.size := congrArg Sink.size hlog
    rw [hsize]
    refine Gives.filterMapM fun index _ => (gives_info? h index {}).bind ?_
    cases v.snapshot? text index {} with
    | none => exact Gives.pure none
    | some info => exact (heach info).bind (Gives.pure (some info))
  · rw [hnone]
    exact Gives.pure []

/-- The dump prints the line of one message after the other. -/
theorem View.Renders.dump_ok (h : v.Renders text) {t : Session φ} (ht : t.view = v) :
    ∃ t', dump t = .ok () t' ∧ t'.printed.toList = t.printed.toList
      ++ (List.range v.sink.size).map fun (index : Nat) => dumpLine (text index true) index := by
  subst ht
  obtain ⟨t', _, hlines, hdump⟩ := exists_dump t
  rw [h.forEach_eq] at hdump
  rw [View.dumped_eq (h.forEach_eq dumpLine)] at hlines
  exact ⟨t', hdump, hlines⟩

/-! ## Questions -/

theorem Query.gives (h : v.Renders text) (q : Query φ) : ∃ answer, Gives v q.run answer := by
  cases q
  case message index detailed => exact ⟨_, (gives_message h index detailed).bind (Gives.pure _)⟩
  case info index options => exact ⟨_, (gives_info? h index options).bind (Gives.pure _)⟩
  case infoLiteral index options =>
    have hanswer : v.answer (.infoLiteral index options)
        = .ok (.text (v.literal (v.snapshot? text index options))) := by
      simp only [View.answer, h.info?_eq]
      rfl
    exact ⟨_, .of_yields (yields_query _) hanswer⟩
  case infos options =>
    exact ⟨_, (gives_infos fun index _ => gives_info? h index options).bind (Gives.pure _)⟩
  case infosOf file options =>
    exact ⟨_, (gives_infosOf (fun index _ => gives_info? h index options) file).bind
      (Gives.pure _)⟩
  case collect detailed => exact ⟨_, (gives_collect h detailed).bind (Gives.pure _)⟩
  case dump =>
    have hanswer : v.answer .dump = .ok (.text (String.join
        ((List.range v.sink.size).map fun (index : Nat) => dumpLine (text index true) index))) := by
      simp only [View.answer, h.forEach_eq]
      rfl
    exact ⟨_, .of_yields (yields_query _) hanswer⟩
  -- The other questions read no message.
  all_goals exact ⟨_, .of_yields (yields_query _) rfl⟩

mutual

/-- Steps that only ask have answers, whatever their callbacks ask. -/
theorem Step.gives (hv : v.Renders text) (step : Step φ)
    (h : ∀ part ∈ step.parts, part.move? = none) : ∃ answer, Gives v step.run answer := by
  cases step with
  | ask q => exact q.gives hv
  | register file => exact nomatch h _ rfl
  | report pos d args => exact nomatch h _ rfl
  | reportNode node d args => exact nomatch h _ rfl
  | setText f text => exact nomatch h _ rfl
  | rename f filename => exact nomatch h _ rfl
  | forEach each =>
    rw [Step.forall_mem_parts_forEach] at h
    have heach (index : Nat) : Gives v (noting each (text index true) index)
        (text index true, index) := by
      obtain ⟨_, heach⟩ := Step.givesAll hv (each (text index true) index) (h.2 _ index)
      exact heach.bind (Gives.pure _)
    exact ⟨_, (gives_forEach hv heach).bind (Gives.pure _)⟩
  | iterate before each =>
    rw [Step.forall_mem_parts_iterate] at h
    obtain ⟨_, hbefore⟩ := Step.givesAll hv before h.2.1
    have heach (info : Info φ) : Gives v (doing each info) () := by
      obtain ⟨_, heach⟩ := Step.givesAll hv (each info) (h.2.2 info)
      exact heach.bind (Gives.pure ())
    exact ⟨_, (gives_iterate hv (hbefore.bind (Gives.pure ())) heach).bind (Gives.pure _)⟩

theorem Step.givesAll (hv : v.Renders text) (steps : List (Step φ)) (h : Step.AllAsk steps) :
    ∃ answers, Gives v (Step.runAll steps) answers := by
  cases steps with
  | nil => exact ⟨_, Gives.pure []⟩
  | cons step steps =>
    unfold Step.AllAsk at h
    rw [Step.forall_mem_partsAll_cons] at h
    obtain ⟨answer, hstep⟩ := Step.gives hv step h.1
    obtain ⟨answers, hsteps⟩ := Step.givesAll hv steps h.2
    exact ⟨_, hstep.bind (hsteps.bind (Gives.pure (answer :: answers)))⟩

end

/-! ## Agreement -/

/-- However the `n` entries of a session are gone through, it is told of them, in order, what is
answered for their indices: these messages and these snapshots, whose fields are what the accessors
answer. Callbacks may ask questions meanwhile. -/
structure Session.Enumerates (t : Session φ) (n : Nat) (text : Nat → Bool → String)
    (info : Nat → InfoOptions → Info φ) : Prop where
  size : outcomeOf Session.size t = .ok n
  message : ∀ index < n, ∀ detailed,
    outcomeOf (Session.message index detailed) t = .ok (text index detailed)
  info? : ∀ index < n, ∀ options,
    outcomeOf (Session.info? index options) t = .ok (some (info index options))
  fields : ∀ index < n, ∃ r file range, t.Answers index (some r) file ∧
    outcomeOf (Session.range? index) t = .ok (some range) ∧ ∀ options, info index options =
      { index
        code := r.diagnostic.code
        message := r.diagnostic.message
        arguments := r.arguments
        warning := r.diagnostic.isWarning
        range := some range
        file
        node := r.node
        pos := r.pos
        formatted :=
          if options.formatMessage then some (text index options.detailedMessage) else none }
  infos : ∀ options,
    outcomeOf (Session.infos options) t = .ok ((List.range n).map fun index => info index options)
  iterate : ∀ before next, Step.AllAsk before → (∀ info, Step.AllAsk (next info)) →
    outcomeOf (Session.iterate (do let _ ← Step.runAll before) (doing next)) t
      = .ok ((List.range n).map fun index => info index {})
  forEach : ∀ each, (∀ text index, Step.AllAsk (each text index)) →
    outcomeOf (Session.forEach (noting each)) t
      = .ok ((List.range n).map fun index => (text index true, index))
  collect : ∀ detailed, outcomeOf (Session.collect detailed) t
    = .ok ((List.range n).map fun index => text index detailed)
  dump : ∃ t', Session.dump t = .ok () t' ∧
    t'.printed.toList = t.printed.toList ++ (List.range n).map fun (index : Nat) =>
      String.ofList (List.replicate (3 - (decimal index).length) '0') ++ decimal index ++ " "
        ++ text index true ++ "\n"

theorem View.Renders.enumerates (h : v.Renders text) {info : Nat → InfoOptions → Info φ}
    (hinfo : ∀ index : Nat, index < v.sink.size →
      ∀ options, v.snapshot? text index options = some (info index options))
    {t : Session φ} (ht : t.view = v) (hrecords : t.Records) :
    t.Enumerates v.sink.size (fun index => text index) info where
  size := by
    subst ht
    exact outcomeOf_of_ok (size_eq t)
  message := fun index _ detailed => (gives_message h index detailed).outcomeOf_eq ht
  info? := fun index hindex options => by
    rw [← hinfo index hindex options]
    exact (gives_info? h index options).outcomeOf_eq ht
  fields := fun index hindex => by
    subst ht
    obtain ⟨e, he, _, hanswers⟩ := hrecords.entry hindex
    have hrange : outcomeOf (Session.range? index) t
        = .ok (some (e.range (t.view.table (t.sink.fileAt? index)))) := by
      rw [(yields_range? index).outcomeOf_eq, View.range?_of_entryAt? he]
      rfl
    refine ⟨e.reported, t.sink.fileAt? index, _, hanswers, hrange, fun options => ?_⟩
    have hsnapshot := hinfo index hindex options
    rw [View.snapshot?_of_entryAt? he] at hsnapshot
    exact (Option.some.inj hsnapshot).symm
  infos := fun options => by
    rw [← filterMap_range fun index hindex => hinfo index hindex options]
    exact (gives_infos fun index _ => gives_info? h index options).outcomeOf_eq ht
  iterate := fun before next hbefore hnext => by
    obtain ⟨_, hbefore⟩ := Step.givesAll h before hbefore
    have heach (info : Info φ) : Gives v (doing next info) () := by
      obtain ⟨_, hnext⟩ := Step.givesAll h (next info) (hnext info)
      exact hnext.bind (Gives.pure ())
    rw [← filterMap_range fun index hindex => hinfo index hindex {}]
    exact (gives_iterate h (hbefore.bind (Gives.pure ())) heach).outcomeOf_eq ht
  forEach := fun each heach => by
    refine (gives_forEach h fun index => ?_).outcomeOf_eq ht
    obtain ⟨_, heach⟩ := Step.givesAll h (each (text index true) index) (heach _ index)
    exact heach.bind (Gives.pure (text index true, index))
  collect := fun detailed => (gives_collect h detailed).outcomeOf_eq ht
  dump := by
    simp only [← ofList_padded]
    exact h.dump_ok ht

/-- When no rendering fails, all ways to go through the log of a run agree, whatever is asked
before. (The other message is a part of the detailed one.) -/
theorem enumerations_agree (files : φ → SourceFile) (run : List (Step φ))
    (hrender : ∀ index : Nat, index < (afterRun run (recording files)).sink.size →
      ∃ text, outcomeOf (message index true) (afterRun run (recording files)) = .ok text) :
    let s := afterRun run (recording files)
    ∃ text info, ∀ asked : List (Step φ), Step.AllAsk asked →
      (afterRun asked s).Enumerates s.sink.size text info := by
  intro s
  have hrenders : ∃ text, s.view.Renders text := by
    refine View.exists_renders fun index hindex => ?_
    rw [← (yields_message index true).outcomeOf_eq]
    exact hrender index hindex
  obtain ⟨text, htext⟩ := hrenders
  have : Nonempty (Info φ) := ⟨⟨0, 0, "", none, false, none, none, none, none, none⟩⟩
  have hsnapshot : ∀ index : Nat, index < s.view.sink.size → ∃ info : InfoOptions → Info φ,
      ∀ options, s.view.snapshot? text index options = some (info options) :=
    fun _ => View.exists_snapshot?
  choose! info hinfo using hsnapshot
  refine ⟨fun index => text index, info, fun asked hasked => ?_⟩
  exact htext.enumerates hinfo (view_afterAsking hasked s)
    ((records_afterRun files run).afterRun asked)

theorem enumerations_agree_scattered :
    let asked : List (Step Nat) := [.iterate [] fun _ => [.ask .dump], .ask (.infosOf (some 0) {})]
    (∀ index : Nat, index < scattered.sink.size →
      ∃ text, outcomeOf (message index true) scattered = .ok text) ∧
    Step.AllAsk asked ∧
    ∃ text info, (afterRun asked scattered).Enumerates scattered.sink.size text info ∧
      scattered.sink.size = 2 ∧
      text 0 true = "a(2,2): error GM2000: Cannot find name: 'x'." ∧
      text 1 true = "(4): warning GM1009: Obsolete." := by
  intro asked
  have hsize : scattered.sink.size = 2 := by decide +kernel
  have hfirst : outcomeOf (message (0 : Nat) true) scattered
      = .ok "a(2,2): error GM2000: Cannot find name: 'x'." := by decide +kernel
  have hsecond : outcomeOf (message (1 : Nat) true) scattered
      = .ok "(4): warning GM1009: Obsolete." := by decide +kernel
  have hrender : ∀ index : Nat, index < scattered.sink.size →
      ∃ text, outcomeOf (message index true) scattered = .ok text := by
    intro index hindex
    rw [hsize] at hindex
    obtain rfl | rfl : index = 0 ∨ index = 1 := by omega
    · exact ⟨_, hfirst⟩
    · exact ⟨_, hsecond⟩
  have hasked : Step.AllAsk asked := by
    simp only [asked, Step.AllAsk, Step.forall_mem_partsAll_cons, Step.forall_mem_partsAll_nil,
      Step.forall_mem_parts_iterate]
    simp [Step.parts, Step.move?]
  have hnone : Step.AllAsk (φ := Nat) [] := Step.forall_mem_partsAll_nil.2 trivial
  obtain ⟨text, info, hagree⟩ :=
    enumerations_agree (fun _ => { filename := "a", text := some "b\nc" }) scatteredRun hrender
  have htext : ∀ index < scattered.sink.size, ∀ detailed,
      outcomeOf (message index detailed) scattered = .ok (text index detailed) :=
    (hagree [] hnone).message
  rw [hsize] at htext
  refine ⟨hrender, hasked, text, info, hagree asked hasked, hsize, ?_, ?_⟩
  · exact Except.ok.inj ((htext 0 (by omega) true).symm.trans hfirst)
  · exact Except.ok.inj ((htext 1 (by omega) true).symm.trans hsecond)

end Session

end GrammarDiagnostics
