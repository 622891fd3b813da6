import GrammarDiagnostics.Proofs.Session.Effects
import GrammarDiagnostics.Proofs.Session.Rendered

/-! # What the questions answer

Every question to a session has an answer that depends on the view of the session alone, and asking
it does nothing but read.

* `View.forEach`, `View.collect`, `View.infos`, `View.literal`: what enumerations find, and the
  written form of a snapshot, in terms of the view.
* `View.dumped`: the lines of the dump, up to the first message that cannot be rendered;
  `Session.exists_dump`: these are the lines that it prints.
* `View.answer`: the answer to a question in terms of the view; `yields_query`: this is what the
  session answers.
* `Yields.mapM`: going over a list.
-/

set_option autoImplicit false

namespace GrammarDiagnostics

variable {φ α β : Type}

theorem Yields.mapM {f : α → Work φ β} {g : α → View φ → Except Fault β}
    (h : ∀ a, Yields (f a) (g a)) (l : List α) :
    Yields (l.mapM f) fun v => l.mapM fun a => g a v := by
  induction l with
  | nil => exact Yields.pure []
  | cons a l ih =>
    simp only [List.mapM_cons]
    exact (h a).bind fun b => ih.bind fun bs => Yields.pure (b :: bs)

/-! ## Answers in terms of the view -/

namespace View

/-- What a callback that only looks at its arguments makes of the messages. -/
def forEach (v : View φ) (callback : String → Nat → α) : Except Fault (List α) :=
  (List.range v.sink.size).mapM fun (index : Nat) => do
    return callback (← v.message index true) index

def collect (v : View φ) (detailed : Bool) : Except Fault (List String) :=
  if detailed then
    v.forEach fun text _ => text
  else
    (List.range v.sink.size).mapM fun (index : Nat) => v.message index false

def infos (v : View φ) (options : InfoOptions) : Except Fault (List (Info φ)) :=
  (List.range v.sink.size).filterMapM fun (index : Nat) => v.info? index options

def literal (v : View φ) (info : Option (Info φ)) : String :=
  Literal.ofOption (Info.literal v.sources) info

/-- The lines of the dump for entries of given indices. The first message that cannot be rendered
ends it. -/
def dumped (v : View φ) : List Nat → List String
  | [] => []
  | index :: indices =>
    match v.message index true with
    | .ok text => Session.dumpLine text index :: v.dumped indices
    | .error _ => []

theorem dumped_eq {v : View φ} {indices : List Nat} {lines : List String}
    (h : (indices.mapM fun (index : Nat) => do
      return Session.dumpLine (← v.message index true) index : Except Fault (List String))
        = .ok lines) : v.dumped indices = lines := by
  induction indices generalizing lines with
  | nil => exact Except.ok.inj h
  | cons index indices ih =>
    rw [List.mapM_cons] at h
    unfold dumped
    cases htext : v.message index true with
    | error fault =>
      rw [htext] at h
      exact nomatch h
    | ok text =>
      rw [htext] at h
      cases hrest : (indices.mapM fun (index : Nat) => do
          return Session.dumpLine (← v.message index true) index : Except Fault (List String)) with
      | error fault =>
        rw [hrest] at h
        exact nomatch h
      | ok rest =>
        rw [hrest] at h
        exact (congrArg (_ :: ·) (ih hrest)).trans (Except.ok.inj h)

/-- The answer to a question. -/
def answer [DecidableEq φ] (v : View φ) : Query φ → Except Fault (Answer φ)
  | .size => return .size v.sink.size
  | .message index detailed => return .text (← v.message index detailed)
  | .diagnostic index => return .diagnostic ((v.sink.entryAt? index).map Entry.diagnostic)
  | .arguments index => return .arguments ((v.sink.entryAt? index).bind Entry.arguments?)
  | .node index => return .node ((v.sink.entryAt? index).bind Entry.node)
  | .pos index => return .pos ((v.sink.entryAt? index).bind Entry.pos)
  | .file index => return .file (v.sink.fileAt? index)
  | .range index => return .range (v.range? index)
  | .info index options => return .info (← v.info? index options)
  | .infoLiteral index options => return .text (v.literal (← v.info? index options))
  | .infos options => return .infos (← v.infos options)
  | .infosOf file options => return .infos (← v.infosOf file options)
  | .hasErrors => return .flag v.sink.hasErrors
  | .collect detailed => return .texts (← v.collect detailed)
  | .dump => return .text (String.join (← v.forEach Session.dumpLine))
  | .lineStarts f => return .lineStarts ((v.files f).table.map (·.starts.toList))

end View

section Answers

open Session

variable [DecidableEq φ]

theorem yields_forEach (callback : String → Nat → α) :
    Yields (Session.forEach fun text index => pure (callback text index) : Work φ (List α))
      fun v => v.forEach callback :=
  Yields.dispatch (fun _ => Yields.mapM (fun (index : Nat) =>
    (yields_message index true).bind fun text => Yields.pure (callback text index)) _) (.pure [])
    (fun _ _ => rfl) fun _ => rfl

theorem yields_collect (detailed : Bool) :
    Yields (collect detailed : Work φ (List String)) fun v => v.collect detailed := by
  cases detailed with
  | true => exact yields_forEach fun text _ => text
  | false =>
    exact Yields.congr (yields_indices.bind fun indices =>
      Yields.mapM (fun (index : Nat) => yields_message index false) indices) fun _ => rfl

theorem yields_infos (options : InfoOptions) :
    Yields (infos options : Work φ (List (Info φ))) fun v => v.infos options :=
  Yields.dispatch (fun log => Yields.filterMapM (fun (index : Nat) =>
    yields_info?_log log index options) _) (.pure []) (fun _ _ => rfl) fun _ => rfl

theorem yields_iterate :
    Yields (iterate (pure ()) fun _ => pure () : Work φ (List (Info φ))) fun v => v.infos {} := by
  refine Yields.dispatch (fun _ => Yields.filterMapM (g := fun (index : Nat) v =>
    v.info? index {}) (fun index => ?_) _) (.pure []) (fun _ _ => rfl) fun _ => rfl
  refine Yields.congr ((yields_info? index {}).bind (b := fun found _ => .ok found)
    fun found => ?_) fun v => ?_
  · cases found <;> exact Yields.pure _
  · cases v.info? index {} <;> rfl

/-! ## The dump -/

-- Rendering prints nothing, so that the lines are those of the callback; and a line that is printed
-- is not in the view.
theorem mapM_print (indices : List Nat) (s : Session φ) :
    ∃ s', Read s s' ∧ s'.printed.toList = s.printed.toList ++ s.view.dumped indices ∧
      (indices.mapM fun (index : Nat) => do
        print (dumpLine (← message index true) index) : Work φ (List Unit)) s
      = ending ((List.map fun _ => ()) <$> (indices.mapM fun (index : Nat) => do
          return dumpLine (← s.view.message index true) index)) s' := by
  induction indices generalizing s with
  | nil => exact ⟨s, .refl s, (List.append_nil _).symm, rfl⟩
  | cons index indices ih =>
    obtain ⟨t, ht, hmessage⟩ := yields_message index true s
    have hprinted := (goes_message s index true).printed_eq
    simp only [List.mapM_cons, View.dumped] at hmessage ⊢
    cases htext : s.view.message index true with
    | error fault =>
      rw [htext] at hmessage
      rw [stateAfter_of_error hmessage] at hprinted
      refine ⟨t, ht, ?_, bind_of_error (bind_of_error hmessage)⟩
      rw [hprinted]
      exact (List.append_nil _).symm
    | ok text =>
      rw [htext] at hmessage
      rw [stateAfter_of_ok hmessage] at hprinted
      let u : Session φ := { t with printed := t.printed.push (dumpLine text index) }
      have htu : Read t u :=
        ⟨fun _ => .inl rfl, rfl, ⟨[], (List.append_nil _).symm⟩, [_], Array.toList_push⟩
      have hline : (do print (dumpLine (← message (index : Nat) true) index) : Work φ Unit) s
          = .ok () u := bind_of_ok hmessage
      obtain ⟨w, huw, hlines, hrest⟩ := ih u
      rw [(ht.trans htu).view_eq] at hlines hrest
      refine ⟨w, (ht.trans htu).trans huw, ?_, (bind_of_ok hline).trans ?_⟩
      · rw [hlines, Array.toList_push, hprinted, List.append_assoc]
        rfl
      · cases hlist : (indices.mapM fun (index : Nat) => do
            return dumpLine (← s.view.message index true) index : Except Fault (List String)) with
        | error fault =>
          rw [hlist] at hrest
          refine (bind_of_error hrest).trans ?_
          rfl
        | ok lines =>
          rw [hlist] at hrest
          refine (bind_of_ok hrest).trans ?_
          rfl

/-- The dump ends as the rendering of the messages does, and what it has printed by then are its
lines so far. -/
theorem Session.exists_dump (s : Session φ) :
    ∃ s', Read s s' ∧
      s'.printed.toList = s.printed.toList ++ s.view.dumped (List.range s.view.sink.size) ∧
      dump s = ending ((fun _ => ()) <$> s.view.forEach dumpLine) s' := by
  obtain ⟨s', hread, hlines, hrun⟩ := mapM_print (List.range s.view.sink.size) s
  refine ⟨s', hread, hlines, ?_⟩
  have hforEach : Session.forEach (fun text index => print (dumpLine text index)) s
      = ending ((List.map fun _ => ()) <$> s.view.forEach dumpLine) s' := by
    cases hs : s.sink with
    | recording log =>
      have hsize : s.view.sink.size = log.size := congrArg Sink.size hs
      rw [hsize] at hrun
      refine (dispatch_of_recording hs).trans (hrun.trans ?_)
      rw [View.forEach, ← hsize]
    | discarding =>
      have hsize : s.view.sink.size = 0 := congrArg Sink.size hs
      rw [hsize] at hrun
      refine (dispatch_of_discarding hs).trans (hrun.trans ?_)
      rw [View.forEach, hsize]
  cases hfound : s.view.forEach dumpLine with
  | error fault =>
    rw [hfound] at hforEach
    exact bind_of_error hforEach
  | ok lines =>
    rw [hfound] at hforEach
    exact bind_of_ok hforEach

theorem yields_dump : Yields (Query.dump.run : Work φ (Answer φ)) fun v => v.answer .dump := by
  intro s
  obtain ⟨s', hread, hlines, hdump⟩ := exists_dump s
  refine ⟨s', hread, ?_⟩
  change Query.dump.run s = ending (s.view.answer .dump) s'
  cases hfound : s.view.forEach dumpLine with
  | error fault =>
    have hanswer : s.view.answer .dump = .error fault := by
      unfold View.answer
      rw [hfound]
      rfl
    rw [hfound] at hdump
    rw [hanswer]
    exact (bind_of_ok rfl).trans (bind_of_error hdump)
  | ok lines =>
    have hanswer : s.view.answer .dump = .ok (.text (String.join lines)) := by
      unfold View.answer
      rw [hfound]
      rfl
    have hdropped : s'.printed.toList.drop s.printed.size = lines := by
      rw [hlines, View.dumped_eq hfound, ← Array.length_toList, List.drop_left]
    rw [hfound] at hdump
    rw [hanswer, ← hdropped]
    exact (bind_of_ok rfl).trans (bind_of_ok hdump)

omit [DecidableEq φ] in
theorem yields_infoLiteral (info : Option (Info φ)) :
    Yields (do
      let files := (← get).files
      return .text (Literal.ofOption (Info.literal files) info) : Work φ (Answer φ))
      fun v => .ok (.text (v.literal info)) := by
  refine Yields.get_bind (a := fun v _ => .ok (Answer.text (v.literal info))) fun s => ?_
  have hliteral : Literal.ofOption (Info.literal s.files) info = s.view.literal info :=
    Literal.ofOption_congr fun info _ => info.literal_congr fun f _ =>
      show (s.files f).literal = (s.view.sources f).literal from rfl
  rw [← hliteral]
  exact Yields.pure _

/-- A session answers a question as its view does, and does nothing but read. -/
theorem yields_query (q : Query φ) : Yields q.run fun v => v.answer q := by
  cases q with
  | size => exact (Yields.ofView size_eq).bind fun n => Yields.pure _
  | message index detailed => exact (yields_message index detailed).bind fun text => Yields.pure _
  | diagnostic index =>
    exact (Yields.ofView fun s => diagnostic_eq s index).bind fun d => Yields.pure _
  | arguments index =>
    exact (Yields.ofView fun s => arguments_eq s index).bind fun args => Yields.pure _
  | node index => exact (Yields.ofView fun s => node_eq s index).bind fun n => Yields.pure _
  | pos index => exact (Yields.ofView fun s => pos_eq s index).bind fun pos => Yields.pure _
  | file index => exact (yields_fileAt? index).bind fun f => Yields.pure _
  | range index => exact (yields_range? index).bind fun range => Yields.pure _
  | info index options => exact (yields_info? index options).bind fun info => Yields.pure _
  | infoLiteral index options =>
    exact (yields_info? index options).bind fun info => yields_infoLiteral info
  | infos options => exact (yields_infos options).bind fun infos => Yields.pure _
  | infosOf f options => exact (yields_infosOf f options).bind fun infos => Yields.pure _
  | hasErrors => exact (Yields.ofView hasErrors_eq).bind fun flag => Yields.pure _
  | collect detailed => exact (yields_collect detailed).bind fun texts => Yields.pure _
  | dump => exact yields_dump
  | lineStarts f => exact (yields_table f).bind fun table => Yields.pure _

end Answers

end GrammarDiagnostics
