import GrammarDiagnostics.Session.Enumeration

/-! # What a session shows

Work that only asks questions may still read line tables, which files keep, make records, and print
lines. None of this can be seen in a later answer.

* `Sink.size`, `Sink.entryAt?`, `Sink.fileAt?`, `Sink.hasErrors`: what a sink holds. The one that
  discards holds nothing.
* `Session.size_eq`, `Session.diagnostic_eq` and so on, `Session.hasErrors_eq`: what is held, asked
  of a session.
* `FileView`, `View`: what of a file and of a session an answer can depend on.
* `Session.Read`: a session after reading, with the same view (`Session.Read.view_eq`).
* `Yields`: work whose outcome is a function of the view, and which does nothing but read.
* `Yields.pure`, `Yields.bind`, `Yields.filterMapM`: such work put together; `Yields.dispatch`: work
  that the two sinks do each in its own way; `Yields.outcomeOf_eq`: its outcome.
* `yields_table`, `yields_noted`: reading a line table and noting records are such work.
-/

set_option autoImplicit false

namespace GrammarDiagnostics

variable {φ α β : Type}

/-! ## What a sink holds -/

namespace Sink

/-- The number of entries held. -/
def size : Sink φ → Nat
  | .recording log => log.size
  | .discarding => 0

/-- The entry of an index. -/
def entryAt? : Sink φ → Int → Option (Entry φ)
  | .recording log, index => log.entryAt? index
  | .discarding, _ => none

/-- The file of an index. -/
def fileAt? : Sink φ → Int → Option φ
  | .recording log, index => log.fileAt? index
  | .discarding, _ => none

theorem exists_log {sink : Sink φ} {index : Int} {e : Entry φ} (h : sink.entryAt? index = some e) :
    ∃ log, sink = .recording log := by
  cases sink with
  | recording log => exact ⟨log, rfl⟩
  | discarding => exact nomatch h

/-- Whether some entry is more than a warning. -/
def hasErrors (sink : Sink φ) : Bool :=
  (List.range sink.size).any fun index =>
    match sink.entryAt? index with
    | some e => !e.diagnostic.isWarning
    | none => false

end Sink

/-! ## Views -/

/-- What of a file shows in answers. -/
structure FileView where
  filename : String
  text : Option String
  table : Option LineTable

def SourceFile.view (f : SourceFile) : FileView := ⟨f.filename, f.text, f.table⟩

/-- The name and the text of a file, as its written form shows them. -/
def FileView.file (f : FileView) : SourceFile := { filename := f.filename, text := f.text }

@[simp] theorem SourceFile.view_read (f : SourceFile) : f.read.view = f.view := by
  unfold view
  rw [f.table_read]
  rfl

@[simp] theorem SourceFile.read_read (f : SourceFile) : f.read.read = f.read := by
  obtain ⟨filename, text, kept⟩ := f
  cases kept <;> cases text <;> rfl

structure View (φ : Type) where
  files : φ → FileView
  sink : Sink φ

/-- The files as they are written out. -/
def View.sources (v : View φ) (f : φ) : SourceFile := (v.files f).file

namespace Session

def view (s : Session φ) : View φ := ⟨fun f => (s.files f).view, s.sink⟩

/-! ## Reading -/

/-- A session from which the second comes by reading: some files have kept their line tables, some
records have been made, and some lines have been printed. -/
structure Read (s s' : Session φ) : Prop where
  files : ∀ f, s'.files f = s.files f ∨ s'.files f = (s.files f).read
  sink : s'.sink = s.sink
  journal : ∃ records : List Record, s'.journal.toList = s.journal.toList ++ records
  printed : ∃ lines : List String, s'.printed.toList = s.printed.toList ++ lines

theorem Read.refl (s : Session φ) : Read s s :=
  ⟨fun _ => .inl rfl, rfl, ⟨[], (List.append_nil _).symm⟩, [], (List.append_nil _).symm⟩

theorem Read.noted (s : Session φ) (records : Journal) :
    Read s { s with journal := s.journal ++ records } :=
  ⟨fun _ => .inl rfl, rfl, ⟨records.toList, Array.toList_append⟩, [], (List.append_nil _).symm⟩

theorem Read.trans {s s' s'' : Session φ} (h : Read s s') (h' : Read s' s'') : Read s s'' where
  files := fun f => by
    rcases h.files f with hf | hf <;> rcases h'.files f with hf' | hf'
    · exact .inl (hf'.trans hf)
    · exact .inr (by rw [hf', hf])
    · exact .inr (hf'.trans hf)
    · exact .inr (by rw [hf', hf, SourceFile.read_read])
  sink := h'.sink.trans h.sink
  journal := by
    obtain ⟨records, hr⟩ := h.journal
    obtain ⟨records', hr'⟩ := h'.journal
    exact ⟨records ++ records', by rw [hr', hr, List.append_assoc]⟩
  printed := by
    obtain ⟨lines, hl⟩ := h.printed
    obtain ⟨lines', hl'⟩ := h'.printed
    exact ⟨lines ++ lines', by rw [hl', hl, List.append_assoc]⟩

theorem Read.view_eq {s s' : Session φ} (h : Read s s') : s'.view = s.view := by
  unfold view
  rw [h.sink]
  congr 1
  funext f
  rcases h.files f with hf | hf
  · rw [hf]
  · rw [hf, SourceFile.view_read]

def ending (outcome : Except Fault α) (s : Session φ) : EStateM.Result Fault (Session φ) α :=
  match outcome with
  | .ok a => .ok a s
  | .error fault => .error fault s

theorem bind_of_ok {σ : Type} {x : EStateM Fault σ α} {k : α → EStateM Fault σ β} {a : α}
    {s s' : σ} (h : x s = .ok a s') : (x >>= k) s = k a s' := by
  change EStateM.bind x k s = _
  unfold EStateM.bind
  rw [h]

theorem bind_of_error {σ : Type} {x : EStateM Fault σ α} {k : α → EStateM Fault σ β}
    {fault : Fault} {s s' : σ} (h : x s = .error fault s') : (x >>= k) s = .error fault s' := by
  change EStateM.bind x k s = _
  unfold EStateM.bind
  rw [h]

/-! ## What is held -/

section Held

variable (s : Session φ)

theorem size_eq : size s = .ok s.sink.size s := by
  obtain ⟨files, sink, journal, printed⟩ := s
  cases sink <;> rfl

theorem indices_eq : indices s = .ok (List.range s.sink.size) s := bind_of_ok (size_eq s)

theorem diagnostic_eq (index : Int) :
    diagnostic index s = .ok ((s.sink.entryAt? index).map Entry.diagnostic) s := by
  obtain ⟨files, sink, journal, printed⟩ := s
  cases sink <;> rfl

theorem arguments_eq (index : Int) :
    arguments index s = .ok ((s.sink.entryAt? index).bind Entry.arguments?) s := by
  obtain ⟨files, sink, journal, printed⟩ := s
  cases sink <;> rfl

theorem node_eq (index : Int) : node index s = .ok ((s.sink.entryAt? index).bind Entry.node) s := by
  obtain ⟨files, sink, journal, printed⟩ := s
  cases sink <;> rfl

theorem pos_eq (index : Int) : pos index s = .ok ((s.sink.entryAt? index).bind Entry.pos) s := by
  obtain ⟨files, sink, journal, printed⟩ := s
  cases sink <;> rfl

theorem fileAt?_eq (index : Int) : fileAt? index s = .ok (s.sink.fileAt? index) s := by
  obtain ⟨files, sink, journal, printed⟩ := s
  cases sink <;> rfl

theorem anyM_of_ok {f : α → Work φ Bool} {p : α → Bool} (h : ∀ a, f a s = .ok (p a) s)
    (l : List α) : l.anyM f s = .ok (l.any p) s := by
  induction l with
  | nil => rfl
  | cons a l ih =>
    rw [List.anyM, bind_of_ok (h a), List.any_cons]
    cases p a with
    | true => rfl
    | false => exact ih

theorem hasErrors_eq : hasErrors s = .ok s.sink.hasErrors s := by
  refine (bind_of_ok (indices_eq s)).trans (anyM_of_ok s (fun index => ?_) _)
  refine (bind_of_ok (diagnostic_eq s index)).trans ?_
  cases s.sink.entryAt? index <;> rfl

end Held

end Session

open Session

/-! ## Work that only reads -/

/-- The outcome of work, without the state that it leaves. -/
def outcomeOf {σ : Type} (work : EStateM Fault σ α) (state : σ) : Except Fault α :=
  match work state with
  | .ok a _ => .ok a
  | .error fault _ => .error fault

theorem outcomeOf_of_ok {σ : Type} {work : EStateM Fault σ α} {s s' : σ} {a : α}
    (h : work s = .ok a s') : outcomeOf work s = .ok a := by
  unfold outcomeOf
  rw [h]

/-- The work has the outcome that the view determines, and does nothing but read. -/
def Yields (work : Work φ α) (outcome : View φ → Except Fault α) : Prop :=
  ∀ s, ∃ s', Read s s' ∧ work s = ending (outcome s.view) s'

namespace Yields

theorem outcomeOf_eq {work : Work φ α} {outcome : View φ → Except Fault α}
    (h : Yields work outcome) (s : Session φ) : outcomeOf work s = outcome s.view := by
  obtain ⟨s', _, hwork⟩ := h s
  unfold outcomeOf
  rw [hwork]
  cases outcome s.view <;> rfl

theorem exists_ok {work : Work φ α} {outcome : View φ → Except Fault α} (h : Yields work outcome)
    {s : Session φ} {a : α} (houtcome : outcome s.view = .ok a) :
    ∃ s', work s = .ok a s' ∧ Read s s' := by
  obtain ⟨s', hread, hwork⟩ := h s
  rw [houtcome] at hwork
  exact ⟨s', hwork, hread⟩

theorem pure (a : α) : Yields (Pure.pure a : Work φ α) fun _ => .ok a :=
  fun s => ⟨s, .refl s, rfl⟩

theorem ofView {work : Work φ α} {value : View φ → α} (h : ∀ s, work s = .ok (value s.view) s) :
    Yields work fun v => .ok (value v) :=
  fun s => ⟨s, .refl s, h s⟩

theorem congr {work : Work φ α} {a b : View φ → Except Fault α} (h : Yields work a)
    (hab : ∀ v, a v = b v) : Yields work b :=
  funext hab ▸ h

theorem get_bind {k : Session φ → Work φ α} {a : View φ → View φ → Except Fault α}
    (h : ∀ s, Yields (k s) (a s.view)) : Yields (get >>= k) fun v => a v v :=
  fun s => h s s

theorem bind {x : Work φ α} {k : α → Work φ β} {a : View φ → Except Fault α}
    {b : α → View φ → Except Fault β} (hx : Yields x a) (hk : ∀ value, Yields (k value) (b value)) :
    Yields (x >>= k) fun v => a v >>= fun value => b value v := by
  intro s
  obtain ⟨s', hread, hwork⟩ := hx s
  simp only
  cases ha : a s.view with
  | error fault =>
    rw [ha] at hwork
    exact ⟨s', hread, bind_of_error hwork⟩
  | ok value =>
    rw [ha] at hwork
    obtain ⟨s'', hread', hwork'⟩ := hk value s'
    rw [hread.view_eq] at hwork'
    exact ⟨s'', hread.trans hread', (bind_of_ok hwork).trans hwork'⟩

theorem map (f : α → β) {x : Work φ α} {a : View φ → Except Fault α} (hx : Yields x a) :
    Yields (f <$> x) fun v => f <$> a v := by
  have h := hx.bind fun value => Yields.pure (φ := φ) (f value)
  intro s
  obtain ⟨s', hread, hwork⟩ := h s
  refine ⟨s', hread, ?_⟩
  rw [map_eq_pure_bind, hwork]
  cases a s.view <;> rfl

/-- Work that the two sinks do each in its own way yields what either of them finds in such a
session. -/
theorem dispatch {recording : Log φ → Work φ α} {discarding : Work φ α}
    {a : Log φ → View φ → Except Fault α} {b outcome : View φ → Except Fault α}
    (hrecording : ∀ log, Yields (recording log) (a log)) (hdiscarding : Yields discarding b)
    (ha : ∀ files log, a log ⟨files, .recording log⟩ = outcome ⟨files, .recording log⟩)
    (hb : ∀ files, b ⟨files, .discarding⟩ = outcome ⟨files, .discarding⟩) :
    Yields (Session.dispatch recording discarding) outcome := by
  intro s
  cases hs : s.sink with
  | recording log =>
    obtain ⟨s', hread, hwork⟩ := hrecording log s
    have hview : s.view = ⟨s.view.files, .recording log⟩ := congrArg (View.mk _) hs
    rw [hview, ha] at hwork
    exact ⟨s', hread, by rw [dispatch_of_recording hs, hview, hwork]⟩
  | discarding =>
    obtain ⟨s', hread, hwork⟩ := hdiscarding s
    have hview : s.view = ⟨s.view.files, .discarding⟩ := congrArg (View.mk _) hs
    rw [hview, hb] at hwork
    exact ⟨s', hread, by rw [dispatch_of_discarding hs, hview, hwork]⟩

theorem ofExcept (outcome : Except Fault α) :
    Yields (MonadExcept.ofExcept outcome : Work φ α) fun _ => outcome := by
  intro s
  refine ⟨s, .refl s, ?_⟩
  cases outcome <;> rfl

theorem filterMapM {f : α → Work φ (Option β)} {g : α → View φ → Except Fault (Option β)}
    (h : ∀ a, Yields (f a) (g a)) (l : List α) :
    Yields (l.filterMapM f) fun v => l.filterMapM fun a => g a v := by
  induction l with
  | nil => exact Yields.pure []
  | cons a l ih =>
    simp only [List.filterMapM_cons]
    refine (h a).bind fun b => ?_
    cases b with
    | none => exact ih
    | some b => exact ih.bind fun bs => Yields.pure (b :: bs)

end Yields

theorem yields_noted (work : Noted α) :
    Yields (noted work : Work φ α) fun _ => outcomeOf work #[] := by
  intro s
  unfold noted outcomeOf
  cases h : work #[] with
  | ok a records => exact ⟨_, .noted s records, rfl⟩
  | error fault records => exact ⟨_, .noted s records, rfl⟩

section Files

variable [DecidableEq φ]

/-- Reading a line table: nothing happens but on the first reading, which is noted and kept. -/
theorem Session.table_eq (f : φ) (s : Session φ) :
    Session.table f s = .ok (s.files f).table (if (s.files f).records.isEmpty then s else
      { s with
        files := fun g => if g = f then (s.files f).read else s.files g
        journal := s.journal ++ (s.files f).records }) := by
  have hrun : Session.table f s = (do
      if !(s.files f).records.isEmpty then
        note (s.files f).records
        setFile f (s.files f).read
      return (s.files f).table : Work φ (Option LineTable)) s := rfl
  rw [hrun]
  cases (s.files f).records.isEmpty <;> rfl

theorem yields_table (f : φ) : Yields (Session.table f) fun v => .ok (v.files f).table := by
  intro s
  rw [Session.table_eq]
  refine ⟨_, ?_, rfl⟩
  split
  case isTrue => exact .refl s
  case isFalse =>
    refine ⟨fun g => ?_, rfl, ⟨(s.files f).records, Array.toList_appendList⟩, [],
      (List.append_nil _).symm⟩
    by_cases hg : g = f
    · rw [hg]
      exact .inr (if_pos rfl)
    · exact .inl (if_neg hg)

end Files

end GrammarDiagnostics
